import StageLens.Host.Basic

/-!
# A bare system

The file tree of a system that has its usual programs and nothing else: no compiler, no demangler
and no configuration.
-/

namespace StageLens.Host

/-- The programs of the system, which are found under both directories for programs. -/
def programs : List String :=
  ["sh", "cat", "echo", "false", "head", "kill", "ls", "mkdir", "printf", "pwd", "rm", "sed",
    "sleep", "test", "[", "touch", "tr", "true", "wc"]

def placeOf (path : String) : Place := Path.parts (Text.bytes path)

def programEntries (directory : String) : List (Place × Node) :=
  (placeOf directory, .directory) ::
    programs.map fun name => (placeOf directory ++ [Text.bytes name], .tool name)

/-- The tree of a bare system. -/
def systemTree : Tree :=
  ⟨programEntries "/bin" ++ (placeOf "/usr", .directory) :: programEntries "/usr/bin" ++
    [(placeOf "/etc", .directory),
      (placeOf "/etc/passwd", .file (Text.bytes "root:x:0:0:root:/root:/bin/sh\n") false),
      (placeOf "/dev", .directory), (placeOf "/dev/null", .null), (placeOf "/tmp", .directory),
      (placeOf "/root", .directory), (placeOf "/var", .directory),
      (placeOf "/home", .directory)]⟩

/-- A bare system with the usual search path. -/
def system : Host :=
  { tree := systemTree
    environment := [("PATH", Text.bytes "/bin:/usr/bin")]
    recordedHome := some (Text.bytes "/root") }

end StageLens.Host
