import StageLens.Process.Runner
import StageLens.Text.Search

/-!
# Scripted runs

A script decides for every invocation what its run does, so that the service can be exercised
without a toolchain. `Script.swiftLike` is a script that behaves like a small Swift compiler and
demangler: it shows the source where a compiler shows syntax trees and a mangled symbol where a
compiler shows code.
-/

namespace StageLens

/-- What a scripted run does. -/
inductive Act where
  | exit (o : Output)
  /-- Exit after some nanoseconds. -/
  | exitAfter (delay : Nat) (o : Output)
  | launchFailure
  | timeout
  | ioFailure
  /-- Never end. -/
  | hang
  deriving DecidableEq, Repr

abbrev Script := Invocation → Host → Act

namespace Script

/-- The ending of a run that does this. -/
def ending (i : Invocation) : Act → Option Ending
  | .exit o | .exitAfter _ o => some (.ok o)
  | .launchFailure => some (.error (.launch i.program (.described "No such file or directory")))
  | .timeout => some (.error (.timedOut i.program i.timeout))
  | .ioFailure => some (.error (.io i.program (.described "broken pipe")))
  | .hang => none

/-- The runner that follows a script. It changes no file and reports nothing. -/
def runner (s : Script) : Runner := fun i h =>
  let act := s i h
  { ending := ending i act, host := h
    duration := match act with
      | .exitAfter delay _ => delay
      | _ => 0 }

/-- The symbol that the compiler of `swiftLike` mangles. -/
def mangled : String := "$s4main5helloyyF"

/-- What its demangler shows for the symbol. -/
def demangled : String := "main.hello() -> ()"

/-- Whether an invocation is one of a demangler. -/
def isDemangler (i : Invocation) : Bool := Text.contains (Text.decodeText i.program) "demangle"

/-- The flag that selects the stage. -/
def emitFlag (i : Invocation) : String := (i.arguments[1]?).getD ""

/-- The source in the directory of an invocation. -/
def source? (i : Invocation) (h : Host) : Option String :=
  i.directory.bind fun d => (h.readText (Path.join d (Text.bytes Stage.sourceName))).toOption

/-- What the compiler shows for a source; none for a flag it does not know. -/
def dump? (flag flags source : String) : Option String :=
  match flag with
  | "-dump-parse" => some ("(source_file \"main.swift\"\n  (top_level_code_decl " ++ source ++ "))")
  | "-dump-ast" =>
    some ("(source_file \"main.swift\"\n  (top_level_code_decl range=[main.swift:1:1]\n" ++
      "    (call_expr type=\"()\" " ++ source ++ ")))")
  | "-emit-silgen" =>
    some ("sil_stage raw\n// " ++ mangled ++ "\nsil @" ++ mangled ++ " // " ++ flags)
  | "-emit-sil" => some ("sil_stage canonical\nsil @" ++ mangled ++ " // " ++ flags)
  | "-emit-ir" => some ("define swiftcc void @\"" ++ mangled ++ "\"() ; " ++ flags)
  | "-emit-assembly" =>
    some ("\t.globl\t_" ++ mangled ++ "\n_" ++ mangled ++ ":\n\tret ; " ++ flags)
  | _ => none

def failed (message : String) : Output := { exitCode := 1, stderr := message }

/-- What the compiler prints for the source it has found. -/
def compile (i : Invocation) (source : Option String) : Output :=
  match source with
  | none => failed "<unknown>:0: error: no such file or directory: 'main.swift'"
  | some source =>
    if Text.contains source "#error" then failed "main.swift:1:1: error: #error directive"
    else match dump? (emitFlag i) (" ".intercalate i.arguments) source with
      | some text => { stdout := text }
      | none => failed ("error: unknown argument: '" ++ emitFlag i ++ "'")

/-- What the demangler prints. -/
def demangle (i : Invocation) : Output :=
  { stdout := Text.replace (Text.decodeText (i.input.getD [])) mangled demangled }

/-- The output of the small compiler and demangler. -/
def swiftOutput (i : Invocation) (h : Host) : Output :=
  if isDemangler i then demangle i else compile i (source? i h)

def swiftLike : Script := fun i h => .exit (swiftOutput i h)

/-- The word that a script looks an invocation up by: that of the demangler, or the flag of the
stage. -/
def keyOf (i : Invocation) : String := if isDemangler i then "demangle" else emitFlag i

end Script

end StageLens
