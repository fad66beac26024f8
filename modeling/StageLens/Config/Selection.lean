import StageLens.Config.Document
import StageLens.Host.Basic

/-!
# Which configuration is used

A path that is given decides. Otherwise the nearest configuration file in the working directory or
above it is used, else the one in the home directory, else the defaults. The file that is chosen is
the only one that is looked at: if it cannot be used there is no other.
-/

namespace StageLens.Config

/-- Where a directory has its configuration. -/
def fileIn (directory : Bytes) : Bytes :=
  Path.join (Path.join directory (Text.bytes ".silscope")) (Text.bytes "config.toml")

def homeVariable : String := "HOME"

/-- The home directory: what the environment says, or else what is on record. -/
def home? (h : Host) : Option Bytes :=
  ((h.valueOf? homeVariable).filter (!·.isEmpty)).or h.recordedHome

/-- The configuration file of the home directory. -/
def homeFile? (h : Host) : Option Bytes := (home? h).map fileIn

/-- The working directory and those above it, the deepest first. A working directory that was removed
has no path, and none above it is known. -/
def surroundings (h : Host) : List Bytes :=
  if h.tree.get? h.cwd = some .directory then
    (List.range (h.cwd.length + 1)).reverse.map fun n => Path.ofPlace (h.cwd.take n)
  else []

/-- The file that is used; none for the defaults. -/
def selected? (h : Host) (explicit : Option Bytes) : Option Bytes :=
  match explicit with
  | some p => some p
  | none =>
    match ((surroundings h).map fileIn).find? h.exists? with
    | some p => some p
    | none => (homeFile? h).filter h.exists?

/-- The configuration in a file. -/
def ofFile (h : Host) (p : Bytes) : Except Failure Config :=
  match h.readText p with
  | .error e => .error (.io e)
  | .ok text => ofText text

/-- The configuration that is used. -/
def load (h : Host) (explicit : Option Bytes) : Except Failure Config :=
  match selected? h explicit with
  | some p => ofFile h p
  | none => .ok {}

end StageLens.Config
