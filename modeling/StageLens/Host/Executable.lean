import StageLens.Host.Basic

/-!
# Looking up executables

A bare name is looked up once, in the directories of the search path in their order. Any other path
stays as it is, and so does a name that is found nowhere.
-/

namespace StageLens.Host

/-- The variable that holds the search path. -/
def searchVariable : String := "PATH"

/-- The directories of a search path. -/
def searchPath (path : Bytes) : List Bytes := Path.split 0x3A path

/-- Whether a program is looked up: its path has one component and is not absolute. -/
def isBareName (program : Bytes) : Bool :=
  Path.componentCount program == 1 && !Path.isAbsolute program

/-- The path to run a program by. -/
def resolveExecutable (h : Host) (program : Bytes) : Bytes :=
  if isBareName program then
    match h.valueOf? searchVariable with
    | none => program
    | some path =>
      (((searchPath path).map (Path.join · program)).find? h.isFile).getD program
  else program

end StageLens.Host
