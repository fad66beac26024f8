import StageLens.CommandLine.Basic

/-!
# The files of a run

Which files a run on given arguments may look at, so that they can be brought to the host before it
starts, and whether it reads standard input.
-/

namespace StageLens.CommandLine

/-- The file or standard input that a command reads its source from. -/
def inputOf (c : Command) : Option (Option Bytes) :=
  match c.errand with
  | .compile path _ _ _ => some (path.filter (!isStandardInput ·))
  | _ => none

/-- The configuration files that a command may be given by. -/
def configFiles (h : Host) (c : Command) : List Bytes :=
  match c.config with
  | some p => [p]
  | none => (Config.surroundings h).map Config.fileIn ++ (Config.homeFile? h).toList

/-- The files that a run may read. -/
def consulted (h : Host) (arguments : List Octets) : List Bytes :=
  match readArguments arguments with
  | .ok c => ((inputOf c).bind id).toList ++ configFiles h c
  | .error _ => []

/-- Whether a run reads standard input. -/
def readsInput (arguments : List Octets) : Bool :=
  match readArguments arguments with
  | .ok c => inputOf c == some none
  | .error _ => false

/-- The host with a file, and with the directories above it. -/
def withFile (h : Host) (p contents : Bytes) : Host :=
  let directory := (Path.ancestors p).tail.headD []
  let h := if directory.isEmpty then h else (h.ensureDirectories directory).toOption.getD h
  (h.write p contents).toOption.getD h

end StageLens.CommandLine
