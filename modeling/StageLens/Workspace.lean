import StageLens.Host.Basic
import StageLens.Stage.Basic
import StageLens.Text.Escaped

/-!
# Scratch workspaces

A workspace is a fresh directory that holds the source of one request and whatever the tools write
beside it. It is made under a scratch directory that is made first if it is missing, and everything
in it goes when it is disposed of. Where no workspace can be made, no directory of its name is left.
-/

namespace StageLens

/-- A directory of a request. -/
structure Workspace where
  /-- The directory as an absolute path. -/
  path : Bytes
  /-- Where it was made. -/
  place : Place
  deriving DecidableEq, Repr

/-- Why there is no workspace. -/
structure Workspace.Failure where
  cause : HostError
  /-- The path that could not be made, where the message names it. -/
  path : Option Bytes := none
  deriving DecidableEq, Repr

namespace Workspace

def Failure.message (f : Failure) : String :=
  match f.path with
  | none => f.cause.message
  | some p => f.cause.message ++ " at path " ++ Text.escaped (Text.decodeText p)

/-- How the name of every workspace starts. -/
def namePrefix : Bytes := Text.bytes "silscope-"

/-- The name of the `n`-th workspace. -/
def nameOf (n : Nat) : Bytes :=
  let digits := Nat.toDigits 16 n
  namePrefix ++ Text.encode (List.replicate (6 - digits.length) '0' ++ digits)

/-- The first number from `n` on whose name is none of these. There are only so many names, so that
one of the next `names.length + 1` numbers will do. -/
def freshNumber (names : List Bytes) (n : Nat) : Nat :=
  ((List.range (names.length + 1)).find? fun k => !names.contains (nameOf (n + k))).elim n (n + ·)

/-- The directory for temporary files. -/
def temporaryRoot (h : Host) : Bytes :=
  (h.valueOf? Host.temporaryVariable).getD (Text.bytes "/tmp")

/-- The path of the source in a workspace. -/
def sourcePath (w : Workspace) : Bytes := Path.join w.path (Text.bytes Stage.sourceName)

/-- Remove a workspace and all that is in it, by its path. Where the path leads to no directory any
more, nothing is removed. -/
def dispose (w : Workspace) (h : Host) : Host := (h.removeAll w.path).toOption.getD h

/-- Whether there is something to be removed where the path of the workspace leads. -/
def isThere (w : Workspace) (h : Host) : Bool := (h.removeAll w.path).toOption.isSome

/-- Make a fresh directory under a directory that is there. -/
def makeFresh (h : Host) (root : Bytes) : Except Failure (Workspace × Host) :=
  let directory := Path.join h.cwdPath root
  let n := freshNumber ((h.entries directory).toOption.getD []) h.named
  let path := Path.join directory (nameOf n)
  match h.locate false path with
  | .error e => .error ⟨e, some path⟩
  | .ok (.there _ _) => .error ⟨.alreadyExists, some path⟩
  | .ok (.missing above name) =>
    match { h with named := n + 1 }.makeDirectory path with
    | .error e => .error ⟨e, some path⟩
    | .ok h => .ok (⟨path, above ++ [name]⟩, h)

/-- Make the scratch directory: its path, and the host afterwards. -/
def prepareRoot (h : Host) (scratchRoot : Option Bytes) : Except HostError Bytes × Host :=
  match scratchRoot with
  | none => (.ok (temporaryRoot h), h)
  | some root =>
    match h.ensureChain (Path.ancestors root) with
    | (.ok _, h) => (.ok root, h)
    | (.error e, h) => (.error e, h)

/-- Make a workspace with a source, and the host afterwards. -/
def create (h : Host) (scratchRoot : Option Bytes) (source : String) :
    Except Failure Workspace × Host :=
  match prepareRoot h scratchRoot with
  | (.error e, h) => (.error ⟨e, none⟩, h)
  | (.ok root, h) =>
    match makeFresh h root with
    | .error f => (.error f, h)
    | .ok (w, h) =>
      match h.write w.sourcePath (Text.bytes source) with
      | .ok h => (.ok w, h)
      | .error e => (.error ⟨e, none⟩, w.dispose h)

end Workspace

end StageLens
