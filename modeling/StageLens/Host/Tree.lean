import StageLens.Host.Path

/-!
# File trees

A tree says what is at which place. It is a list of places, so that two trees can be compared
entry by entry; the root is always a directory.
-/

namespace StageLens

/-- What can be at a place. -/
inductive Node where
  | directory
  | file (contents : Bytes) (executable : Bool)
  /-- A symbolic link. -/
  | link (target : Bytes)
  /-- A program of the system. -/
  | tool (name : String)
  /-- The null device. -/
  | null
  deriving DecidableEq, Repr

namespace Node

/-- A regular file, which a program is too. -/
def isFile : Node → Bool
  | file _ _ | tool _ => true
  | _ => false

end Node

/-- What is at which place. -/
structure Tree where
  entries : List (Place × Node)
  deriving DecidableEq, Repr

namespace Tree

def empty : Tree := ⟨[]⟩

/-- What is at a place. -/
def get? (t : Tree) (p : Place) : Option Node :=
  if p = [] then some .directory else t.entries.lookup p

/-- The entries with a node put at a place, where it replaces another. -/
def putEntry (p : Place) (n : Node) : List (Place × Node) → List (Place × Node)
  | [] => [(p, n)]
  | (q, m) :: rest => if q = p then (p, n) :: rest else (q, m) :: putEntry p n rest

def put (t : Tree) (p : Place) (n : Node) : Tree := ⟨putEntry p n t.entries⟩

/-- The tree without a place and all that is below it. -/
def remove (t : Tree) (p : Place) : Tree := ⟨t.entries.filter fun e => !p.isPrefixOf e.1⟩

/-- The name of an entry that stands directly in a directory. -/
def nameIn (directory : Place) (p : Place) : Option Bytes :=
  match p.getLast? with
  | some name => if p = directory ++ [name] then some name else none
  | none => none

/-- The names in a directory. -/
def names (t : Tree) (directory : Place) : List Bytes :=
  t.entries.filterMap fun e => nameIn directory e.1

/-- Where a path leads. -/
inductive Reached where
  | there (place : Place) (node : Node)
  /-- All directories on the way are there, but not the last name. -/
  | missing (directory : Place) (name : Bytes)
  deriving DecidableEq, Repr

end Tree

end StageLens
