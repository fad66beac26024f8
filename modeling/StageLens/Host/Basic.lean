import StageLens.Host.Error
import StageLens.Host.Tree

/-!
# The host

The host is the file tree, the working directory and the environment in which everything runs.
`Host.find` follows a path as the system does, through links and dots; the operations below it are
those that the service and its tools need. A host can be told to refuse operations that would
otherwise succeed.
-/

namespace StageLens

/-- An operation that changes the tree. -/
inductive Host.Operation where
  | makeDirectory (p : Place)
  | write (p : Place)
  deriving DecidableEq, Repr

structure Host where
  tree : Tree
  cwd : Place := []
  environment : List (String × Bytes) := []
  /-- The home directory that the system has on record for the user. -/
  recordedHome : Option Bytes := none
  /-- How many names for temporary files have been given out. -/
  named : Nat := 0
  /-- The operations that are refused although nothing in the tree stands against them. -/
  refuses : Host.Operation → Option HostError := fun _ => none

namespace Host

open StageLens.Tree (Reached)

def valueOf? (h : Host) (name : String) : Option Bytes := h.environment.lookup name

/-- The environment with a variable set. -/
def setVariable (h : Host) (name : String) (value : Bytes) : Host :=
  { h with environment := (name, value) :: h.environment.filter (·.1 ≠ name) }

/-- The variable that names the directory for temporary files. -/
def temporaryVariable : String := "TMPDIR"

/-! ## Following paths -/

/-- The way along a path up to its end or to the next link. -/
inductive Leg where
  | reached (r : Reached)
  /-- A link at `directory`, with its target and what is left of the path. -/
  | link (directory : Place) (target : Bytes) (rest : List Bytes)
  | failed (e : HostError)
  deriving DecidableEq, Repr

/-- The longest name of a file. -/
def nameLimit : Nat := 255

/-- Go down from a directory. With `follow` a link at the end is followed. -/
def descend (t : Tree) (follow : Bool) (place : Place) : List Bytes → Leg
  | [] => .reached (.there place ((t.get? place).getD .directory))
  | name :: rest =>
    if t.get? place ≠ some .directory then .failed .notDirectory
    else if name = Path.here then descend t follow place rest
    else if name = Path.above then descend t follow place.dropLast rest
    else if nameLimit < name.length then .failed .nameTooLong
    else match t.get? (place ++ [name]) with
      | none => if rest.isEmpty then .reached (.missing place name) else .failed .notFound
      | some (.link target) =>
        if rest.isEmpty && !follow then .reached (.there (place ++ [name]) (.link target))
        else .link place target rest
      | some _ => descend t follow (place ++ [name]) rest

/-- The names of a path, where a slash at its end asks for a directory. -/
def steps (p : Bytes) : List Bytes :=
  Path.parts p ++ if Path.endsInSlash p then [Path.here] else []

/-- Follow a path through at most so many links. -/
def followFrom (t : Tree) (follow : Bool) : Nat → Place → List Bytes → Except HostError Reached
  | hops, place, names =>
    match descend t follow place names with
    | .reached r => .ok r
    | .failed e => .error e
    | .link directory target rest =>
      match hops with
      | 0 => .error .linkLoop
      | hops + 1 =>
        followFrom t follow hops (if Path.isAbsolute target then [] else directory)
          (steps target ++ rest)

/-- How many links a path may lead through. -/
def linkLimit : Nat := 40

/-- The longest path. -/
def pathLimit : Nat := 4095

/-- Where a path leads; with `follow` a link at its end is followed. -/
def locate (h : Host) (follow : Bool) (p : Bytes) : Except HostError Reached :=
  if p.isEmpty then .error .notFound
  else if p.contains 0 then .error .nulInPath
  else if pathLimit < p.length then .error .nameTooLong
  else followFrom h.tree follow linkLimit (if Path.isAbsolute p then [] else h.cwd) (steps p)

def find (h : Host) (p : Bytes) : Except HostError Reached := h.locate true p

/-- What a path leads to, if anything. -/
def node? (h : Host) (p : Bytes) : Option Node :=
  match h.find p with
  | .ok (.there _ n) => some n
  | _ => none

def exists? (h : Host) (p : Bytes) : Bool := (h.node? p).isSome

def isFile (h : Host) (p : Bytes) : Bool :=
  match h.node? p with
  | some n => n.isFile
  | none => false

def isDirectory (h : Host) (p : Bytes) : Bool := h.node? p == some .directory

/-- The path of the working directory. -/
def cwdPath (h : Host) : Bytes := Path.ofPlace h.cwd

/-! ## Reading -/

/-- How a program of the system starts. No text starts like this. -/
def programImage : Bytes := [0x7F, 0x45, 0x4C, 0x46, 0x02, 0x01, 0x01, 0x00, 0xFF]

def contents? : Node → Except HostError Bytes
  | .file contents _ => .ok contents
  | .directory => .error .isDirectory
  | .tool _ => .ok programImage
  | .null => .ok []
  | .link _ => .error .linkLoop

/-- The contents of a file. -/
def read (h : Host) (p : Bytes) : Except HostError Bytes := do
  match ← h.find p with
  | .there _ n => contents? n
  | .missing _ _ => .error .notFound

/-- The contents of a file that is a text. -/
def readText (h : Host) (p : Bytes) : Except HostError String := do
  match Text.decode? (← h.read p) with
  | some s => .ok s
  | none => .error .notUtf8

/-- The names in a directory. -/
def entries (h : Host) (p : Bytes) : Except HostError (List Bytes) := do
  match ← h.find p with
  | .there place .directory => .ok (h.tree.names place)
  | .there _ _ => .error .notDirectory
  | .missing _ _ => .error .notFound

/-! ## Changing -/

def put (h : Host) (p : Place) (n : Node) : Host := { h with tree := h.tree.put p n }

/-- Write a file, which is made if it is not there. -/
def write (h : Host) (p : Bytes) (contents : Bytes) : Except HostError Host := do
  let (place, node) ← match ← h.find p with
    | .there place (.file _ x) => pure (place, Node.file contents x)
    | .there place .null => pure (place, .null)
    | .there _ (.tool _) => throw .textBusy
    | .there _ _ => throw .isDirectory
    | .missing directory name => pure (directory ++ [name], .file contents false)
  match h.refuses (.write place) with
  | some e => throw e
  | none => return h.put place node

/-- Make one directory. -/
def makeDirectory (h : Host) (p : Bytes) : Except HostError Host := do
  -- The slash at the end of a directory's name does not ask for one that is there.
  let p := if (Path.parts p).isEmpty then p
    else (p.reverse.dropWhile (· == Path.slash)).reverse
  match ← h.locate false p with
  | .there _ _ => throw .alreadyExists
  | .missing directory name =>
    match h.refuses (.makeDirectory (directory ++ [name])) with
    | some e => throw e
    | none => return h.put (directory ++ [name]) .directory

/-- Make a directory unless it is there. -/
def ensureDirectory (h : Host) (p : Bytes) : Except HostError Host :=
  match h.makeDirectory p with
  | .ok h => .ok h
  | .error e => if h.isDirectory p then .ok h else .error e

/-- Make the first of these directories, and those of the others that are missing for it: each
stands in the next. What has been made stays where the rest cannot be made. -/
def ensureChain (h : Host) : List Bytes → Except HostError Unit × Host
  | [] => (.ok (), h)
  | p :: above =>
    match h.makeDirectory p with
    | .ok h => (.ok (), h)
    | .error .notFound =>
      match h.ensureChain above with
      | (.error e, h) => (.error e, h)
      | (.ok _, h) =>
        match h.ensureDirectory p with
        | .ok h => (.ok (), h)
        | .error e => (.error e, h)
    | .error e => (if h.isDirectory p then .ok () else .error e, h)

/-- Make a directory and those above it that are missing. -/
def ensureDirectories (h : Host) (p : Bytes) : Except HostError Host :=
  match h.ensureChain (Path.ancestors p) with
  | (.ok _, h) => .ok h
  | (.error e, _) => .error e

/-- Remove a place and all that is below it. -/
def remove (h : Host) (p : Place) : Host := { h with tree := h.tree.remove p }

/-- Remove what a path leads to, which is a directory with all that is below it or a link alone. -/
def removeAll (h : Host) (p : Bytes) : Except HostError Host := do
  match ← h.locate false p with
  | .there place .directory | .there place (.link _) => return h.remove place
  | .there _ _ => throw .notDirectory
  | .missing _ _ => throw .notFound

end Host

end StageLens
