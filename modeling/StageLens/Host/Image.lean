import StageLens.Host.Executable
import StageLens.Text.Octets

/-!
# Images

What runs when a file is executed: a program of the system, either the file itself or the
interpreter that the first line of a script names, with the arguments it gets.
-/

namespace StageLens.Host

/-- A program of the system with its words, the first of which is the name it goes by. -/
structure Image where
  tool : String
  words : List Octets
  deriving DecidableEq, Repr

/-- The interpreter of a script and the argument in front of the path of the script. -/
def interpreter? (contents : Octets) : Option (Octets × List Octets) :=
  match contents with
  | '#' :: '!' :: rest =>
    let isGap (c : Char) : Bool := c = ' ' || c = '\t'
    let line := (rest.takeWhile (· ≠ '\n')).dropWhile isGap
    let path := line.takeWhile (!isGap ·)
    let argument := (((line.drop path.length).dropWhile isGap).reverse.dropWhile isGap).reverse
    if path.isEmpty then none
    else some (path, if argument.isEmpty then [] else [argument])
  | _ => none

/-- How many interpreters can be written in each other's language. -/
def interpreterLimit : Nat := 5

def imageFrom (h : Host) (arguments : List Octets) : Nat → Bytes → Octets → List Octets →
    Except HostError Image
  | 0, _, _, _ => .error .linkLoop
  | depth + 1, path, spoken, before => do
    match ← h.find path with
    | .missing _ _ => throw .notFound
    | .there _ (.tool name) => return ⟨name, spoken :: before ++ arguments⟩
    | .there _ (.file contents true) =>
      match interpreter? (Octets.ofBytes contents) with
      | none => throw .notExecutableFormat
      | some (interpreter, option) =>
        imageFrom h arguments depth interpreter.toBytes interpreter
          (option ++ Octets.ofBytes path :: before)
    | .there _ _ => throw .permissionDenied

/-- What runs when the file at a path is executed under a name. -/
def image (h : Host) (path : Bytes) (spoken : Octets) (arguments : List Octets) :
    Except HostError Image :=
  imageFrom h arguments interpreterLimit path spoken []

/-- Whether a search goes on after an error. -/
def isPassedOver (e : HostError) : Bool :=
  e == .notFound || e == .notDirectory || e == .permissionDenied

/-- The first image that can be executed; otherwise the error that stopped the search, or that a
file may not be executed, or that there is none. -/
def firstImage (h : Host) (spoken : Octets) (arguments : List Octets) (forbidden : Bool) :
    List Bytes → Except HostError Image
  | [] => .error (if forbidden then .permissionDenied else .notFound)
  | path :: paths =>
    match h.image path spoken arguments with
    | .ok i => .ok i
    | .error e =>
      if isPassedOver e then
        h.firstImage spoken arguments (forbidden || e == .permissionDenied) paths
      else .error e

/-- What runs for a program: the file at its path, or the first one on the search path if its name
has no slash. -/
def imageOf (h : Host) (program : Bytes) (arguments : List Octets) : Except HostError Image :=
  let spoken := Octets.ofBytes program
  if program.contains Path.slash then h.image program spoken arguments
  else if program.isEmpty then .error .notFound
  else
    let path := (h.valueOf? searchVariable).getD (Text.bytes "/bin:/usr/bin")
    h.firstImage spoken arguments false ((searchPath path).map (Path.join · program))

end StageLens.Host
