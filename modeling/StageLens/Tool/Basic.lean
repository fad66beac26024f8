import StageLens.Host.Basic
import StageLens.Text.Octets

/-!
# The programs of the system

A program of the system reads its standard input and the files of the host, prints on its two
streams, changes files and takes its time. `Tool.Console` is what it works on.
-/

namespace StageLens.Tool

/-- The two streams that a program prints on. -/
inductive Stream where
  | output
  | errors
  deriving DecidableEq, Repr

structure Console where
  host : Host
  /-- What is left of standard input. -/
  input : Octets := []
  /-- Whether standard input was asked for. -/
  hasRead : Bool := false
  /-- What was printed, latest first. -/
  printed : List (Stream × Octets) := []
  status : Nat := 0
  /-- How long it took, in nanoseconds. -/
  elapsed : Nat := 0

/-- What a program does, without its arguments. -/
abbrev Job := StateM Console

def print (o : Octets) : Job Unit :=
  modify fun c => { c with printed := (.output, o) :: c.printed }

def printLine (o : Octets) : Job Unit := print (o ++ ['\n'])

/-- Print a line on standard error. -/
def complain (o : Octets) : Job Unit :=
  modify fun c => { c with printed := (.errors, o ++ ['\n']) :: c.printed }

def setStatus (n : Nat) : Job Unit := modify fun c => { c with status := n }

/-- Complain and end with a status. -/
def fail (n : Nat) (o : Octets) : Job Unit := do
  complain o
  setStatus n

/-- All of standard input that is left. -/
def readInput : Job Octets :=
  modifyGet fun c => (c.input, { c with input := [], hasRead := true })

/-- The contents of a file; a dash stands for standard input. -/
def readFile (path : Octets) : Job (Except HostError Octets) := do
  if path = ['-'] then return .ok (← readInput)
  return ((← get).host.read path.toBytes).map Octets.ofBytes

/-- Change the host, or say why not. -/
def change (f : Host → Except HostError Host) : Job (Option HostError) := do
  let c ← get
  match f c.host with
  | .ok host =>
    set { c with host }
    return none
  | .error e => return some e

def ofError (e : HostError) : Octets := e.words.toList

/-- A text in quotation marks. -/
def quoted (o : Octets) : Octets := '\'' :: o ++ ['\'']

def decimal (n : Nat) : Octets := (toString n).toList

/-- The flags in front of the operands, as single letters, and the operands. -/
def splitFlags : List Octets → List Char × List Octets
  | [] => ([], [])
  | a :: rest =>
    if a = ['-', '-'] then ([], rest)
    else match a with
      | '-' :: c :: cs =>
        let (flags, operands) := splitFlags rest
        ((c :: cs) ++ flags, operands)
      | _ => ([], a :: rest)

end StageLens.Tool
