import StageLens.Host.Basic
import StageLens.Number.Power
import StageLens.Shell.Pattern
import StageLens.Shell.Syntax

/-!
# The state of a shell

A shell has variables, descriptors and a clock of its own. Everything that is printed is kept with
its time and the sink it went to, so that what several processes print at once can be put in order
afterwards. A child is run on the state of its parent, and then the parent takes back what belongs
to it (`Effect.fork`); both have started at the same time.
-/

namespace StageLens.Shell

/-- Where a descriptor goes. -/
inductive Handle where
  /-- A text to read. -/
  | source (n : Nat)
  /-- Something to print to. -/
  | sink (n : Nat)
  | file (p : Place)
  | null
  deriving DecidableEq, Repr

/-- A text that was printed, and when. -/
structure Printed where
  time : Nat
  sink : Nat
  text : Octets
  deriving DecidableEq, Repr

/-- A text that can be read, and since when it is complete. -/
structure Source where
  number : Nat
  text : Octets
  complete : Nat
  deriving DecidableEq, Repr

/-- A command in the background. -/
structure Job where
  pid : Nat
  ends : Nat
  status : Nat
  deriving DecidableEq, Repr

structure State where
  host : Host
  name : Octets
  arguments : List Octets := []
  /-- The variables that programs do not see. -/
  hidden : List (String × Octets) := []
  functions : List (String × Command) := []
  handles : List (Nat × Handle) := []
  sources : List Source := []
  /-- The next number for a source or a sink. -/
  fresh : Nat := 3
  /-- What was printed, latest first. -/
  printed : List Printed := []
  /-- Until when jobs in the background keep a sink open. -/
  held : List (Nat × Nat) := []
  /-- The time, in nanoseconds since the start. -/
  clock : Nat := 0
  status : Nat := 0
  /-- The line of the command in progress. -/
  line : Nat := 1
  pid : Nat := 1000
  nextPid : Nat := 1001
  jobs : List Job := []

/-- How a child ended. -/
inductive End where
  | exited (status : Nat)
  | killed (signal : Nat)
  deriving DecidableEq, Repr

/-- The status that stands for an end. -/
def End.status : End → Nat
  | exited n => n
  | killed signal => 128 + signal

/-- Why commands are left before their end. -/
inductive Stop where
  | exit (status : Nat)
  /-- A process was killed by a signal. -/
  | killed (pid signal : Nat)
  /-- Leave so many loops. -/
  | leave (loops : Nat)
  /-- Leave all but the last of so many loops and go on with that. -/
  | again (loops : Nat)
  /-- Leave a function. -/
  | back (status : Nat)
  deriving DecidableEq, Repr

/-- What commands do. -/
abbrev Effect := ExceptT Stop (StateM State)

/-- A time that is never reached. -/
def never : Nat := Number.pow2 100

namespace Effect

def setStatus (n : Nat) : Effect Unit := modify fun s => { s with status := n }

def handle? (descriptor : Nat) : Effect (Option Handle) :=
  return (← get).handles.lookup descriptor

def setHandle (descriptor : Nat) (h : Option Handle) : Effect Unit :=
  modify fun s =>
    let others := s.handles.filter (·.1 ≠ descriptor)
    { s with handles := h.elim others fun h => (descriptor, h) :: others }

/-- Print to a handle. -/
def printTo (h : Handle) (o : Octets) : Effect Unit :=
  modify fun s => match h with
    | .sink n => { s with printed := ⟨s.clock, n, o⟩ :: s.printed }
    | .file p =>
      match s.host.tree.get? p with
      | some (.file contents x) => { s with host := s.host.put p (.file (contents ++ o.toBytes) x) }
      | _ => s
    | _ => s

/-- Print to a descriptor; false if there is nothing to print to. -/
def print (descriptor : Nat) (o : Octets) : Effect Bool := do
  if o.isEmpty then return true
  match ← handle? descriptor with
  | none | some (.source _) => return false
  | some h =>
    printTo h o
    return true

/-- Print a message of the shell about a line. -/
def complain (text : Octets) : Effect Unit := do
  let s ← get
  discard <| print 2
    (s.name ++ ": ".toList ++ (toString s.line).toList ++ ": ".toList ++ text ++ ['\n'])

/-- What is left to read from a descriptor. Nothing is taken and no time passes. -/
def remaining (descriptor : Nat) : Effect (Option Source) := do
  match ← handle? descriptor with
  | some (.source n) => return (← get).sources.find? (·.number == n)
  | _ => return none

/-- Wait until a source is complete, and leave only this much of it. -/
def leaveOf (source : Source) (left : Octets) : Effect Unit :=
  modify fun s => { s with
    clock := max s.clock source.complete
    sources := { source with text := left } :: s.sources.filter (·.number ≠ source.number) }

/-- A handle from which a text can be read that is complete at a time. -/
def openText (text : Octets) (complete : Nat) : Effect Handle :=
  modifyGet fun s => (.source s.fresh,
    { s with fresh := s.fresh + 1, sources := ⟨s.fresh, text, complete⟩ :: s.sources })

/-- The number of a new sink. -/
def newSink : Effect Nat := modifyGet fun s => (s.fresh, { s with fresh := s.fresh + 1 })

/-- Everything that was printed to a sink, in the order of time. -/
def printedOn (n : Nat) (all : List Printed) : List Printed :=
  (all.reverse.filter (·.sink == n)).mergeSort fun a b => a.time ≤ b.time

/-- What was printed to a sink, and when it is complete. -/
def contentsOf (n : Nat) : Effect (Octets × Nat) := do
  let s ← get
  let lasting := (s.held.filterMap fun (m, t) => if m == n then some t else none).foldl max s.clock
  return ((printedOn n s.printed).flatMap Printed.text, lasting)

/-! ## Variables -/

def value? (name : String) : Effect (Option Octets) := do
  let s ← get
  return (s.hidden.lookup name).or ((s.host.valueOf? name).map Octets.ofBytes)

/-- Set a variable, which programs see if they saw it before. -/
def assign (name : String) (o : Octets) : Effect Unit :=
  modify fun s =>
    if (s.host.valueOf? name).isSome then
      { s with host := s.host.setVariable name o.toBytes }
    else { s with hidden := (name, o) :: s.hidden.filter (·.1 ≠ name) }

/-- Let programs see a variable. -/
def showVariable (name : String) : Effect Unit := do
  if let some o ← value? name then
    modify fun s => { s with
      hidden := s.hidden.filter (·.1 ≠ name)
      host := s.host.setVariable name o.toBytes }

def unset (name : String) : Effect Unit :=
  modify fun s => { s with
    hidden := s.hidden.filter (·.1 ≠ name)
    functions := s.functions.filter (·.1 ≠ name)
    host := { s.host with environment := s.host.environment.filter (·.1 ≠ name) } }

/-! ## Children -/

/-- The status of commands that came to an end. -/
def statusOf (r : Except Stop Unit) (s : State) : Nat :=
  match r with
  | .error (.exit n) | .error (.back n) => n
  | _ => s.status

/-- Run commands as a child. Files, the clock and what was printed stay as the child leaves
them. -/
def fork (commands : Effect Unit) : Effect End := fun before =>
  let (r, after) := commands.run { before with jobs := [] }
  let restored := { after with
    host := { after.host with cwd := before.host.cwd, environment := before.host.environment }
    name := before.name, arguments := before.arguments, hidden := before.hidden
    functions := before.functions, handles := before.handles, line := before.line
    pid := before.pid, jobs := before.jobs }
  match r with
  | .error (.killed pid signal) =>
    if pid = after.pid && pid ≠ before.pid then (.ok (.killed signal), restored)
    else (.error (.killed pid signal), restored)
  | r => (.ok (.exited (statusOf r after)), restored)

/-- Run commands while the handles are other ones. -/
def redirected {α : Type} (commands : Effect α) : Effect α := fun before =>
  let (r, after) := commands.run before
  (r, { after with handles := before.handles })

end Effect

end StageLens.Shell
