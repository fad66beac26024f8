import StageLens.Orchestrator.Basic

/-!
# A schedule by the clock

A schedule is one of the orders in which the moves of the orchestrator can come: whatever can be
done now is done first, call by call and stage by stage, and then the clock goes on to the next
time at which a run ends or a caller goes. Every change of the state is a move of the machine.
-/

namespace StageLens.Orchestrator

/-- The machine with a clock. Times are nanoseconds. -/
structure Schedule where
  state : State
  now : Nat := 0
  /-- When the runs in progress end. -/
  due : List (Ticket × Nat) := []
  /-- When callers go. -/
  leaving : List (Nat × Nat) := []
  /-- The greatest number of runs that were in progress at once. -/
  peak : Nat := 0

namespace Schedule

/-- The run of a stage that is in progress. -/
def runOf : Progress → Option Run
  | .compiling run | .demangling _ _ run => some run
  | _ => none

/-- The runs of a call that are in progress. -/
def runsOf : Phase → List Run
  | .running _ progress => Stage.all.filterMap fun s => runOf (progress s)
  | _ => []

/-- How many runs are in progress. -/
def active (σ : State) : Nat := (σ.calls.flatMap fun c => runsOf c.phase).length

/-- The run of a ticket that is in progress. -/
def runAt (σ : State) (t : Ticket) : Option Run :=
  (σ.calls[t.call]?).bind fun c => match c.phase with
    | .running _ progress => runOf (progress t.stage)
    | _ => none

/-- Take note of the run that a move has started for a ticket. -/
def noteStart (c : Schedule) (t : Ticket) : Schedule :=
  let due := c.due.filter (·.1 ≠ t)
  match runAt c.state t with
  | some run =>
    { c with
      due := if run.ending.isSome then (t, c.now + run.duration) :: due else due
      peak := max c.peak (active c.state) }
  | none => { c with due }

/-- Take a move if it is open. -/
def take (s : Settings) (runner : Runner) (c : Schedule) (m : Move) : Option Schedule :=
  (step s runner c.state m).map fun state =>
    let c := { c with state }
    match m with
    | .ask t | .finish t => c.noteStart t
    | .drop n | .collect n =>
      { c with
        due := c.due.filter (·.1.call ≠ n)
        leaving := c.leaving.filter (·.1 ≠ n) }
    | _ => c

/-- What a stage can do now. A waiting stage asks again once the gate has an answer for it. -/
def stageMove? (c : Schedule) (t : Ticket) (p : Progress) : Option Move :=
  match p with
  | .fresh => some (.ask t)
  | .waiting =>
    if c.state.gate.closed || c.state.gate.handed.contains t then some (.ask t) else none
  | .compiling _ | .demangling _ _ _ =>
    match c.due.lookup t with
    | some time => if time ≤ c.now then some (.finish t) else none
    | none => none
  | .done _ => none

/-- What a call can do now. -/
def callMove? (c : Schedule) (n : Nat) : Phase → Option Move
  | .running _ progress =>
    match Stage.all.findSome? fun s => stageMove? c ⟨n, s⟩ (progress s) with
    | some m => some m
    | none => if (State.results? progress).isSome then some (.collect n) else none
  | _ => none

/-- What can be done now. -/
def nextMove? (c : Schedule) : Option Move :=
  (c.state.calls.zipIdx).findSome? fun (call, n) => callMove? c n call.phase

/-- Do what can be done now, in at most so many moves. -/
def settle (s : Settings) (runner : Runner) : Nat → Schedule → Schedule
  | 0, c => c
  | fuel + 1, c =>
    match (nextMove? c).bind (take s runner c) with
    | some c => settle s runner fuel c
    | none => c

/-- The next time at which something happens. -/
def nextTime? (c : Schedule) : Option Nat := (c.due.map Prod.snd ++ c.leaving.map Prod.snd).min?

/-- Let those callers go whose time has come. -/
def letGo (s : Settings) (runner : Runner) (c : Schedule) : Schedule :=
  (c.leaving.filter (·.2 ≤ c.now)).foldl (fun c e => (take s runner c (.drop e.1)).getD c) c

/-- More moves than the calls have left: a stage asks at most twice and has two runs, and a call is
collected once. -/
def moves (c : Schedule) : Nat := 32 * c.state.calls.length

/-- Do what can be done now, go on to the next time, and so on, at most so many times. -/
def loop (s : Settings) (runner : Runner) : Nat → Schedule → Schedule
  | 0, c => c
  | fuel + 1, c =>
    let c := settle s runner (moves c) c
    match nextTime? c with
    | none => c
    | some time => loop s runner fuel (letGo s runner { c with now := max c.now time })

/-- Go on until nothing happens any more. -/
def drive (s : Settings) (runner : Runner) (c : Schedule) : Schedule :=
  loop s runner (moves c + 1) c

/-- Take new requests at once, each with the time after which its caller goes. -/
def submit (s : Settings) (runner : Runner) (c : Schedule)
    (requests : List (Request × Option Nat)) : Schedule :=
  requests.foldl (fun c (r, patience) =>
    let n := c.state.calls.length
    match take s runner c (.submit r) with
    | none => c
    | some c =>
      match patience with
      | some time => { c with leaving := c.leaving ++ [(n, c.now + time)] }
      | none => c) c

/-- Answer requests that come at once, and the phases that their calls end in. -/
def answer (s : Settings) (runner : Runner) (c : Schedule)
    (requests : List (Request × Option Nat)) : Schedule × List Phase :=
  let n := c.state.calls.length
  let c := drive s runner (c.submit s runner requests)
  (c, (c.state.calls.drop n).map Call.phase)

end Schedule

end StageLens.Orchestrator
