import StageLens.Gate.Basic
import StageLens.Orchestrator.Settings
import StageLens.Request
import StageLens.Stage.Response
import StageLens.Workspace

/-!
# The orchestrator

The orchestrator answers requests. A request that is valid gets a workspace, and every stage runs
the compiler there once it holds a permit of the gate; the permit is given back as soon as the
compiler ends, before the demangler runs. When all stages have a result the workspace goes and the
response is complete.

The orchestrator is a machine whose moves can come in any order: `step` says which moves are open in
a state and where each leads. **A move** starts a call, lets one stage ask at the gate, ends one run,
collects a response or drops a call; the gate can be closed at any time, and others may hold permits
of it. Nothing here knows of time: `Orchestrator.Schedule` picks the moves by a clock.
-/

namespace StageLens.Orchestrator

/-- Why a request gets no response. -/
inductive Refusal where
  | invalid (e : Invalid)
  | workspace (f : Workspace.Failure)
  deriving DecidableEq, Repr

namespace Refusal

def message : Refusal → String
  | invalid e => e.message
  | workspace f => "failed to prepare scratch workspace: " ++ f.message

/-- Whether the request is to blame. -/
def isClientError : Refusal → Bool
  | invalid _ => true
  | workspace _ => false

end Refusal

/-- How far a stage has come. -/
inductive Progress where
  | fresh
  /-- Has asked at the gate and waits. -/
  | waiting
  /-- Holds a permit and runs the compiler. -/
  | compiling (run : Run)
  /-- The compiler ended with an exit code and a text, which the demangler is filtering. -/
  | demangling (exitCode : Int32) (raw : String) (run : Run)
  | done (r : StageResult)

/-- How far a call has come. -/
inductive Phase where
  | running (w : Workspace) (progress : Stage → Progress)
  | returned (answer : Except Refusal Response)
  /-- Its caller has gone. -/
  | dropped

structure Call where
  request : Request
  phase : Phase

/-- One stage of one call. -/
structure Ticket where
  call : Nat
  stage : Stage
  deriving DecidableEq, Repr

/-- What an invocation is for. -/
inductive Purpose where
  | compile
  | demangle
  deriving DecidableEq, Repr

/-- An invocation that has been started. -/
structure Start where
  ticket : Ticket
  purpose : Purpose
  invocation : Invocation
  deriving DecidableEq, Repr

structure State where
  gate : Gate Ticket
  /-- The permits that others hold. -/
  held : Nat := 0
  calls : List Call := []
  host : Host
  /-- All that has been started, the latest first. -/
  started : List Start := []
  /-- All that has been reported, the latest first. -/
  journal : List Event := []

/-- What can happen next. -/
inductive Move where
  | submit (r : Request)
  /-- A stage asks at the gate. -/
  | ask (t : Ticket)
  /-- The run of a stage ends. -/
  | finish (t : Ticket)
  /-- The response of a call is complete. -/
  | collect (call : Nat)
  /-- The caller goes. -/
  | drop (call : Nat)
  /-- Someone else takes a permit if one is free. -/
  | hold
  /-- Someone else gives a permit back. -/
  | release
  | close
  deriving DecidableEq, Repr

namespace State

/-- The state before the first request, if there can be a gate of that capacity. -/
def start? (s : Settings) (h : Host) : Option State :=
  (Gate.ofCapacity? s.capacity).map fun gate => { gate, host := h, journal := s.report }

def report (σ : State) (es : List Event) : State := { σ with journal := es.reverse ++ σ.journal }

/-- A new call. -/
def enroll (σ : State) (r : Request) (p : Phase) : State := { σ with calls := σ.calls ++ [⟨r, p⟩] }

def setPhase (σ : State) (n : Nat) (c : Call) (p : Phase) : State :=
  { σ with calls := σ.calls.set n { c with phase := p } }

/-- The progress of a call with one stage moved on. -/
def advance (progress : Stage → Progress) (s : Stage) (p : Progress) : Stage → Progress :=
  fun t => if t = s then p else progress t

def setProgress (σ : State) (t : Ticket) (c : Call) (w : Workspace) (progress : Stage → Progress)
    (p : Progress) : State :=
  σ.setPhase t.call c (.running w (advance progress t.stage p))

/-- The results of a call whose stages are all done, in the order of the catalog. -/
def results? (progress : Stage → Progress) : Option (List (Stage × StageResult)) :=
  Stage.all.mapM fun s => match progress s with
    | .done r => some (s, r)
    | _ => none

end State

section Step

variable (s : Settings) (runner : Runner)

/-- The compiler run of a stage. -/
def compilation (r : Request) (stage : Stage) (w : Workspace) : Invocation :=
  { program := s.toolchain.compiler, arguments := stage.arguments r.options s.toolchain,
    directory := some w.path, timeout := s.stageTimeout }

/-- The result of a stage that the closed gate turned away. -/
def rejection (r : Request) (stage : Stage) : StageResult :=
  .failed stage.label (stage.command r.options s.toolchain) .rejected Gate.closedMessage

/-- The result of a stage whose compiler gave no exit status. -/
def breakdown (r : Request) (stage : Stage) (f : Failure) : StageResult :=
  f.result stage.label (stage.command r.options s.toolchain)

/-- The result of a stage whose compiler ran to its end. -/
def completion (r : Request) (stage : Stage) (exitCode : Int32) (output : String) : StageResult :=
  ⟨stage.label, stage.command r.options s.toolchain, exitCode, output⟩

/-- Take a new call: the request is checked and gets its workspace. -/
def submit (σ : State) (r : Request) : State :=
  match r.invalid? s.sourceLimit with
  | some e => (σ.enroll r (.returned (.error (.invalid e)))).report [.requestRejected]
  | none =>
    match Workspace.create σ.host s.scratchRoot r.source with
    | (.error f, h) =>
      ({ σ with host := h }.enroll r (.returned (.error (.workspace f)))).report [.workspaceFailed]
    | (.ok w, h) =>
      ({ σ with host := h }.enroll r (.running w fun _ => .fresh)).report [.workspaceReady]

/-- Run an invocation for a stage. -/
def launch (σ : State) (t : Ticket) (purpose : Purpose) (i : Invocation) : State × Run :=
  let run := runner i σ.host
  ({ σ with host := run.host, started := ⟨t, purpose, i⟩ :: σ.started }.report run.opening, run)

/-- A stage that has no permit yet asks at the gate, and starts the compiler if it is admitted. -/
def ask (σ : State) (t : Ticket) (c : Call) (w : Workspace) (progress : Stage → Progress) :
    State :=
  let (gate, answer) := σ.gate.poll t
  let σ := { σ with gate }
  match answer with
  | .pending => σ.setProgress t c w progress .waiting
  | .closed =>
    (σ.setProgress t c w progress (.done (rejection s c.request t.stage))).report
      [.gateClosed t.stage]
  | .admitted =>
    let (σ, run) := launch runner (σ.report [.stageStarted t.stage]) t .compile
      (compilation s c.request t.stage w)
    σ.setProgress t c w progress (.compiling run)

/-- The compiler of a stage ends. -/
def finishCompiler (σ : State) (t : Ticket) (c : Call) (w : Workspace)
    (progress : Stage → Progress) (run : Run) (e : Ending) : State :=
  let σ := { σ with gate := σ.gate.release }.report run.closing
  match e with
  | .error f =>
    (σ.setProgress t c w progress (.done (breakdown s c.request t.stage f))).report
      [.stageBroken t.stage]
  | .ok o =>
    let σ := σ.report [.stageFinished t.stage o.exitCode]
    let raw := o.combined
    if Demangler.isWanted t.stage.mayMangle c.request.options.demangle raw then
      let (σ, run) := launch runner σ t .demangle (s.demangler.invocation raw)
      σ.setProgress t c w progress (.demangling o.exitCode raw run)
    else σ.setProgress t c w progress (.done (completion s c.request t.stage o.exitCode raw))

/-- The demangler of a stage ends. -/
def finishDemangler (σ : State) (t : Ticket) (c : Call) (w : Workspace)
    (progress : Stage → Progress) (exitCode : Int32) (raw : String) (run : Run) (e : Ending) :
    State :=
  (σ.setProgress t c w progress
    (.done (completion s c.request t.stage exitCode (Demangler.keep raw e)))).report
    (run.closing ++ Demangler.report e)

/-- All stages are done: the workspace goes and the response is there. -/
def collect (σ : State) (n : Nat) (c : Call) (w : Workspace)
    (results : List (Stage × StageResult)) : State :=
  let response := Response.ofList results
  let cleanup : List Event := if w.isThere σ.host then [] else [.cleanupFailed]
  ({ σ with host := w.dispose σ.host }.setPhase n c (.returned (.ok response))).report
    (cleanup ++ [Event.requestCompleted response.size])

/-- What a stage had of the gate goes back to it. -/
def abandon (gate : Gate Ticket) (t : Ticket) : Progress → Gate Ticket
  | .waiting => gate.leave t
  | .compiling _ => gate.release
  | _ => gate

/-- The caller goes: all that runs for it is stopped, and then the workspace goes. -/
def drop (σ : State) (n : Nat) (c : Call) (w : Workspace) (progress : Stage → Progress) : State :=
  let gate := Stage.all.foldl (fun gate stage => abandon gate ⟨n, stage⟩ (progress stage)) σ.gate
  { σ with gate, host := w.dispose σ.host }.setPhase n c .dropped

/-- Where a move leads, if it is open. -/
def step (σ : State) : Move → Option State
  | .submit r => some (submit s σ r)
  | .ask t =>
    match σ.calls[t.call]? with
    | some c =>
      match c.phase with
      | .running w progress =>
        match progress t.stage with
        | .fresh | .waiting => some (ask s runner σ t c w progress)
        | _ => none
      | _ => none
    | none => none
  | .finish t =>
    match σ.calls[t.call]? with
    | some c =>
      match c.phase with
      | .running w progress =>
        match progress t.stage with
        | .compiling run => run.ending.map (finishCompiler s runner σ t c w progress run)
        | .demangling code raw run =>
          run.ending.map (finishDemangler s σ t c w progress code raw run)
        | _ => none
      | _ => none
    | none => none
  | .collect n =>
    match σ.calls[n]? with
    | some c =>
      match c.phase with
      | .running w progress => (State.results? progress).map (collect σ n c w)
      | _ => none
    | none => none
  | .drop n =>
    match σ.calls[n]? with
    | some c =>
      match c.phase with
      | .running w progress => some (drop σ n c w progress)
      | _ => none
    | none => none
  | .hold => (σ.gate.tryAcquire).map fun gate => { σ with gate, held := σ.held + 1 }
  | .release =>
    if 0 < σ.held then some { σ with gate := σ.gate.release, held := σ.held - 1 } else none
  | .close => some { σ with gate := σ.gate.close }

/-- The states that moves lead to from a first state. -/
inductive Reachable (first : State) : State → Prop
  | refl : Reachable first first
  | step {σ τ : State} {m : Move} : Reachable first σ → step s runner σ m = some τ →
      Reachable first τ

end Step

end StageLens.Orchestrator
