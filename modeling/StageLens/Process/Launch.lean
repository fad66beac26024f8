import StageLens.Process.Runner
import StageLens.Shell.Evaluator

/-!
# Launched processes

The runner that launches a process of the host for each invocation, in a group of its own. A process
that prints more than the limit on one of its streams is killed with its group, and so is one that
has not ended, or whose streams are still open, when its time is over.
-/

namespace StageLens

namespace Launch

def holdsNul (bs : Bytes) : Bool := bs.contains 0

/-- The host as a process finds it that runs in a directory. -/
def entered (h : Host) : Option Bytes → Except HostError Host
  | none => .ok h
  | some d => do
    match ← h.find d with
    | .there place .directory =>
      return { h with cwd := place }.setVariable Host.temporaryVariable d
    | .there _ _ => throw .notDirectory
    | .missing _ _ => throw .notFound

/-- What is launched for an invocation, and the host as it finds it. -/
def prepare (i : Invocation) (h : Host) : Except HostError (Host.Image × Host) := do
  if holdsNul i.program || i.arguments.any (fun a => holdsNul (Text.bytes a)) ||
      i.directory.any holdsNul then throw .nulByte
  let h ← entered h i.directory
  return (← h.imageOf i.program (i.arguments.map Octets.ofText), h)

/-! ## Streams -/

/-- What a stream has printed by a time. -/
def streamAt (t : Shell.Trace) (sink : Nat) (time : Nat) : Bytes :=
  let earlier := (Shell.Effect.printedOn sink t.printed).filter (·.time ≤ time)
  Octets.toBytes (earlier.flatMap Shell.Printed.text)

/-- When more than `limit` bytes have been printed. -/
def overflowAt? (limit : Nat) : List Shell.Printed → Option Nat
  | [] => none
  | p :: rest =>
    if limit < p.text.length then some p.time
    else overflowAt? (limit - p.text.length) rest

def overflow? (t : Shell.Trace) (limit sink : Nat) : Option Nat :=
  overflowAt? limit (Shell.Effect.printedOn sink t.printed)

/-- When the process has ended and both its streams are closed. -/
def closedAt (t : Shell.Trace) : Nat :=
  (t.held.filterMap fun (sink, time) => if sink ≤ 2 then some time else none).foldl max t.ended

/-- The status of a process that was killed. -/
def killedStatus : Nat := 137

/-- When everything is over, unless time runs out before, and with which status. -/
def conclusion (t : Shell.Trace) (limit : Nat) : Nat × Nat :=
  match [1, 2].filterMap (overflow? t limit) with
  | [] => (closedAt t, t.status)
  | times =>
    let first := times.foldl min (closedAt t)
    if first < t.ended then (first, killedStatus) else (first, t.status)

end Launch

open Launch

/-- The runner that launches processes and reads at most `limit` bytes of a stream. -/
def Runner.launching (limit : Nat) : Runner := fun i h =>
  match prepare i h with
  | .error e => { ending := some (.error (.launch i.program e)), host := h }
  | .ok (image, inside) =>
    let t := Shell.run image (i.input.map Octets.ofBytes) inside
    let host := { t.host with cwd := h.cwd, environment := h.environment }
    let (finished, status) := conclusion t limit
    let capped (time : Nat) : List Event := [1, 2].filterMap fun sink =>
      if limit < (streamAt t sink time).length then some (.outputCapped limit) else none
    if i.timeout.toNanos < finished then
      { ending := some (.error (.timedOut i.program i.timeout)), duration := i.timeout.toNanos, host
        opening := [.spawned]
        closing := capped i.timeout.toNanos ++ [.processTimedOut i.timeout.toMillis] }
    else
      let read (sink : Nat) : Bytes := Output.bounded limit (streamAt t sink finished)
      let code := Int32.ofNat status
      { ending := some (.ok (Output.capture code (read 1) (read 2) limit)), duration := finished, host
        opening := [.spawned], closing := capped finished ++ [.processExited code] }

end StageLens
