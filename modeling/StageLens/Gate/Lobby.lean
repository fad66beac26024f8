import StageLens.Gate.Basic

/-!
# A gate and those who deal with it

A lobby is a gate together with the permits and the waiters that its callers have, each under a
name. Every move of a caller is one step; `run` takes a list of moves. It makes no difference
whether a caller has the gate itself or a handle of it: there is one gate behind them all.
-/

namespace StageLens

/-- A gate, the permits that are alive and the waiters that are. -/
structure Lobby (Name : Type) where
  gate : Gate Name
  permits : List Name := []
  /-- Those that wait for an answer, the latest first. -/
  waiters : List Name := []
  deriving DecidableEq, Repr

namespace Lobby

variable {Name : Type}

/-- What a caller may do. -/
inductive Move (Name : Type) where
  /-- Start to wait, unless one of that name does, and ask once. -/
  | acquire (n : Name)
  /-- Ask again. -/
  | poll (n : Name)
  /-- Take a permit if one is free. -/
  | tryAcquire (n : Name)
  /-- Give up a permit, or else a waiter. -/
  | drop (n : Name)
  | close
  deriving DecidableEq, Repr

/-- What a caller learns. -/
inductive Reply where
  | admitted
  | pending
  | closed
  | refused
  | permitDropped
  | waiterDropped
  /-- There is no such permit or waiter. -/
  | nothing
  | done
  deriving DecidableEq, Repr

def start (gate : Gate Name) : Lobby Name := { gate }

variable [DecidableEq Name]

/-- Poll the waiter of that name. It is a waiter no longer once it has an answer. -/
def ask (l : Lobby Name) (n : Name) : Lobby Name × Reply :=
  match l.gate.poll n with
  | (g, .admitted) => (⟨g, n :: l.permits, l.waiters.erase n⟩, .admitted)
  | (g, .pending) => (⟨g, l.permits, l.waiters⟩, .pending)
  | (g, .closed) => (⟨g, l.permits, l.waiters.erase n⟩, .closed)

def step (l : Lobby Name) : Move Name → Lobby Name × Reply
  | .acquire n => { l with waiters := l.waiters.insert n }.ask n
  | .poll n => if n ∈ l.waiters then l.ask n else (l, .nothing)
  | .tryAcquire n =>
    match l.gate.tryAcquire with
    | some g => ({ l with gate := g, permits := n :: l.permits }, .admitted)
    | none => (l, .refused)
  | .drop n =>
    if n ∈ l.permits then
      ({ l with gate := l.gate.release, permits := l.permits.erase n }, .permitDropped)
    else if n ∈ l.waiters then
      ({ l with gate := l.gate.leave n, waiters := l.waiters.erase n }, .waiterDropped)
    else (l, .nothing)
  | .close => ({ l with gate := l.gate.close }, .done)

/-- Take the moves in order, with the replies. -/
def run (l : Lobby Name) : List (Move Name) → Lobby Name × List Reply
  | [] => (l, [])
  | m :: ms =>
    let (l, r) := l.step m
    let (l, rs) := l.run ms
    (l, r :: rs)

end Lobby

end StageLens
