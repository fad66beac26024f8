import StageLens.Number.Power

/-!
# The admission gate

A gate admits a bounded number of holders at once. Whoever finds no free permit waits in a queue,
and a permit that comes back goes to the oldest waiter at once: it is `handed` from then on, neither
free nor held, until that waiter is polled. A closed gate admits nobody; permits already held stay
held.

The number of holders is counted apart from the permits: admission counts one up, release counts
one down.
-/

namespace StageLens

/-- A gate whose waiters are named by tickets. -/
structure Gate (Ticket : Type) where
  capacity : Nat
  /-- Permits that nobody has. -/
  available : Nat
  /-- Waiters without a permit, the oldest first. -/
  queue : List Ticket := []
  /-- Waiters that were handed a permit and have not been polled since, in the order of handing. -/
  handed : List Ticket := []
  /-- How many permits are held. -/
  inFlight : Nat := 0
  closed : Bool := false
  deriving DecidableEq, Repr

/-- The answer to a waiter that is polled. -/
inductive Admission where
  | admitted
  | pending
  | closed
  deriving DecidableEq, Repr

namespace Gate

variable {Ticket : Type}

/-- The greatest number of permits a gate can have. -/
def greatestCapacity : Nat := Number.pow2 61 - 1

/-- A gate that is open and has all its permits. -/
def fresh (capacity : Nat) : Gate Ticket := { capacity, available := capacity }

/-- A gate of the given capacity, if there can be one. -/
def ofCapacity? (capacity : Nat) : Option (Gate Ticket) :=
  if capacity ≤ greatestCapacity then some (fresh capacity) else none

/-- What is said to those who are not admitted. -/
def closedMessage : String := "admission gate closed, the service is shutting down"

/-- Give a permit to the oldest waiter, or make it free. -/
def giveBack (g : Gate Ticket) : Gate Ticket :=
  match g.queue with
  | [] => { g with available := g.available + 1 }
  | t :: rest => { g with queue := rest, handed := g.handed ++ [t] }

/-- A permit that was held comes back. -/
def release (g : Gate Ticket) : Gate Ticket := { g with inFlight := g.inFlight - 1 }.giveBack

/-- Admit nobody from now on. Waiters leave the queue; each learns of it when it is polled. -/
def close (g : Gate Ticket) : Gate Ticket := { g with queue := [], closed := true }

/-- Take a permit only if one is free. -/
def tryAcquire (g : Gate Ticket) : Option (Gate Ticket) :=
  if g.closed then none
  else match g.available with
    | 0 => none
    | n + 1 => some { g with available := n, inFlight := g.inFlight + 1 }

variable [DecidableEq Ticket]

/-- A waiter goes away. A permit that it was handed is given back. -/
def leave (g : Gate Ticket) (t : Ticket) : Gate Ticket :=
  if t ∈ g.handed then { g with handed := g.handed.erase t }.giveBack
  else { g with queue := g.queue.erase t }

/-- Ask for admission: the first time, or again as a waiter. -/
def poll (g : Gate Ticket) (t : Ticket) : Gate Ticket × Admission :=
  if g.closed then (g.leave t, .closed)
  else if t ∈ g.handed then
    ({ g with handed := g.handed.erase t, inFlight := g.inFlight + 1 }, .admitted)
  else if t ∈ g.queue then (g, .pending)
  else match g.available with
    | 0 => ({ g with queue := g.queue ++ [t] }, .pending)
    | n + 1 => ({ g with available := n, inFlight := g.inFlight + 1 }, .admitted)

end Gate

end StageLens
