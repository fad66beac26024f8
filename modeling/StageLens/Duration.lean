import StageLens.Number.Notation
import StageLens.Number.Power

/-!
# Lengths of time

A length of time is whole seconds and nanoseconds. A message shows it as the floating point number
of its seconds.
-/

namespace StageLens

/-- A length of time, with fewer than a billion nanoseconds. -/
structure Duration where
  seconds : Nat
  nanos : Nat
  deriving DecidableEq, Repr

namespace Duration

def nanosPerSecond : Nat := 1000000000

def ofSeconds (s : Nat) : Duration := ⟨s, 0⟩

def toNanos (d : Duration) : Nat := d.seconds * nanosPerSecond + d.nanos

/-- The whole milliseconds, as a number of 64 bits. -/
def toMillis (d : Duration) : Nat := (d.toNanos / 1000000) % Number.pow2 64

/-- The seconds as a floating point number: the whole seconds and the fraction are rounded, then
their sum. -/
def toBinary64 (d : Duration) : Number.Binary64 :=
  let whole := Number.Binary64.nearest d.seconds 1
  let part := Number.Binary64.nearest d.nanos nanosPerSecond
  match whole, part with
  | some w, some p => (w.add p).getD .zero
  | _, _ => .zero

/-- The seconds as a message shows them. -/
def secondsText (d : Duration) : String :=
  String.ofList (Number.write Number.seconds d.toBinary64)

end Duration

end StageLens
