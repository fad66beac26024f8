import StageLens.Number.Binary64

/-!
# The shortest digits of a magnitude

`shortest tie x` is the decimal with the fewest digits among those that round to `x`, and the one
nearest to `x` among these; `tie` picks between two that are equally near.
-/

namespace StageLens.Number

/-- A decimal: the value of `digits` read as a natural number, times `10 ^ exponent`. -/
structure Decimal where
  digits : List Char
  exponent : Int
  deriving DecidableEq, Repr

/-- Which of two decimals that are equally near is taken. -/
inductive Tie where
  /-- The one whose last digit is even. -/
  | even
  /-- The greater one. -/
  | up
  deriving DecidableEq, Repr

/-- The sides of a comparison of `c * 10 ^ p` with `x * 2 ^ q`, both made whole. -/
def sides (c : Nat) (p : Int) (x : Nat) (q : Int) : Nat × Nat :=
  (c * pow10 p.toNat * pow2 (-q).toNat, x * pow2 q.toNat * pow10 (-p).toNat)

/-- The values that round to a magnitude, as quarter steps of its exponent: the least and the
greatest, and whether these two belong to them. -/
def rounding (x : Binary64) : Nat × Nat × Bool :=
  -- Below a power of two the numbers lie twice as dense.
  let below := if x.mantissa == pow2 52 && x.exponent != -1074 then 1 else 2
  (4 * x.mantissa - below, 4 * x.mantissa + 2, x.mantissa % 2 == 0)

/-- Whether `c * 10 ^ p` rounds to the magnitude. -/
def roundsTo (x : Binary64) (c : Nat) (p : Int) : Bool :=
  let (low, high, closed) := rounding x
  let q := x.exponent - 2
  let (a, l) := sides c p low q
  let (b, h) := sides c p high q
  if closed then l ≤ a && b ≤ h else l < a && b < h

/-- Twice the distance of `c * 10 ^ p` from the magnitude is less than one step of `10 ^ p`: of two
neighbours on that grid, the lower one is the nearer. -/
def isNearer (x : Binary64) (c : Nat) (p : Int) : Ordering :=
  let (a, b) := sides (2 * c + 1) p (2 * x.mantissa) x.exponent
  compare b a

/-- The whole part of the magnitude divided by `10 ^ p`. -/
def wholePart (x : Binary64) (p : Int) : Nat :=
  let (num, den) := x.ratio
  if 0 ≤ p then num / (den * pow10 p.toNat) else num * pow10 (-p).toNat / den

/-- The neighbour of the magnitude on the grid of `10 ^ p` that rounds to it; of two, the nearer,
and of two as near, the one that `tie` names. -/
def onGrid? (tie : Tie) (x : Binary64) (p : Int) : Option Nat :=
  let c := wholePart x p
  match roundsTo x c p, roundsTo x (c + 1) p with
  | false, false => none
  | true, false => some c
  | false, true => some (c + 1)
  | true, true =>
    match isNearer x c p with
    | .lt => some c
    | .gt => some (c + 1)
    | .eq => if tie == .even && c % 2 == 0 then some c else some (c + 1)

/-- The number of digits before the decimal point; at most zero for a fraction. -/
def leadingPlace (x : Binary64) : Int :=
  let (num, den) := x.ratio
  if den ≤ num then (Nat.toDigits 10 (num / den)).length
  else
    -- The first grid below one that shows a digit.
    let zeros : Nat := ((List.range 400).find? (fun k => den ≤ num * pow10 (k + 1))).getD 400
    Int.negOfNat zeros

/-- The decimal of `c * 10 ^ p` without zeros at its end. -/
def Decimal.of (c : Nat) (p : Int) : Decimal :=
  let ds := (Nat.toDigits 10 c).reverse
  let kept := ds.dropWhile (· == '0')
  ⟨kept.reverse, p + (ds.length - kept.length : Nat)⟩

/-- The shortest decimal that rounds to a magnitude which is not zero. -/
def shortest (tie : Tie) (x : Binary64) : Decimal :=
  let top := leadingPlace x
  let hit := (List.range 17).findSome? fun n =>
    let p := top - (n + 1 : Nat)
    (onGrid? tie x p).bind fun c => if c == 0 then none else some (Decimal.of c p)
  hit.getD ⟨['0'], 0⟩

end StageLens.Number
