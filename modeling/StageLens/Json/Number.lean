import StageLens.Json.Basic
import StageLens.Number.Power

/-!
# The value of a JSON number

A number without fraction and exponent that fits 64 bits is an integer. Any other is a floating
point number: its leading digits that fit 64 bits, rounded, times or divided by a power of ten,
rounded again. A magnitude past the greatest one has no value.
-/

namespace StageLens.Json

open StageLens.Number (Binary64 Floating)

inductive NumberValue where
  | integer (i : Int)
  | float (x : Floating)
  deriving DecidableEq, Repr

def digitValue (c : Char) : Nat := c.toNat - '0'.toNat

/-- The greatest integer of 64 bits. -/
def wordMax : Nat := Number.pow2 64 - 1

/-- The value of the leading digits that fit 64 bits after `n`, and the digits that are left. -/
def leadingDigits (n : Nat) : List Char → Nat × List Char
  | [] => (n, [])
  | c :: cs =>
    let n' := n * 10 + digitValue c
    if wordMax < n' then (n, c :: cs) else leadingDigits n' cs

/-- The greatest power of ten that scales in one step. -/
def greatestPower : Nat := 308

/-- `x` times or divided by a power of ten, rounded. -/
def scaleBy (x : Binary64) (exponent : Int) : Option Binary64 := do
  let power ← Binary64.ofDecimal 1 exponent.natAbs
  if 0 ≤ exponent then x.mul power else x.div power

/-- `x * 10 ^ exponent`, where an exponent below `-308` takes several steps. Three of them reach
zero from any significand. -/
def scaleDecimal (steps : Nat) (x : Binary64) (exponent : Int) : Option Binary64 :=
  if exponent.natAbs ≤ greatestPower then scaleBy x exponent
  else if x.mantissa == 0 then some x
  else if 0 ≤ exponent then none
  else match steps with
    | 0 => some .zero
    | steps + 1 =>
      (scaleBy x (-greatestPower)).bind fun x => scaleDecimal steps x (exponent + greatestPower)

/-- The greatest exponent that is read digit by digit. -/
def exponentMax : Nat := Number.pow2 31 - 1

namespace Numeral

/-- The significand and the power of ten it is scaled by, the written exponent apart. -/
def significand (n : Numeral) : Nat × Int :=
  let (whole, beyond) := leadingDigits 0 n.whole
  let (value, left) := leadingDigits whole n.fraction
  (value, (beyond.length : Int) - ((n.fraction.length - left.length : Nat) : Int))

/-- The magnitude of a number that is not an integer of 64 bits. -/
def magnitude (n : Numeral) : Option Binary64 :=
  let (value, scale) := n.significand
  match n.exponent with
  | none => (Binary64.ofNat value).bind fun x => scaleDecimal 3 x scale
  | some (negative, digits) =>
    let e := digits.foldl (fun e c => min (exponentMax + 1) (e * 10 + digitValue c)) 0
    if exponentMax < e then
      if value == 0 || negative then some .zero else none
    else
      let e : Int := if negative then scale - e else scale + e
      (Binary64.ofNat value).bind fun x => scaleDecimal 3 x e

/-- The value of the number; none if its magnitude is past the greatest one. -/
def value (n : Numeral) : Option NumberValue :=
  let (whole, beyond) := leadingDigits 0 n.whole
  let float : Option NumberValue := n.magnitude.map fun x => .float (.finite n.negative x)
  if !beyond.isEmpty || !n.fraction.isEmpty || n.exponent.isSome then float
  else if !n.negative then some (.integer whole)
  else if 1 ≤ whole && whole ≤ Number.pow2 63 then some (.integer (-whole))
  else float

end Numeral

end StageLens.Json
