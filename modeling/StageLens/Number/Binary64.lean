import StageLens.Number.Power

/-!
# Binary floating point numbers

A magnitude of the 64-bit binary format is `mantissa * 2 ^ exponent` with a mantissa below `2 ^ 53`
and an exponent between `-1074` and `971`. `nearest` rounds a quotient of natural numbers to the
nearest such magnitude, a tie to the even mantissa; every other operation is an exact quotient
rounded by it.
-/

namespace StageLens.Number

/-- A finite magnitude. -/
structure Binary64 where
  mantissa : Nat
  exponent : Int
  deriving DecidableEq, Repr

namespace Binary64

def zero : Binary64 := ⟨0, -1074⟩

/-- The quotient rounded to the nearest natural number, a tie to the even one. -/
def roundDiv (num den : Nat) : Nat :=
  let q := num / den
  let r := num % den
  if 2 * r < den then q
  else if den < 2 * r then q + 1
  else if q % 2 == 0 then q else q + 1

/-- `num / (den * 2 ^ e)` as a numerator and a denominator. -/
def scale (num den : Nat) (e : Int) : Nat × Nat :=
  if 0 ≤ e then (num, den * pow2 e.toNat) else (num * pow2 (-e).toNat, den)

/-- The magnitude nearest to `num / den`; none when it is past the greatest one. -/
def nearest (num den : Nat) : Option Binary64 :=
  if num == 0 then some zero
  else
    -- With this exponent the quotient lies between `2 ^ 52` and `2 ^ 54`.
    let e₀ : Int := (Nat.log2 num : Int) - Nat.log2 den - 53
    let (n, d) := scale num den e₀
    let e := max (-1074) (if n / d < pow2 53 then e₀ else e₀ + 1)
    let (n, d) := scale num den e
    let m := roundDiv n d
    let (m, e) := if m == pow2 53 then (pow2 52, e + 1) else (m, e)
    if 971 < e then none else some ⟨m, e⟩

/-- The value as an exact quotient. -/
def ratio (x : Binary64) : Nat × Nat :=
  if 0 ≤ x.exponent then (x.mantissa * pow2 x.exponent.toNat, 1)
  else (x.mantissa, pow2 (-x.exponent).toNat)

def ofNat (n : Nat) : Option Binary64 := nearest n 1

def add (x y : Binary64) : Option Binary64 :=
  let (a, b) := x.ratio
  let (c, d) := y.ratio
  nearest (a * d + c * b) (b * d)

def mul (x y : Binary64) : Option Binary64 :=
  let (a, b) := x.ratio
  let (c, d) := y.ratio
  nearest (a * c) (b * d)

/-- The quotient of two magnitudes, the second not zero. -/
def div (x y : Binary64) : Option Binary64 :=
  let (a, b) := x.ratio
  let (c, d) := y.ratio
  nearest (a * d) (b * c)

/-- The magnitude nearest to `digits * 10 ^ exponent`. Past these exponents the answer is zero or
none whatever the exponent is, so no greater power is taken. -/
def ofDecimal (digits : Nat) (exponent : Int) : Option Binary64 :=
  if digits == 0 then some zero
  else
    let width : Int := (Nat.toDigits 10 digits).length
    if 400 < width + exponent then none
    else if width + exponent < -400 then some zero
    else if 0 ≤ exponent then nearest (digits * pow10 exponent.toNat) 1
    else nearest digits (pow10 (-exponent).toNat)

end Binary64

/-- A floating point value as a document can hold one. -/
inductive Floating where
  | finite (negative : Bool) (magnitude : Binary64)
  | infinite (negative : Bool)
  | notANumber
  deriving DecidableEq, Repr

end StageLens.Number
