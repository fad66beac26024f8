import StageLens.Number.Shortest

/-!
# How floating point numbers are written

One record holds the decisions of a written form: when it is positional, what a whole number shows
after its digits, and which of two equally near decimals is taken. The three forms in use are `inMessage`, for numbers of a JSON document,
`plain`, for numbers of a TOML document, and `seconds`, for lengths of time.
-/

namespace StageLens.Number

/-- The decisions of a written form. -/
structure Style where
  /-- Whether a number whose decimal point stands after this many leading digits is written
  without an exponent. -/
  positional : Int → Bool
  /-- What a whole number shows after its digits. -/
  wholeEnding : List Char
  tie : Tie

/-- Positional from `0.00001` up to `10 ^ 16`, and with a fraction. -/
def inMessage : Style := ⟨fun point => -5 < point && point ≤ 16, ['.', '0'], .even⟩

/-- Always positional, and with a fraction. -/
def plain : Style := ⟨fun _ => true, ['.', '0'], .up⟩

/-- Always positional; a whole number shows no fraction. -/
def seconds : Style := ⟨fun _ => true, [], .up⟩

/-- The digits with the decimal point after `point` of them. -/
def writePositional (style : Style) (digits : List Char) (point : Int) : List Char :=
  let n : Int := digits.length
  if n ≤ point then digits ++ List.replicate (point - n).toNat '0' ++ style.wholeEnding
  else if 0 < point then digits.take point.toNat ++ '.' :: digits.drop point.toNat
  else ['0', '.'] ++ List.replicate (-point).toNat '0' ++ digits

/-- One digit, the other digits as a fraction, and the exponent with its sign. -/
def writeExponent (digits : List Char) (point : Int) : List Char :=
  let e := point - 1
  let head := match digits with
    | d :: [] => [d]
    | d :: ds => d :: '.' :: ds
    | [] => []
  head ++ ['e', if e < 0 then '-' else '+'] ++ Nat.toDigits 10 e.natAbs

/-- A magnitude in the given form. -/
def write (style : Style) (x : Binary64) : List Char :=
  if x.mantissa == 0 then '0' :: style.wholeEnding
  else
    let d := shortest style.tie x
    let point : Int := d.digits.length + d.exponent
    if style.positional point then writePositional style d.digits point
    else writeExponent d.digits point

/-- A value in the given form. -/
def Floating.write (style : Style) : Floating → String
  | .finite negative x => String.ofList ((if negative then ['-'] else []) ++ Number.write style x)
  | .infinite negative => if negative then "-inf" else "inf"
  | .notANumber => "NaN"

end StageLens.Number
