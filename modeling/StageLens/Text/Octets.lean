import StageLens.Text.Utf8

/-!
# Octets

Bytes written as characters: each byte as the character with its code. Programs that look at text
byte by byte are stated on them.
-/

namespace StageLens

/-- A run of bytes, each as the character with its code. -/
abbrev Octets := List Char

namespace Octets

def ofBytes (bs : Bytes) : Octets := bs.map fun b => Char.ofNat b.toNat

def toBytes (o : Octets) : Bytes := o.map fun c => UInt8.ofNat c.toNat

/-- The bytes of a text. -/
def ofText (s : String) : Octets := ofBytes (Text.bytes s)

def newline : Char := '\n'

/-- The runs between separators; what follows the last one is a run too. -/
def split (separator : Char) : Octets → List Octets
  | [] => [[]]
  | c :: cs =>
    if c = separator then [] :: split separator cs
    else match split separator cs with
      | [] => [[c]]
      | part :: parts => (c :: part) :: parts

/-- The lines of a text. A line without its end counts, an empty rest does not. -/
def lines (o : Octets) : List Octets :=
  match (split newline o).reverse with
  | [] :: complete => complete.reverse
  | parts => parts.reverse

/-- Whether a text stands before another one or is the same, by their bytes. -/
def isBefore (a b : Octets) : Bool := !decide (b < a)

/-- The value of digits to a base below 11, or none if there is another character. -/
def digits? (base : Nat) : Octets → Option Nat
  | [] => none
  | cs =>
    if cs.all fun c => c.isDigit && c.toNat - 0x30 < base then
      some (cs.foldl (fun n c => n * base + (c.toNat - 0x30)) 0)
    else none

/-- The value of decimal digits with or without a minus sign. -/
def integer? : Octets → Option Int
  | '-' :: cs => (digits? 10 cs).map fun n => -n
  | cs => (digits? 10 cs).map Int.ofNat

/-- Whether a set of characters, in which ranges are written with a dash, has this one. -/
def inRanges (c : Char) : Octets → Bool
  | a :: '-' :: b :: rest => (a ≤ c && c ≤ b) || inRanges c rest
  | a :: rest => a == c || inRanges c rest
  | [] => false

end Octets

end StageLens
