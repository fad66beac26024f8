import StageLens.Number.Notation
import StageLens.Text.Escaped

/-!
# Documents of the wrong shape

A well-formed document may still not be what was asked for. `Mismatch` lists the ways, and
`Mismatch.message` words them; the written form of floating point numbers is a parameter, because
it depends on the document format.
-/

namespace StageLens.Decode

open StageLens.Number (Floating Style)

/-- What a document holds where something else was expected. -/
inductive Found where
  | boolean (b : Bool)
  | integer (i : Int)
  | float (x : Floating)
  | string (s : String)
  | null
  | sequence
  | map
  deriving DecidableEq, Repr

/-- What was expected. -/
inductive Shape where
  | boolean
  | text
  | path
  | sequence
  | map
  | unit
  | variant
  | number (name : String)
  | record (name : String)
  deriving DecidableEq, Repr

/-- The ways in which a well-formed document is not what was asked for. -/
inductive Mismatch where
  | missingField (name : String)
  | duplicateField (name : String)
  | unknownVariant (found : String) (known : List String)
  | wrongType (found : Found) (expected : Shape)
  | outOfRange (found : Found) (expected : Shape)
  | wrongLength (length : Nat) (record : String) (fields : Nat)
  deriving DecidableEq, Repr

/-- A name between the marks that set off names in a message. -/
def marked (name : String) : String := String.singleton (Char.ofNat 0x60) ++ name ++ String.singleton (Char.ofNat 0x60)

def Found.describe (style : Style) : Found → String
  | .boolean b => "boolean " ++ marked (if b then "true" else "false")
  | .integer i => "integer " ++ marked (toString i)
  | .float x => "floating point " ++ marked (x.write style)
  | .string s => "string " ++ Text.escaped s
  | .null => "null"
  | .sequence => "sequence"
  | .map => "map"

def Shape.describe : Shape → String
  | .boolean => "a boolean"
  | .text => "a string"
  | .path => "path string"
  | .sequence => "a sequence"
  | .map => "a map"
  | .unit => "unit"
  | .variant => "variant identifier"
  | .number name => name
  | .record name => "struct " ++ name

def Mismatch.message (style : Style) : Mismatch → String
  | .missingField name => "missing field " ++ marked name
  | .duplicateField name => "duplicate field " ++ marked name
  | .unknownVariant found known =>
    "unknown variant " ++ marked found ++ ", expected one of " ++
      ", ".intercalate (known.map marked)
  | .wrongType found expected =>
    "invalid type: " ++ found.describe style ++ ", expected " ++ expected.describe
  | .outOfRange found expected =>
    "invalid value: " ++ found.describe style ++ ", expected " ++ expected.describe
  | .wrongLength length record fields =>
    "invalid length " ++ toString length ++ ", expected struct " ++ record ++ " with " ++
      toString fields ++ (if fields == 1 then " element" else " elements")

end StageLens.Decode
