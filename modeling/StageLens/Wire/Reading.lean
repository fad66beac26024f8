import StageLens.Decode.Mismatch
import StageLens.Json.Number
import StageLens.Json.Parser

/-!
# Reading values of a known shape

Readers go through a document in document order. They end with a value, with the first part of the
document that has the wrong shape, or with the place where the document could not be read on.
-/

namespace StageLens.Wire

open StageLens.Json (Draft Fault Break)
open StageLens.Decode (Found Shape Mismatch)

/-- Why a document gives no value. -/
inductive ReadError where
  | fault (f : Fault)
  | mismatch (m : Mismatch)
  deriving DecidableEq, Repr

abbrev Read := Except ReadError

def malformed {α : Type} : Read α := .error (.fault .malformed)

def mismatch {α : Type} (m : Mismatch) : Read α := .error (.mismatch m)

/-- Go on unless reading stopped here. -/
def checkFault : Option Fault → Read Unit
  | none => .ok ()
  | some f => .error (.fault f)

/-- Go on if the array or object ends. -/
def checkStop (stop : Option Break) : Read Unit := checkFault (stop.map Break.kept)

/-- What the value is, for a message. -/
def found : Draft → Read Found
  | .null => .ok .null
  | .boolean b => .ok (.boolean b)
  | .number n =>
    match n.value with
    | some (.integer i) => .ok (.integer i)
    | some (.float x) => .ok (.float x)
    | none => malformed
  | .text (some s) => .ok (.string s)
  | .text none => malformed
  | .array _ _ => .ok .sequence
  | .object _ _ => .ok .map
  | .broken _ b => .error (.fault b.kept)

/-- The value is not of the expected shape. -/
def wrongType {α : Type} (d : Draft) (expected : Shape) : Read α := do
  mismatch (.wrongType (← found d) expected)

def asBoolean : Draft → Read Bool
  | .boolean b => .ok b
  | d => wrongType d .boolean

def asText : Draft → Read String
  | .text (some s) => .ok s
  | d => wrongType d .text

def asInt32 (d : Draft) : Read Int32 := do
  match ← found d with
  | .integer i =>
    if Int32.minValue.toInt ≤ i ∧ i ≤ Int32.maxValue.toInt then .ok (Int32.ofInt i)
    else mismatch (.outOfRange (.integer i) (.number "i32"))
  | other => mismatch (.wrongType other (.number "i32"))

def asTexts : Draft → Read (List String)
  | .array items stop => do
    let texts ← items.mapM asText
    checkStop stop
    return texts
  | d => wrongType d .sequence

/-- Fold over the members of an object in document order. -/
def foldMembers {σ : Type} (step : σ → String → Draft → Read σ) (init : σ)
    (members : List (Option String × Draft)) (stop : Option Break) : Read σ := do
  let s ← members.foldlM (fun s m => match m.1 with
    | some key => step s key m.2
    | none => malformed) init
  checkStop stop
  return s

/-- Set a field that may be given once. -/
def once {α : Type} (name : String) (old : Option α) (new : Read α) : Read (Option α) :=
  match old with
  | some _ => mismatch (.duplicateField name)
  | none => some <$> new

/-- A field that has to be given. -/
def required {α : Type} (name : String) : Option α → Read α
  | some a => .ok a
  | none => mismatch (.missingField name)

/-- Read a whole document. -/
def document {α : Type} (reader : Draft → Read α) (text : List Char) : Read α := do
  let doc := Json.read text
  let a ← reader doc.root
  if doc.trailing then malformed else return a

end StageLens.Wire
