import StageLens.Json.Basic

/-!
# Values that are handed to a writer

A `Datum` is a value as its type describes it: with lists, with records whose fields have fixed
names, and with maps from any values to any. The objects of JSON have texts for names, so that a map
with other keys cannot be written. `Datum.json?` is the document of a value, or why it has none.
-/

namespace StageLens.Json

/-- Why a value cannot be written. -/
inductive WriteFault where
  /-- A map has a key that no text stands for. -/
  | keyNotText
  deriving DecidableEq, Repr

def WriteFault.message : WriteFault → String
  | keyNotText => "key must be a string"

inductive Datum where
  | integer (i : Int)
  | text (s : String)
  /-- One of the names of a fixed list. -/
  | variant (name : String)
  | sequence (items : List Datum)
  | record (fields : List (String × Datum))
  | map (entries : List (Datum × Datum))

/-- The name in an object that stands for a key. -/
def Datum.keyText? : Datum → Except WriteFault String
  | .integer i => .ok (toString i)
  | .text s | .variant s => .ok s
  | .sequence _ | .record _ | .map _ => .error .keyNotText

mutual

/-- The document of a value. -/
def Datum.json? : Datum → Except WriteFault Json
  | .integer i => .ok (.integer i)
  | .text s | .variant s => .ok (.text s)
  | .sequence items => (itemsJson? items).map .array
  | .record fields => (fieldsJson? fields).map .object
  | .map entries => (entriesJson? entries).map .object

def itemsJson? : List Datum → Except WriteFault (List Json)
  | [] => .ok []
  | d :: ds => do return (← d.json?) :: (← itemsJson? ds)

def fieldsJson? : List (String × Datum) → Except WriteFault (List (String × Json))
  | [] => .ok []
  | (name, d) :: fields => do return (name, ← d.json?) :: (← fieldsJson? fields)

def entriesJson? : List (Datum × Datum) → Except WriteFault (List (String × Json))
  | [] => .ok []
  | (key, d) :: entries => do return (← key.keyText?, ← d.json?) :: (← entriesJson? entries)

end

end StageLens.Json
