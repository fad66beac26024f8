import StageLens.Number.Binary64

/-!
# JSON documents

`Json` is a value to be written. `Draft` is a document as far as it could be read: a reader that
wants a certain shape goes through it in document order and meets either a value of the wrong shape
or the place where reading stopped, whichever comes first.

Reading stops differently for a value that is kept and for one that is passed over: half a
surrogate pair in a text spoils only a text that is kept, and a number that ends with the input is
cut short when kept but malformed when passed over. `Break` holds both.
-/

namespace StageLens

/-- A value to be written. -/
inductive Json where
  | null
  | boolean (b : Bool)
  | integer (i : Int)
  | text (s : String)
  | array (items : List Json)
  | object (members : List (String × Json))

end StageLens

namespace StageLens.Json

open StageLens.Number (Binary64 Floating)

/-- Why a document cannot be read on. -/
inductive Fault where
  /-- The input is not JSON. -/
  | malformed
  /-- The input ended early. -/
  | ended
  deriving DecidableEq, Repr

/-- The place where reading stopped. -/
structure Break where
  /-- The fault for a reader that keeps the value. -/
  kept : Fault
  /-- The fault for a reader that passes over the value. -/
  passed : Fault
  /-- Whether a comma stands before the place. -/
  afterComma : Bool := false
  deriving DecidableEq, Repr

/-- The same fault for every reader. -/
def Break.of (f : Fault) : Break := ⟨f, f, false⟩

/-- What had begun at the place where reading stopped. -/
inductive Begun where
  | nothing
  | text
  | other
  deriving DecidableEq, Repr

/-- A number as written: sign, whole digits, digits after the point, and the exponent's sign and
digits. -/
structure Numeral where
  negative : Bool
  whole : List Char
  fraction : List Char
  exponent : Option (Bool × List Char)
  deriving DecidableEq, Repr

/-- A document as far as it could be read. A text is none if it holds half a surrogate pair. -/
inductive Draft where
  | null
  | boolean (b : Bool)
  | number (n : Numeral)
  | text (s : Option String)
  | array (items : List Draft) (stop : Option Break)
  | object (members : List (Option String × Draft)) (stop : Option Break)
  | broken (begun : Begun) (place : Break)

/-- The fault met by a reader that passes over the value. -/
def Draft.passOver : Draft → Option Fault
  | .array _ stop => stop.map Break.passed
  | .object _ stop => stop.map Break.passed
  | .broken _ b => some b.passed
  | _ => none

/-- A document and what follows its value. -/
structure Document where
  root : Draft
  /-- Whether anything but blanks follows the value. -/
  trailing : Bool

end StageLens.Json
