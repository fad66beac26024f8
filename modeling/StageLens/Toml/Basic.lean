import StageLens.Number.Binary64

/-!
# TOML values and tables

A table remembers how it came to be, because that decides what may still be added to it: a table
opened by a header or written inline is complete where it stands, one that is only implied by the
path of another can be opened once, and one made by a dotted key grows by dotted keys alone.

Entries keep the order in which they were written.
-/

namespace StageLens.Toml

/-- How a table came to be. -/
inductive Origin where
  /-- Opened by a header. -/
  | header
  /-- Implied by the header of a table inside it. -/
  | implied
  /-- Made by a dotted key. -/
  | dotted
  /-- Written between braces. -/
  | inline
  deriving DecidableEq, Repr

/-- A value of a document. Nothing is kept of a date or a time. -/
inductive Value where
  | text (s : String)
  | integer (i : Int)
  | float (x : Number.Floating)
  | boolean (b : Bool)
  | moment
  | array (items : List Value)
  /-- The tables opened by headers in double brackets. -/
  | tables (items : List Value)
  | table (origin : Origin) (entries : List (String × Value))
  deriving Repr

/-- The named values of a table in the order of writing. -/
abbrev Entries := List (String × Value)

namespace Entries

/-- The entries with one of them changed, or with a new one at the end. `change` sees the value
that is there. -/
def alter (name : String) (change : Option Value → Option Value) : Entries → Option Entries
  | [] => (change none).map fun v => [(name, v)]
  | (n, v) :: rest =>
    if n = name then (change (some v)).map fun v => (n, v) :: rest
    else (alter name change rest).map ((n, v) :: ·)

/-- A name that is not there gets its value. -/
def define (name : String) (v : Value) (es : Entries) : Option Entries :=
  if (es.lookup name).isSome then none else some (es ++ [(name, v)])

/-- Work on the entries of the table at the end of a path of headers. Tables on the way that are not
there are implied, and of an array of tables it is the last one. -/
def under (work : Entries → Option Entries) : List String → Entries → Option Entries
  | [], es => work es
  | name :: path, es => es.alter name fun
    | none => (under work path []).map (.table .implied)
    | some (.table .inline _) => none
    | some (.table o inner) => (under work path inner).map (.table o)
    | some (.tables items) => inLast (under work path) items
    | some _ => none
where
  /-- Work on the last of the tables of an array. -/
  inLast (work : Entries → Option Entries) (items : List Value) : Option Value :=
    match items.reverse with
    | .table o inner :: before => (work inner).map fun es => .tables (before.reverse ++ [.table o es])
    | _ => none

/-- Give a value to the dotted key `path` and `name`. Only tables that were made by dotted keys or
implied can be entered, and the one that gets the value must have been made by a dotted key. -/
def assign (path : List String) (name : String) (v : Value) (es : Entries) : Option Entries :=
  go true path es
where
  /-- Whether the table that is reached now may get the value. -/
  go (mayHold : Bool) : List String → Entries → Option Entries
    | [], es => if mayHold then es.define name v else none
    | part :: rest, es => es.alter part fun
      | none => (go true rest []).map (.table .dotted)
      | some (.table .dotted inner) => (go true rest inner).map (.table .dotted)
      | some (.table .implied inner) => (go false rest inner).map (.table .implied)
      | some (.tables items) => under.inLast (go false rest) items
      | some _ => none

/-- Open the table of a header. A table that was only implied is opened now, and its entry moves to
the end. -/
def openTable (path : List String) (name : String) (root : Entries) : Option Entries :=
  root.under (fun es =>
    match es.lookup name with
    | none => some (es ++ [(name, .table .header [])])
    | some (.table .implied inner) =>
      some (es.filter (fun e => e.1 ≠ name) ++ [(name, .table .header inner)])
    | some _ => none) path

/-- Open one more table of an array of tables. -/
def openItem (path : List String) (name : String) (root : Entries) : Option Entries :=
  root.under (fun es => es.alter name fun
    | none => some (.tables [.table .header []])
    | some (.tables items) => some (.tables (items ++ [.table .header []]))
    | some _ => none) path

end Entries

end StageLens.Toml
