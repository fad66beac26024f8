import StageLens.Toml.Scan

/-!
# TOML documents

`entries?` reads a whole document and gives the entries of its root table. A document that breaks
the grammar, gives one key twice or nests too deep is none.
-/

namespace StageLens.Toml

open Scan (fail optional word peek)

/-- The items of an array after its bracket. The fuel bounds their number. -/
def items (value : Scan Value) : Nat → List Value → Scan (List Value)
  | 0, _ => fail
  | fuel + 1, out => do
    between
    match ← optional (word [']']) with
    | some _ => return out.reverse
    | none => do
      let v ← value
      between
      match ← optional (word [',']) with
      | some _ => items value fuel (v :: out)
      | none => do
        word [']']
        return (v :: out).reverse

/-- A key, an equals sign and a value, given to the entries of a table. -/
def assignment (value : Scan Value) : Scan (Entries → Option Entries) := do
  let (before, last) ← path
  word ['=']
  spaces
  let v ← value
  return fun es => es.assign before last v

/-- The assignments of a table written between braces. -/
def members (value : Scan Value) : Nat → Entries → Scan Entries
  | 0, _ => fail
  | fuel + 1, es => do
    let change ← assignment value
    match change es with
    | none => fail
    | some es => do
      spaces
      match ← optional (word [',']) with
      | some _ => members value fuel es
      | none => do
        word ['\x7d']
        return es

/-- What a table between braces holds. -/
def braced (value : Scan Value) (fuel : Nat) : Scan Value := do
  spaces
  match ← optional (word ['\x7d']) with
  | some _ => return .table .inline []
  | none => return .table .inline (← members value fuel [])

/-- A text as a value. -/
def text : Scan Value := do return .text (← quoted)

/-- A word that stands for a value. -/
def constant (name : String) (v : Value) : Scan Value := do
  word name.toList
  return v

/-- The items of an array as a value. -/
def array (value : Scan Value) (fuel : Nat) : Scan Value := do
  return .array (← items value fuel [])

/-- A value that nests at most so deep. -/
def value (depth : Nat) (cs : List Char) : Option (Value × List Char) :=
  match cs, depth with
  | '"' :: _, _ => text cs
  | '\'' :: _, _ => text cs
  | '[' :: rest, depth + 1 => array (value depth) cs.length rest
  | '\x7b' :: rest, depth + 1 => braced (value depth) cs.length rest
  | 't' :: _, _ => constant "true" (.boolean true) cs
  | 'f' :: _, _ => constant "false" (.boolean false) cs
  | _, _ => (((moment cs).or (decimal cs)).or (named cs)).or (integer cs)

/-- The document as far as it has been read: the root table and the table that is open. -/
structure Draft where
  root : Entries := []
  current : List String := []

/-- One line: the header of a table, the header of one of an array of tables, or an assignment. -/
def line (d : Draft) : Scan Draft := fun cs =>
  match cs with
  | '[' :: '[' :: rest => header Entries.openItem [']', ']'] rest
  | '[' :: rest => header Entries.openTable [']'] rest
  | _ => (do
      let change ← assignment (value (depthLimit - 1))
      lineRest
      match d.root.under change d.current with
      | some root => return { d with root }
      | none => fail) cs
where
  header (define : List String → String → Entries → Option Entries) (close : List Char) :
      Scan Draft := do
    let (before, last) ← path
    word close
    lineRest
    match define before last d.root with
    | some root => return ⟨root, before ++ [last]⟩
    | none => fail

/-- The lines of a document. The fuel bounds their number. -/
def lines : Nat → Draft → Scan Draft
  | 0, d => do
    between
    return d
  | fuel + 1, d => do
    between
    match ← peek with
    | none => return d
    | some _ => lines fuel (← line d)

/-- The entries of the root table of a document. A byte order mark may come first. -/
def entries? (text : String) : Option Entries :=
  let cs := text.toList
  let cs := if cs.head? = some '\uFEFF' then cs.tail else cs
  match lines cs.length {} cs with
  | some (d, []) => some d.root
  | _ => none

end StageLens.Toml
