/-!
# Search and replacement

Occurrences of one run of characters in another, and their replacement from the left, where an
occurrence that overlaps an earlier one does not count.
-/

namespace StageLens.Text

/-- Whether `part` occurs in the characters. -/
def occurs (part : List Char) : List Char → Bool
  | [] => part.isEmpty
  | c :: cs => part.isPrefixOf (c :: cs) || occurs part cs

/-- Replacement in progress: `skip` characters of an occurrence are still to be passed over, and
`out` is what has been written, latest first. -/
def replaceFrom (old new : List Char) (skip : Nat) (out : List Char) : List Char → List Char
  | [] => out.reverse
  | c :: cs =>
    match skip with
    | skip + 1 => replaceFrom old new skip out cs
    | 0 =>
      if old.isPrefixOf (c :: cs) then
        replaceFrom old new (old.length - 1) (new.reverse ++ out) cs
      else replaceFrom old new 0 (c :: out) cs

/-- The characters with `new` in place of each occurrence of `old`, which is not empty. -/
def replaceAll (old new cs : List Char) : List Char := replaceFrom old new 0 [] cs

/-- Whether one text occurs in another. -/
def contains (s part : String) : Bool := occurs part.toList s.toList

/-- The text with `new` in place of each occurrence of `old`. -/
def replace (s old new : String) : String :=
  String.ofList (replaceAll old.toList new.toList s.toList)

end StageLens.Text
