import StageLens.Text.Utf8

/-!
# Paths

A path is a run of bytes with slashes between its parts. A `Place` is where a path leads: the names
from the root down, without dots and links.
-/

namespace StageLens

/-- The names on the way from the root to a file. -/
abbrev Place := List Bytes

namespace Path

def slash : UInt8 := 0x2F

/-- The part that stands for the directory itself. -/
def here : Bytes := [0x2E]

/-- The part that stands for the directory above. -/
def above : Bytes := [0x2E, 0x2E]

/-- The runs of bytes between separators, empty ones too. -/
def split (separator : UInt8) : Bytes → List Bytes
  | [] => [[]]
  | b :: bs =>
    if b = separator then [] :: split separator bs
    else match split separator bs with
      | [] => [[b]]
      | part :: parts => (b :: part) :: parts

/-- The parts of a path between its slashes. -/
def parts (p : Bytes) : List Bytes := (split slash p).filter (!·.isEmpty)

def isAbsolute (p : Bytes) : Bool := p.head? == some slash

/-- Whether a path ends with a slash. -/
def endsInSlash (p : Bytes) : Bool := p.getLast? == some slash

/-- How many components a path has. The root is one; a dot counts only where a relative path starts
with it. -/
def componentCount (p : Bytes) : Nat :=
  let named := (parts p).filter (· ≠ here)
  if isAbsolute p then named.length + 1
  else if (parts p).head? = some here then named.length + 1
  else named.length

/-- A path inside a directory; an absolute path stays as it is. -/
def join (directory p : Bytes) : Bytes :=
  if isAbsolute p then p
  else if directory.isEmpty then p
  else if endsInSlash directory then directory ++ p
  else directory ++ slash :: p

/-- The absolute path of a place. -/
def ofPlace : Place → Bytes
  | [] => [slash]
  | names => names.flatMap (slash :: ·)

/-- The paths to a directory and to each one above it, the longest first, without the root and
without the place where a relative path starts. -/
def ancestors (p : Bytes) : List Bytes :=
  let names := parts p
  let text (names : List Bytes) : Bytes :=
    if isAbsolute p then ofPlace names else (names.intersperse [slash]).flatten
  (List.range names.length).reverse.map fun n => text (names.take (n + 1))

theorem parts_ne_nil {p : Bytes} {n : Bytes} (h : n ∈ parts p) : n ≠ [] := by
  rintro rfl
  simp [parts] at h

end Path

end StageLens
