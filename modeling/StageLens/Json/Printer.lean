import StageLens.Json.Basic
import StageLens.Text.Escaped

/-!
# Written JSON

`compact` writes a value on one line without blanks; `pretty` writes each item and member on a
line of its own, two blanks deeper than what holds it.
-/

namespace StageLens.Json

/-- Two hexadecimal digits. -/
def hexByte (n : Nat) : List Char :=
  [Nat.digitChar (n / 16), Nat.digitChar (n % 16)]

/-- A character between quotation marks. -/
def escapedChar (c : Char) : List Char :=
  if c == '"' then ['\\', '"']
  else if c == '\\' then ['\\', '\\']
  else if c == '\x08' then ['\\', 'b']
  else if c == '\x0c' then ['\\', 'f']
  else if c == '\n' then ['\\', 'n']
  else if c == '\r' then ['\\', 'r']
  else if c == '\t' then ['\\', 't']
  else if c.toNat < 0x20 then ['\\', 'u', '0', '0'] ++ hexByte c.toNat
  else [c]

/-- A text between quotation marks. -/
def quoted (s : String) : List Char := '"' :: s.toList.flatMap escapedChar ++ ['"']

/-- An integer in decimal digits. -/
def decimal (i : Int) : List Char := (toString i).toList

mutual

/-- The value on one line. -/
def compactChars : Json → List Char
  | .null => ['n', 'u', 'l', 'l']
  | .boolean true => ['t', 'r', 'u', 'e']
  | .boolean false => ['f', 'a', 'l', 's', 'e']
  | .integer i => decimal i
  | .text s => quoted s
  | .array items => '[' :: compactItems items ++ [']']
  | .object members => '\x7b' :: compactMembers members ++ ['\x7d']

/-- The items with a comma between them. -/
def compactItems : List Json → List Char
  | [] => []
  | [j] => compactChars j
  | j :: k :: js => compactChars j ++ ',' :: compactItems (k :: js)

/-- The members with a comma between them. -/
def compactMembers : List (String × Json) → List Char
  | [] => []
  | [(key, j)] => quoted key ++ ':' :: compactChars j
  | (key, j) :: m :: ms => quoted key ++ ':' :: compactChars j ++ ',' :: compactMembers (m :: ms)

end

/-- A new line at the given depth. -/
def newLine (depth : Nat) : List Char := '\n' :: List.replicate (2 * depth) ' '

mutual

/-- The value over several lines, its first line at the given depth. -/
def prettyChars (depth : Nat) : Json → List Char
  | .null => ['n', 'u', 'l', 'l']
  | .boolean true => ['t', 'r', 'u', 'e']
  | .boolean false => ['f', 'a', 'l', 's', 'e']
  | .integer i => decimal i
  | .text s => quoted s
  | .array [] => ['[', ']']
  | .array (j :: js) => '[' :: prettyItems (depth + 1) (j :: js) ++ newLine depth ++ [']']
  | .object [] => ['\x7b', '\x7d']
  | .object (m :: ms) => '\x7b' :: prettyMembers (depth + 1) (m :: ms) ++ newLine depth ++ ['\x7d']

/-- The items, each on a line of its own. -/
def prettyItems (depth : Nat) : List Json → List Char
  | [] => []
  | [j] => newLine depth ++ prettyChars depth j
  | j :: k :: js => newLine depth ++ prettyChars depth j ++ ',' :: prettyItems depth (k :: js)

/-- The members, each on a line of its own. -/
def prettyMembers (depth : Nat) : List (String × Json) → List Char
  | [] => []
  | [(key, j)] => newLine depth ++ quoted key ++ [':', ' '] ++ prettyChars depth j
  | (key, j) :: m :: ms =>
    newLine depth ++ quoted key ++ [':', ' '] ++ prettyChars depth j ++
      ',' :: prettyMembers depth (m :: ms)

end

/-- The value on one line. -/
def compact (j : Json) : String := String.ofList (compactChars j)

/-- The value over several lines. -/
def pretty (j : Json) : String := String.ofList (prettyChars 0 j)

end StageLens.Json
