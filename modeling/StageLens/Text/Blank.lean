/-!
# Blank characters

A character is blank when it has the Unicode property `White_Space`; a text is blank when it
holds nothing else. `trim` cuts blank characters from both ends.
-/

namespace StageLens.Text

/-- The property `White_Space`. The zero-width space, the byte order mark and the separators
`U+001C` to `U+001F` do not have it. -/
def isBlank (c : Char) : Bool :=
  let n := c.toNat
  (0x9 ≤ n && n ≤ 0xD) || n == 0x20 || n == 0x85 || n == 0xA0 || n == 0x1680 ||
    (0x2000 ≤ n && n ≤ 0x200A) || n == 0x2028 || n == 0x2029 || n == 0x202F || n == 0x205F ||
    n == 0x3000

/-- Whether a text has no character but blanks; the empty text is blank. -/
def isBlankText (s : String) : Bool := s.toList.all isBlank

/-- The text without the blanks it starts and ends with. -/
def trim (s : String) : String :=
  String.ofList ((s.toList.dropWhile isBlank).reverse.dropWhile isBlank).reverse

end StageLens.Text
