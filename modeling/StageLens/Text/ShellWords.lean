/-!
# Words of a shell command

`quote` writes one word so that a shell reads it back as that word, and `commandLine` writes a
list of words with a space between them. A word of plain characters is its own written form; any
other stands between single quotes, and a single quote in it closes them, stands behind a
backslash and opens them again.
-/

namespace StageLens.Text

/-- The characters that a shell reads as themselves wherever they stand. -/
def isPlain (c : Char) : Bool :=
  c.isAlphanum || c == '-' || c == '_' || c == '.' || c == '/' || c == '=' || c == ':' || c == ','

/-- A character between single quotes. -/
def quoteChar (c : Char) : List Char := if c == '\'' then ['\'', '\\', '\'', '\''] else [c]

/-- The written form of one word. -/
def quoteWord (cs : List Char) : List Char :=
  if !cs.isEmpty && cs.all isPlain then cs else '\'' :: cs.flatMap quoteChar ++ ['\'']

/-- The written form of one word. -/
def quote (word : String) : String := String.ofList (quoteWord word.toList)

/-- The words as one line that a shell splits into them again. -/
def commandLine (words : List String) : String := " ".intercalate (words.map quote)

end StageLens.Text
