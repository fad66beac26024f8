import StageLens.Number.Power
import StageLens.Toml.Basic

/-!
# The words of a TOML document

Scanners read a word at the front of the input and give what it stands for and the rest. A document
that is not TOML has no further meaning, so a scanner that fails gives nothing.
-/

namespace StageLens.Toml

open StageLens.Number (Binary64 Floating)

/-- What reads one thing at the front of the input. -/
abbrev Scan (α : Type) := List Char → Option (α × List Char)

namespace Scan

def pure {α : Type} (a : α) : Scan α := fun cs => some (a, cs)

def bind {α β : Type} (s : Scan α) (next : α → Scan β) : Scan β := fun cs =>
  match s cs with
  | some (a, rest) => next a rest
  | none => none

instance : Monad Scan where
  pure := pure
  bind := bind

def fail {α : Type} : Scan α := fun _ => none

/-- The first scanner, or the second on the same input. -/
def orElse {α : Type} (s t : Scan α) : Scan α := fun cs => (s cs).or (t cs)

/-- The scanner, or nothing read. -/
def optional {α : Type} (s : Scan α) : Scan (Option α) := fun cs =>
  match s cs with
  | some (a, rest) => some (some a, rest)
  | none => some (none, cs)

/-- One character of a class. -/
def one (p : Char → Bool) : Scan Char
  | c :: cs => if p c then some (c, cs) else none
  | [] => none

/-- All the characters of a class that come next. -/
def run (p : Char → Bool) : Scan (List Char) := fun cs => some (cs.span p)

/-- Exactly these characters. -/
def word (w : List Char) : Scan Unit := fun cs =>
  if w.isPrefixOf cs then some ((), cs.drop w.length) else none

/-- The next character, which stays. -/
def peek : Scan (Option Char) := fun cs => some (cs.head?, cs)

end Scan

open Scan (fail orElse optional one run word peek)

/-! ## Blanks, comments and line ends -/

def isSpace (c : Char) : Bool := c == ' ' || c == '\t'

def spaces : Scan Unit := do discard (run isSpace)

/-- The characters that a comment or a text can hold: tab, and all that are not controls. -/
def isShown (c : Char) : Bool := c == '\t' || (0x20 ≤ c.toNat && c.toNat != 0x7F)

def lineEnd : Scan Unit := orElse (word ['\n']) (word ['\r', '\n'])

/-- A comment up to the end of its line. -/
def comment : Scan Unit := do
  word ['#']
  discard (run isShown)

/-- Blanks and a comment, up to the end of the line or of the input. -/
def lineRest : Scan Unit := do
  spaces
  discard (optional comment)
  match ← peek with
  | none => return
  | some _ => lineEnd

/-- Blanks, comments and line ends. The fuel bounds the number of lines. -/
def gap : Nat → Scan Unit
  | 0 => spaces
  | fuel + 1 => do
    spaces
    match ← peek with
    | some '#' => do
      comment
      match ← peek with
      | none => return
      | some _ => do
        lineEnd
        gap fuel
    | some '\n' | some '\r' => do
      lineEnd
      gap fuel
    | _ => return

/-- Blanks, comments and line ends between the items of an array. -/
def between : Scan Unit := fun cs => gap cs.length cs

/-! ## Texts -/

def isHexDigit (c : Char) : Bool :=
  c.isDigit || ('a' ≤ c && c ≤ 'f') || ('A' ≤ c && c ≤ 'F')

def digitValue (c : Char) : Nat :=
  if c.isDigit then c.toNat - '0'.toNat
  else if 'a' ≤ c then c.toNat - 'a'.toNat + 10
  else c.toNat - 'A'.toNat + 10

/-- The value of digits in a base. -/
def ofDigits (base : Nat) (ds : List Char) : Nat :=
  ds.foldl (fun n c => n * base + digitValue c) 0

/-- Exactly `n` digits of a class. -/
def digits (p : Char → Bool) (n : Nat) : Scan (List Char) := fun cs =>
  let ds := cs.take n
  if ds.length = n ∧ ds.all p then some (ds, cs.drop n) else none

/-- The character whose number is written with `n` hexadecimal digits. -/
def charOf (n : Nat) : Scan Char := do
  let v := ofDigits 16 (← digits isHexDigit n)
  if v.isValidChar then return Char.ofNat v else fail

/-- What follows a backslash. -/
def escape : Scan Char := do
  match ← one (fun _ => true) with
  | 'b' => return '\x08'
  | 't' => return '\t'
  | 'n' => return '\n'
  | 'f' => return '\x0c'
  | 'r' => return '\r'
  | '"' => return '"'
  | '\\' => return '\\'
  | 'u' => charOf 4
  | 'U' => charOf 8
  | _ => fail

/-- The rest of a text on one line, with its closing quote; `out` is what has been read, latest
first. -/
def lineText : Nat → List Char → Scan String
  | 0, _ => fail
  | fuel + 1, out => do
    match ← one isShown with
    | '"' => return String.ofList out.reverse
    | '\\' => lineText fuel ((← escape) :: out)
    | c => lineText fuel (c :: out)

/-- The rest of a literal text on one line. -/
def lineLiteral : Scan String := do
  let cs ← run fun c => isShown c && c != '\''
  word ['\'']
  return String.ofList cs

/-- The closing quotes of a text of several lines: three, and up to two more that belong to the
text. None if there are fewer than three. -/
def closing (quote : Char) : Scan (List Char) := fun cs =>
  let n := (cs.takeWhile (· == quote)).length
  if n < 3 then none
  else
    let n := min n 5
    some (List.replicate (n - 3) quote, cs.drop n)

/-- What is left after blanks and line ends. -/
def afterBlankLines : List Char → List Char
  | '\r' :: '\n' :: cs => afterBlankLines cs
  | c :: cs => if isSpace c || c == '\n' then afterBlankLines cs else c :: cs
  | [] => []

def blankLines : Scan Unit := fun cs => some ((), afterBlankLines cs)

/-- The rest of a text of several lines. A line end is kept as a line feed. -/
def linesText : Nat → List Char → Scan String
  | 0, _ => fail
  | fuel + 1, out => do
    match ← optional (closing '"') with
    | some quotes => return String.ofList (out.reverse ++ quotes)
    | none =>
      match ← optional lineEnd with
      | some _ => linesText fuel ('\n' :: out)
      | none =>
        match ← one isShown with
        | '\\' =>
          match ← optional (do spaces; lineEnd) with
          | some _ => do
            blankLines
            linesText fuel out
          | none => linesText fuel ((← escape) :: out)
        | c => linesText fuel (c :: out)

/-- The rest of a literal text of several lines. -/
def linesLiteral : Nat → List Char → Scan String
  | 0, _ => fail
  | fuel + 1, out => do
    match ← optional (closing '\'') with
    | some quotes => return String.ofList (out.reverse ++ quotes)
    | none =>
      match ← optional lineEnd with
      | some _ => linesLiteral fuel ('\n' :: out)
      | none => linesLiteral fuel ((← one isShown) :: out)

/-- A text on one line, in either kind of quotes. -/
def quotedLine : Scan String := fun cs =>
  orElse (do word ['"']; lineText cs.length []) (do word ['\'']; lineLiteral) cs

/-- A text, in any kind of quotes. A line end right after the opening of a text of several lines
does not count. -/
def quoted : Scan String := fun cs =>
  match cs with
  | '"' :: '"' :: '"' :: rest => (do discard (optional lineEnd); linesText cs.length []) rest
  | '\'' :: '\'' :: '\'' :: rest => (do discard (optional lineEnd); linesLiteral cs.length []) rest
  | _ => quotedLine cs

/-! ## Numbers -/

/-- Digits with single underscores between them, without the underscores. `after` says whether a
digit stands right before. -/
def grouped (p : Char → Bool) : Scan (List Char) := fun cs =>
  go false [] cs
where
  go (after : Bool) (out : List Char) : List Char → Option (List Char × List Char)
    | [] => if after then some (out.reverse, []) else none
    | c :: cs =>
      if p c then go true (c :: out) cs
      else if c == '_' && after then go false out cs
      else if after then some (out.reverse, c :: cs)
      else none

/-- The whole digits of a decimal number: no zero leads others. -/
def wholeDigits : Scan (List Char) := do
  match ← peek with
  | some '0' => do
    word ['0']
    return ['0']
  | _ => grouped Char.isDigit

/-- A sign; true stands for minus. -/
def sign : Scan Bool := fun cs =>
  match cs with
  | '-' :: rest => some (true, rest)
  | '+' :: rest => some (false, rest)
  | _ => some (false, cs)

/-- An integer of 64 bits. -/
def fitting (i : Int) : Scan Value :=
  if -(Number.pow2 63 : Int) ≤ i ∧ i < (Number.pow2 63 : Int) then return .integer i else fail

def integer : Scan Value := fun cs =>
  match cs with
  | '0' :: 'x' :: rest => (do fitting (ofDigits 16 (← grouped isHexDigit))) rest
  | '0' :: 'o' :: rest => (do fitting (ofDigits 8 (← grouped fun c => '0' ≤ c && c ≤ '7'))) rest
  | '0' :: 'b' :: rest => (do fitting (ofDigits 2 (← grouped fun c => c == '0' || c == '1'))) rest
  | _ => (do
      let negative ← sign
      let n : Int := ofDigits 10 (← wholeDigits)
      fitting (if negative then -n else n)) cs

/-- The exponent of a number. -/
def exponent : Scan Int := do
  discard (one fun c => c == 'e' || c == 'E')
  let negative ← sign
  let n : Int := ofDigits 10 (← grouped Char.isDigit)
  return if negative then -n else n

/-- The digits after the point of a number. -/
def fraction : Scan (List Char) := do
  word ['.']
  grouped Char.isDigit

/-- A number with a fraction or an exponent. One that is too great is read as infinite only if it is
negative. -/
def decimal : Scan Value := do
  let negative ← sign
  let whole ← wholeDigits
  let part ← optional fraction
  let power ← optional exponent
  if part.isNone && power.isNone then fail
  else
    let ds := whole ++ part.getD []
    match Binary64.ofDecimal (ofDigits 10 ds) (power.getD 0 - (part.getD []).length) with
    | some x => return .float (.finite negative x)
    | none => if negative then return .float (.infinite true) else fail

/-- The numbers that have names. -/
def named : Scan Value := do
  let negative ← sign
  match ← optional (word "inf".toList) with
  | some _ => return .float (.infinite negative)
  | none => do
    word "nan".toList
    return .float .notANumber

/-! ## Dates and times -/

/-- A number of `n` digits between two bounds. -/
def part (n low high : Nat) : Scan Nat := do
  let v := ofDigits 10 (← digits Char.isDigit n)
  if low ≤ v ∧ v ≤ high then return v else fail

def daysOf (year month : Nat) : Nat :=
  if month == 2 then
    if (year % 4 == 0 && year % 100 != 0) || year % 400 == 0 then 29 else 28
  else if month == 4 || month == 6 || month == 9 || month == 11 then 30
  else 31

def date : Scan Unit := do
  let year ← part 4 0 9999
  word ['-']
  let month ← part 2 1 12
  word ['-']
  discard (part 2 1 (daysOf year month))

/-- A time of day; a minute may have a leap second. -/
def timeOfDay : Scan Unit := do
  discard (part 2 0 23)
  word [':']
  discard (part 2 0 59)
  word [':']
  discard (part 2 0 60)
  discard (optional do
    word ['.']
    discard (one Char.isDigit)
    discard (run Char.isDigit))

/-- The distance from universal time. -/
def zone : Scan Unit :=
  orElse (do discard (one fun c => c == 'Z' || c == 'z')) do
    discard (one fun c => c == '+' || c == '-')
    discard (part 2 0 23)
    word [':']
    discard (part 2 0 59)

/-- A date, a time of day, or both. -/
def moment : Scan Value :=
  orElse (do
    date
    discard (optional do
      discard (one fun c => c == 'T' || c == 't' || c == ' ')
      timeOfDay
      discard (optional zone))
    return .moment) do
  timeOfDay
  return .moment

/-! ## Keys -/

def isBare (c : Char) : Bool :=
  c.isAlphanum || c == '-' || c == '_'

def key : Scan String :=
  orElse (do
    let c ← one isBare
    let cs ← run isBare
    return String.ofList (c :: cs)) quotedLine

/-- How deep keys and values may be nested. -/
def depthLimit : Nat := 80

/-- Keys with dots between them: those before the last, and the last. -/
def path : Scan (List String × String) := fun cs =>
  match go cs.length [] cs with
  | some ((before, last), rest) =>
    if before.length + 1 < depthLimit then some ((before, last), rest) else none
  | none => none
where
  go : Nat → List String → Scan (List String × String)
    | 0, _ => fail
    | fuel + 1, before => do
      spaces
      let k ← key
      spaces
      match ← optional (word ['.']) with
      | some _ => go fuel (k :: before)
      | none => return (before.reverse, k)

end StageLens.Toml
