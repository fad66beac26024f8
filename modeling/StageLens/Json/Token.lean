import StageLens.Json.Basic
import StageLens.Text.Utf8

/-!
# JSON tokens

The lexer is a machine fed one character at a time. After a character that no JSON text can have
there it is `stuck`: the last token says where the document broke.
-/

namespace StageLens.Json

inductive Token where
  | openObject
  | closeObject
  | openArray
  | closeArray
  | colon
  | comma
  | null
  | boolean (b : Bool)
  | number (n : Numeral)
  | text (s : Option String)
  | broken (begun : Begun) (place : Break)

/-- Where the lexer stands inside an escape of a text. -/
inductive Escape where
  | none
  /-- After the backslash. -/
  | mark
  /-- After `\u` and `bytes` further bytes; `value` is none if one of them is no hexadecimal
  digit. -/
  | hex (bytes : Nat) (value : Option Nat)

/-- A text being read. -/
structure TextState where
  /-- The characters read, latest first. -/
  read : List Char := []
  escape : Escape := .none
  /-- The first half of a surrogate pair, when the second must come next. -/
  high : Option Nat := .none
  /-- Whether half a surrogate pair stood alone. -/
  lone : Bool := false

/-- Where the lexer stands inside a number. -/
inductive NumberPart where
  | sign
  | zero
  | whole
  | point
  | fraction
  | exponent
  | exponentSign
  | exponentDigits
  deriving DecidableEq

/-- A number being read, its digits latest first. -/
structure NumberState where
  part : NumberPart
  negative : Bool := false
  whole : List Char := []
  fraction : List Char := []
  exponentNegative : Bool := false
  exponent : List Char := []

inductive Lexing where
  | between
  | text (t : TextState)
  | number (n : NumberState)
  /-- The letters of a literal still to come. -/
  | literal (rest : List Char) (token : Token)
  | stuck

/-- The tokens read, latest first, and the one being read. -/
structure Lexer where
  tokens : List Token
  state : Lexing

def hexValue (c : Char) : Option Nat :=
  if '0' ≤ c && c ≤ '9' then some (c.toNat - '0'.toNat)
  else if 'a' ≤ c && c ≤ 'f' then some (c.toNat - 'a'.toNat + 10)
  else if 'A' ≤ c && c ≤ 'F' then some (c.toNat - 'A'.toNat + 10)
  else none

/-- The character that a letter stands for after a backslash. -/
def simpleEscape (c : Char) : Option Char :=
  match c with
  | '"' => some '"'
  | '\\' => some '\\'
  | '/' => some '/'
  | 'b' => some '\x08'
  | 'f' => some '\x0c'
  | 'n' => some '\n'
  | 'r' => some '\r'
  | 't' => some '\t'
  | _ => none

def isSpace (c : Char) : Bool := c == ' ' || c == '\n' || c == '\t' || c == '\r'

def isHigh (n : Nat) : Bool := 0xD800 ≤ n && n ≤ 0xDBFF

def isLow (n : Nat) : Bool := 0xDC00 ≤ n && n ≤ 0xDFFF

/-- The code point of a surrogate pair. -/
def joinPair (high low : Nat) : Nat := (high - 0xD800) * 0x400 + (low - 0xDC00) + 0x10000

namespace TextState

/-- The fault of a text that cannot be read on. Half a surrogate pair came before it. -/
def stop (t : TextState) (f : Fault) : Token :=
  .broken .text ⟨if t.lone then .malformed else f, f, false⟩

def result (t : TextState) : Option String :=
  if t.lone then none else some (String.ofList t.read.reverse)

/-- Take a code unit written as four hexadecimal digits. -/
def unit (t : TextState) (n : Nat) : TextState :=
  match t.high with
  | some h =>
    if isLow n then ⟨Char.ofNat (joinPair h n) :: t.read, .none, .none, t.lone⟩
    else if isHigh n then ⟨t.read, .none, some n, true⟩
    else ⟨Char.ofNat n :: t.read, .none, .none, true⟩
  | none =>
    if isLow n then ⟨t.read, .none, .none, true⟩
    else if isHigh n then ⟨t.read, .none, some n, t.lone⟩
    else ⟨Char.ofNat n :: t.read, .none, .none, t.lone⟩

/-- Take a character that stands for itself or is a simple escape. -/
def push (t : TextState) (c : Char) : TextState :=
  ⟨c :: t.read, .none, .none, t.lone || t.high.isSome⟩

end TextState

namespace NumberState

def numeral (n : NumberState) : Numeral :=
  ⟨n.negative, n.whole.reverse, n.fraction.reverse,
    match n.part with
    | .exponentDigits => some (n.exponentNegative, n.exponent.reverse)
    | _ => none⟩

/-- Whether the number may end here. -/
def complete (n : NumberState) : Bool :=
  match n.part with
  | .zero | .whole | .fraction | .exponentDigits => true
  | _ => false

/-- The number with one more character, if it can have it. -/
def step (n : NumberState) (c : Char) : Option NumberState :=
  let digit := c.isDigit
  match n.part with
  | .sign =>
    if c == '0' then some { n with part := .zero, whole := [c] }
    else if digit then some { n with part := .whole, whole := [c] }
    else none
  | .zero =>
    if c == '.' then some { n with part := .point }
    else if c == 'e' || c == 'E' then some { n with part := .exponent }
    else none
  | .whole =>
    if digit then some { n with whole := c :: n.whole }
    else if c == '.' then some { n with part := .point }
    else if c == 'e' || c == 'E' then some { n with part := .exponent }
    else none
  | .point => if digit then some { n with part := .fraction, fraction := [c] } else none
  | .fraction =>
    if digit then some { n with fraction := c :: n.fraction }
    else if c == 'e' || c == 'E' then some { n with part := .exponent }
    else none
  | .exponent =>
    if c == '+' then some { n with part := .exponentSign }
    else if c == '-' then some { n with part := .exponentSign, exponentNegative := true }
    else if digit then some { n with part := .exponentDigits, exponent := [c] }
    else none
  | .exponentSign =>
    if digit then some { n with part := .exponentDigits, exponent := [c] } else none
  | .exponentDigits => if digit then some { n with exponent := c :: n.exponent } else none

end NumberState

namespace Lexer

def start : Lexer := ⟨[], .between⟩

def malformed (begun : Begun) : Token := .broken begun (.of .malformed)

def stick (tokens : List Token) (t : Token) : Lexer := ⟨t :: tokens, .stuck⟩

/-- A character between two tokens. -/
def begin (tokens : List Token) (c : Char) : Lexer :=
  if isSpace c then ⟨tokens, .between⟩
  else match c with
    | '\x7b' => ⟨.openObject :: tokens, .between⟩
    | '\x7d' => ⟨.closeObject :: tokens, .between⟩
    | '[' => ⟨.openArray :: tokens, .between⟩
    | ']' => ⟨.closeArray :: tokens, .between⟩
    | ':' => ⟨.colon :: tokens, .between⟩
    | ',' => ⟨.comma :: tokens, .between⟩
    | '"' => ⟨tokens, .text {}⟩
    | 't' => ⟨tokens, .literal ['r', 'u', 'e'] (.boolean true)⟩
    | 'f' => ⟨tokens, .literal ['a', 'l', 's', 'e'] (.boolean false)⟩
    | 'n' => ⟨tokens, .literal ['u', 'l', 'l'] .null⟩
    | '-' => ⟨tokens, .number { part := .sign, negative := true }⟩
    | '0' => ⟨tokens, .number { part := .zero, whole := ['0'] }⟩
    | _ =>
      if c.isDigit then ⟨tokens, .number { part := .whole, whole := [c] }⟩
      else stick tokens (malformed .other)

/-- A character of a text. -/
def stepText (tokens : List Token) (t : TextState) (c : Char) : Lexer :=
  match t.escape with
  | .none =>
    if c == '"' then
      ⟨.text { t with lone := t.lone || t.high.isSome }.result :: tokens, .between⟩
    else if c == '\\' then ⟨tokens, .text { t with escape := .mark }⟩
    else if c.toNat < 0x20 then
      stick tokens ({ t with lone := t.lone || t.high.isSome }.stop .malformed)
    else ⟨tokens, .text (t.push c)⟩
  | .mark =>
    if c == 'u' then ⟨tokens, .text { t with escape := .hex 0 (some 0) }⟩
    else match simpleEscape c with
      | some d => ⟨tokens, .text (t.push d)⟩
      | none => stick tokens (t.stop .malformed)
  | .hex n value =>
    let n := n + c.utf8Size
    let value := value.bind fun v => (hexValue c).map (v * 16 + ·)
    if n < 4 then ⟨tokens, .text { t with escape := .hex n value }⟩
    else match value with
      | some v => ⟨tokens, .text (t.unit v)⟩
      | none => stick tokens (t.stop .malformed)

/-- A character of a number, or the first one after it. -/
def stepNumber (tokens : List Token) (n : NumberState) (c : Char) : Lexer :=
  match n.step c with
  | some n => ⟨tokens, .number n⟩
  | none =>
    if !n.complete || (n.part = .zero && c.isDigit) then stick tokens (malformed .other)
    else begin (.number n.numeral :: tokens) c

def step (l : Lexer) (c : Char) : Lexer :=
  match l.state with
  | .between => begin l.tokens c
  | .text t => stepText l.tokens t c
  | .number n => stepNumber l.tokens n c
  | .literal (d :: rest) token =>
    if c == d then
      if rest.isEmpty then ⟨token :: l.tokens, .between⟩ else ⟨l.tokens, .literal rest token⟩
    else stick l.tokens (malformed .other)
  | .literal [] token => begin (token :: l.tokens) c
  | .stuck => l

def feed (l : Lexer) (cs : List Char) : Lexer := cs.foldl step l

/-- The tokens when the input ends, in order. -/
def close (l : Lexer) : List Token :=
  match l.state with
  | .between | .stuck => l.tokens.reverse
  | .text t => (t.stop .ended :: l.tokens).reverse
  | .number n =>
    if n.complete then (.number n.numeral :: l.tokens).reverse
    else (.broken .other ⟨.ended, .malformed, false⟩ :: l.tokens).reverse
  | .literal _ _ => (.broken .other (.of .ended) :: l.tokens).reverse

theorem feed_append (l : Lexer) (as bs : List Char) : l.feed (as ++ bs) = (l.feed as).feed bs :=
  List.foldl_append

end Lexer

/-- The tokens of a text. -/
def tokens (cs : List Char) : List Token := (Lexer.start.feed cs).close

end StageLens.Json
