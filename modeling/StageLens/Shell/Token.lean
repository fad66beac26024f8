import StageLens.Shell.Syntax

/-!
# The tokens of a script

A script is read as words, operators and line ends. Quotes and substitutions belong to words. Where
the rest of a script cannot be read, the last token says why.
-/

namespace StageLens.Shell

inductive Lexeme where
  | word (w : Word)
  | operator (text : String)
  | redirection (descriptor : Option Nat) (text : String)
  | newline
  | finish
  | broken (reason : String)
  deriving DecidableEq, Repr

/-- A token and the line on which it ends. -/
structure Token where
  lexeme : Lexeme
  line : Nat
  deriving DecidableEq, Repr

namespace Token

def isNameStart (c : Char) : Bool := c.isAlpha || c == '_'

def isNameChar (c : Char) : Bool := c.isAlphanum || c == '_'

def isName : Octets → Bool
  | [] => false
  | c :: cs => isNameStart c && cs.all isNameChar

/-- The characters that end a word unless they are quoted. -/
def isMeta (c : Char) : Bool := " \t\n;&|()<>".toList.contains c

def backquote : Char := Char.ofNat 0x60

def unterminated : String := "Unterminated quoted string"

/-- Parameters with a name of one character that is no letter. -/
def isSpecial (c : Char) : Bool := c.isDigit || "@*#?$!-".toList.contains c

/-- The text up to the bracket that closes what was opened `depth` brackets ago, and the rest. -/
def balanced (depth : Nat) (quote : Option Char) (seen : Octets) :
    Octets → Option (Octets × Octets)
  | [] => none
  | '\\' :: c :: rest =>
    if quote == some '\'' then balanced depth quote ('\\' :: seen) (c :: rest)
    else balanced depth quote (c :: '\\' :: seen) rest
  | c :: rest =>
    match quote with
    | some q => balanced depth (if c = q then none else quote) (c :: seen) rest
    | none =>
      if c = ')' then
        match depth with
        | 0 => some (seen.reverse, rest)
        | depth + 1 => balanced depth none (c :: seen) rest
      else if c = '(' then balanced (depth + 1) none (c :: seen) rest
      else balanced depth (if c = '\'' || c = '"' then some c else none) (c :: seen) rest

/-- The text up to the closing backquote, with the backslashes that protect taken away. -/
def backquoted (seen : Octets) : Octets → Option (Octets × Octets)
  | [] => none
  | '\\' :: c :: rest =>
    if c = backquote || c = '\\' || c = '$' then backquoted (c :: seen) rest
    else backquoted (c :: '\\' :: seen) rest
  | c :: rest => if c = backquote then some (seen.reverse, rest) else backquoted (c :: seen) rest

/-- A parameter in braces, from what stands between them. -/
def braced (quoted : Bool) (inside : Octets) : Part :=
  let sized := inside.head? == some '#' && 1 < inside.length
  let body := if sized then inside.drop 1 else inside
  let special := match body with
    | c :: _ => isSpecial c && !c.isDigit
    | [] => false
  let name := if special then body.take 1 else body.takeWhile isNameChar
  let rule : Rule := match body.drop name.length, sized with
    | [], true => .size
    | [], false => .plain
    | '-' :: word, false => .fallback false word
    | ':' :: '-' :: word, false => .fallback true word
    | '+' :: word, false => .alternative false word
    | ':' :: '+' :: word, false => .alternative true word
    | _, _ => .unknown
  .parameter (String.ofList name) (if name.isEmpty then .unknown else rule) quoted

/-- The expression of a text that two pairs of brackets enclose, without the outer one. -/
def expression? (script : Octets) : Option Octets :=
  match script, script.getLast? with
  | '(' :: rest, some ')' => some rest.dropLast
  | _, _ => none

/-- The part that a dollar sign starts, from what follows the sign. -/
def dollar (quoted : Bool) : Octets → Except String (Part × Octets)
  | '(' :: rest =>
    match balanced 0 none [] rest with
    | some (script, rest) =>
      match expression? script with
      | some e => .ok (.computed e quoted, rest)
      | none => .ok (.printed script quoted, rest)
    | none => .error unterminated
  | '{' :: rest =>
    let inside := rest.takeWhile (· ≠ '}')
    match rest.drop inside.length with
    | _ :: rest => .ok (braced quoted inside, rest)
    | [] => .error "Missing '\x7d'"
  | c :: rest =>
    if isNameStart c then
      .ok (.parameter (String.ofList (c :: rest.takeWhile isNameChar)) .plain quoted,
        rest.dropWhile isNameChar)
    else if isSpecial c then .ok (.parameter (String.singleton c) .plain quoted, rest)
    else .ok (.text ['$'] quoted, c :: rest)
  | [] => .ok (.text ['$'] quoted, [])

/-- The parts of a word and the rest; `quoted` says whether the text starts inside double quotes.
Every step takes a character, so the length of the text is fuel enough. -/
def parts : Nat → Bool → Octets → Except String (Word × Octets)
  | 0, quoted, rest => if quoted then .error unterminated else .ok ([], rest)
  | _ + 1, true, [] => .error unterminated
  | _ + 1, false, [] => .ok ([], [])
  | fuel + 1, quoted, c :: rest => do
    let andThen (p : List Part) (quoted : Bool) (rest : Octets) :
        Except String (Word × Octets) := do
      let (w, rest) ← parts fuel quoted rest
      return (p ++ w, rest)
    if c = '"' then andThen [.text [] true] (!quoted) rest
    else if c = '$' then
      let (p, rest) ← dollar quoted rest
      andThen [p] quoted rest
    else if c = backquote then
      match backquoted [] rest with
      | some (script, rest) => andThen [.printed script quoted] quoted rest
      | none => throw "EOF in backquote substitution"
    else if c = '\\' then
      match rest with
      | [] => if quoted then throw unterminated else return ([.text ['\\'] quoted], [])
      | '\n' :: rest => andThen [] quoted rest
      | d :: rest =>
        if quoted && !(d = '$' || d = backquote || d = '"' || d = '\\') then
          andThen [.text ['\\', d] true] true rest
        else andThen [.text [d] true] quoted rest
    else if quoted then andThen [.text [c] true] true rest
    else if c = '\'' then
      let inside := rest.takeWhile (· ≠ '\'')
      match rest.drop inside.length with
      | _ :: rest => andThen [.text inside true] false rest
      | [] => throw unterminated
    else if isMeta c then return ([], c :: rest)
    else andThen [.text [c] false] false rest

/-- The operators, the longer ones first. -/
def operators : List String := ["&&", "||", ";;", ";", "&", "|", "(", ")"]

def redirectionOperators : List String := [">>", ">&", "<&", ">|", "<>", "<", ">"]

/-- The first of these texts that stands in front, and what follows it. -/
def leading? (texts : List String) (o : Octets) : Option (String × Octets) :=
  (texts.find? fun t => t.toList.isPrefixOf o).map fun t => (t, o.drop t.length)

/-- The number of a descriptor, which stands directly in front of a redirection. -/
def descriptor? (o : Octets) : Option (Nat × Octets) :=
  let digits := o.takeWhile Char.isDigit
  match Octets.digits? 10 digits, o.drop digits.length with
  | some n, c :: rest => if c = '<' || c = '>' then some (n, c :: rest) else none
  | _, _ => none

/-- The tokens of a script from a line on. -/
def scanFrom : Nat → Nat → Octets → List Token
  | 0, line, _ => [⟨.finish, line⟩]
  | _ + 1, line, [] => [⟨.finish, line⟩]
  | fuel + 1, line, c :: rest =>
    let text := c :: rest
    if c = ' ' || c = '\t' then scanFrom fuel line rest
    else if c = '\n' then ⟨.newline, line + 1⟩ :: scanFrom fuel (line + 1) rest
    else if c = '#' then scanFrom fuel line (rest.dropWhile (· ≠ '\n'))
    else if "\\\n".toList.isPrefixOf text then scanFrom fuel (line + 1) (rest.drop 1)
    else
      let (number, after) := match descriptor? text with
        | some (n, after) => (some n, after)
        | none => (none, text)
      match leading? redirectionOperators after, leading? operators text with
      | some (t, rest), _ => ⟨.redirection number t, line⟩ :: scanFrom fuel line rest
      | none, some (t, rest) => ⟨.operator t, line⟩ :: scanFrom fuel line rest
      | none, none =>
        match parts (text.length + 1) false text with
        | .error reason => [⟨.broken reason, line + text.count '\n'⟩]
        | .ok (w, rest) =>
          let line := line + (text.take (text.length - rest.length)).count '\n'
          ⟨.word w, line⟩ :: scanFrom fuel line rest

/-- The tokens of a script. -/
def scan (script : Octets) : List Token := scanFrom (script.length + 1) 1 script

end Token

end StageLens.Shell
