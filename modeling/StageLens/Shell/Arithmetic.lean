import StageLens.Text.Octets

/-!
# Arithmetic of the shell

Expressions over integers with the usual operators and their precedence. A name stands for the
number that its variable holds, or for zero.
-/

namespace StageLens.Shell.Arithmetic

inductive Token where
  | number (i : Int)
  | name (s : String)
  | mark (s : String)
  deriving DecidableEq, Repr

/-- The marks, the longer ones first. -/
def marks : List String :=
  ["<=", ">=", "==", "!=", "&&", "||", "<", ">", "+", "-", "*", "/", "%", "(", ")", "!"]

/-- The tokens of an expression. -/
def tokens : Nat → Octets → Option (List Token)
  | 0, _ => none
  | _ + 1, [] => some []
  | fuel + 1, c :: rest =>
    if c = ' ' || c = '\t' || c = '\n' then tokens fuel rest
    else if c.isDigit then
      let digits := c :: rest.takeWhile Char.isDigit
      (tokens fuel (rest.dropWhile Char.isDigit)).map
        (.number ((Octets.digits? 10 digits).getD 0) :: ·)
    else if c.isAlpha || c = '_' then
      let inName (c : Char) : Bool := c.isAlphanum || c = '_'
      (tokens fuel (rest.dropWhile inName)).map
        (.name (String.ofList (c :: rest.takeWhile inName)) :: ·)
    else match marks.find? fun m => m.toList.isPrefixOf (c :: rest) with
      | some m => (tokens fuel ((c :: rest).drop m.length)).map (.mark m :: ·)
      | none => none

/-- How strongly an operator binds its operands. -/
def strength? : String → Option Nat
  | "||" => some 1
  | "&&" => some 2
  | "==" | "!=" => some 3
  | "<" | "<=" | ">" | ">=" => some 4
  | "+" | "-" => some 5
  | "*" | "/" | "%" => some 6
  | _ => none

def truth (b : Bool) : Int := if b then 1 else 0

/-- The value of an operation; none for a division by zero. -/
def apply (operator : String) (a b : Int) : Option Int :=
  match operator with
  | "+" => some (a + b)
  | "-" => some (a - b)
  | "*" => some (a * b)
  | "/" => if b = 0 then none else some (Int.tdiv a b)
  | "%" => if b = 0 then none else some (Int.tmod a b)
  | "==" => some (truth (a == b))
  | "!=" => some (truth (a != b))
  | "<" => some (truth (a < b))
  | "<=" => some (truth (a ≤ b))
  | ">" => some (truth (b < a))
  | ">=" => some (truth (b ≤ a))
  | "&&" => some (truth (a != 0 && b != 0))
  | "||" => some (truth (a != 0 || b != 0))
  | _ => none

mutual

/-- An operand: a number, a name, a sign with its operand, or an expression in brackets. -/
def operand (look : String → Int) : Nat → List Token → Option (Int × List Token)
  | fuel + 1, .mark m :: rest =>
    match m with
    | "-" => (operand look fuel rest).map fun (i, rest) => (-i, rest)
    | "+" => operand look fuel rest
    | "!" => (operand look fuel rest).map fun (i, rest) => (truth (i == 0), rest)
    | "(" => do
      let (i, rest) ← operation look fuel 0 rest
      match rest with
      | .mark ")" :: rest => return (i, rest)
      | _ => none
    | _ => none
  | _ + 1, .number i :: rest => some (i, rest)
  | _ + 1, .name s :: rest => some (look s, rest)
  | _, _ => none

/-- An operand and the operations after it that bind more strongly than `least`. -/
def operation (look : String → Int) : Nat → Nat → List Token → Option (Int × List Token)
  | 0, _, _ => none
  | fuel + 1, least, ts => do
    let (i, rest) ← operand look fuel ts
    operations look fuel least i rest

/-- The operations after a value that bind more strongly than `least`. -/
def operations (look : String → Int) : Nat → Nat → Int → List Token →
    Option (Int × List Token)
  | fuel + 1, least, a, .mark m :: rest =>
    match strength? m with
    | some s =>
      if least < s then do
        let (b, rest) ← operation look fuel s rest
        operations look fuel least (← apply m a b) rest
      else some (a, .mark m :: rest)
    | none => some (a, .mark m :: rest)
  | _, _, a, rest => some (a, rest)

end

/-- The value of an expression, with the texts of variables. -/
def value? (text? : String → Option Octets) (e : Octets) : Option Int := do
  let ts ← tokens (e.length + 1) e
  if ts.isEmpty then return 0
  let look (name : String) : Int := ((text? name).bind Octets.integer?).getD 0
  match ← operation look (2 * ts.length + 2) 0 ts with
  | (i, []) => return i
  | _ => none

end StageLens.Shell.Arithmetic
