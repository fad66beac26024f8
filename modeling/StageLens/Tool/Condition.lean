import StageLens.Tool.Basic

/-!
# Conditions

Conditions on texts, numbers and files. The status of a program that asks for one is 0 if it holds,
1 if it does not and 2 if it cannot be read.
-/

namespace StageLens.Tool

/-- Whether something holds of one operand. -/
def unary? (h : Host) (operator : String) (o : Octets) : Option Bool :=
  let path := o.toBytes
  match operator with
  | "-n" => some !o.isEmpty
  | "-z" => some o.isEmpty
  | "-e" | "-r" | "-w" => some (h.exists? path)
  | "-f" => some (h.isFile path)
  | "-d" => some (h.isDirectory path)
  | "-s" => some (h.isDirectory path || match h.read path with
      | .ok contents => !contents.isEmpty
      | .error _ => false)
  | "-x" => some (match h.node? path with
      | some (.file _ executable) => executable
      | some (.tool _) | some .directory => true
      | _ => false)
  | _ => none

/-- A relation between numbers. -/
def relation? (operator : String) : Option (Int → Int → Bool) :=
  match operator with
  | "-eq" => some fun a b => a == b
  | "-ne" => some fun a b => a != b
  | "-lt" => some fun a b => a < b
  | "-le" => some fun a b => a ≤ b
  | "-gt" => some fun a b => b < a
  | "-ge" => some fun a b => b ≤ a
  | _ => none

/-- Whether something holds of two operands, or why it cannot be asked. -/
def binary? (operator : String) (a b : Octets) : Option (Except Octets Bool) :=
  match operator with
  | "=" => some (.ok (a == b))
  | "!=" => some (.ok (a != b))
  | _ =>
    (relation? operator).map fun r =>
      match Octets.integer? a, Octets.integer? b with
      | some x, some y => .ok (r x y)
      | none, _ => .error ("Illegal number: ".toList ++ a)
      | _, none => .error ("Illegal number: ".toList ++ b)

/-- A condition without connectives. -/
def simpleCondition (h : Host) : List Octets → Except Octets Bool
  | [] => .ok false
  | [o] => .ok !o.isEmpty
  | [operator, o] =>
    match unary? h (String.ofList operator) o with
    | some holds => .ok holds
    | none => .error (operator ++ ": unexpected operator".toList)
  | [a, operator, b] =>
    match binary? (String.ofList operator) a b with
    | some answer => answer
    | none => .error (a ++ ": unexpected operator".toList)
  | _ :: operator :: _ => .error (operator ++ ": unexpected operator".toList)

/-- The runs of words between these words. -/
def splitWords (separator : Octets) : List Octets → List (List Octets)
  | [] => [[]]
  | w :: ws =>
    if w = separator then [] :: splitWords separator ws
    else match splitWords separator ws with
      | [] => [[w]]
      | run :: runs => (w :: run) :: runs

/-- A condition that may be negated. -/
def negatable (h : Host) (words : List Octets) : Except Octets Bool :=
  match words with
  | ['!'] :: a :: rest => (simpleCondition h (a :: rest)).map (!·)
  | _ => simpleCondition h words

/-- A condition: alternatives of conjunctions. With at most three words there are no connectives. -/
def condition (h : Host) (words : List Octets) : Except Octets Bool := do
  if words.length ≤ 3 then return ← negatable h words
  let alternatives ← (splitWords ['-', 'o'] words).mapM fun ws => do
    let all ← (splitWords ['-', 'a'] ws).mapM (negatable h)
    return all.all (·)
  return alternatives.any (·)

/-- Ask for a condition; called by the name of a bracket it ends with the other one. -/
def test (spoken name : Octets) (words : List Octets) : Job Unit := do
  let bracket := name = ['[']
  if bracket && words.getLast? != some [']'] then
    fail 2 (spoken ++ ": missing ]".toList)
  else
    match condition (← get).host (if bracket then words.dropLast else words) with
    | .ok holds => setStatus (if holds then 0 else 1)
    | .error reason => fail 2 (spoken ++ ": ".toList ++ reason)

end StageLens.Tool
