import StageLens.Config.Basic
import StageLens.Number.Power

/-!
# Socket addresses

An address is four bytes or eight groups of sixteen bits, with a port; the second kind may have a
scope. `Address.ofText?` reads the written forms, and `Address.text` writes the canonical one, in
which the longest run of zero groups is left out.
-/

namespace StageLens

/-- An address to listen on. -/
inductive Address where
  | four (bytes : List Nat) (port : Nat)
  | six (groups : List Nat) (scope port : Nat)
  deriving DecidableEq, Repr

namespace Address

/-- What reads one thing at the front of the input. -/
abbrev Scan (α : Type) := List Char → Option (α × List Char)

def digitOf (base : Nat) (c : Char) : Option Nat :=
  let v :=
    if c.isDigit then c.toNat - '0'.toNat
    else if 'a' ≤ c ∧ c ≤ 'f' then c.toNat - 'a'.toNat + 10
    else if 'A' ≤ c ∧ c ≤ 'F' then c.toNat - 'A'.toNat + 10
    else base
  if v < base then some v else none

/-- A number in a base, below a bound. With `width` it has at most so many digits; with `bare` it
has no zero in front. -/
def number (base : Nat) (width : Option Nat) (bare : Bool) (bound : Nat) : Scan Nat := fun cs =>
  let (ds, rest) := cs.span fun c => (digitOf base c).isSome
  let value := ds.foldl (fun n c => n * base + (digitOf base c).getD 0) 0
  let fits := match width with
    | some w => ds.length ≤ w
    | none => true
  if ds.isEmpty || !fits || (bare && ds.length > 1 && ds.head? == some '0') || bound ≤ value then none
  else some (value, rest)

/-- The given character. -/
def mark (c : Char) : Scan Unit
  | d :: rest => if d = c then some ((), rest) else none
  | [] => none

/-- Four decimal bytes with points between them. -/
def fourBytes : Scan (List Nat) := fun cs => do
  let byte := number 10 (some 3) true 256
  let (a, cs) ← byte cs
  let ((), cs) ← mark '.' cs
  let (b, cs) ← byte cs
  let ((), cs) ← mark '.' cs
  let (c, cs) ← byte cs
  let ((), cs) ← mark '.' cs
  let (d, cs) ← byte cs
  return ([a, b, c, d], cs)

/-- Up to `room` groups with colons between them, and whether four decimal bytes stand in for the
last two. -/
def groups (first : Bool) : Nat → List Char → List Nat × Bool × List Char
  | 0, cs => ([], false, cs)
  | room + 1, cs =>
    match if first then some ((), cs) else mark ':' cs with
    | none => ([], false, cs)
    | some ((), inner) =>
      match if room = 0 then none else fourBytes inner with
      | some ([a, b, c, d], rest) => ([a * 256 + b, c * 256 + d], true, rest)
      | _ =>
        match number 16 (some 4) false 65536 inner with
        | none => ([], false, cs)
        | some (g, rest) =>
          let (gs, quad, rest) := groups false room rest
          (g :: gs, quad, rest)

/-- Eight groups; two colons stand for as many zero groups as are missing, at least one. -/
def eightGroups : Scan (List Nat) := fun cs =>
  let (head, quad, rest) := groups true 8 cs
  if head.length = 8 then some (head, rest)
  else if quad then none
  else
    match rest with
    | ':' :: ':' :: rest =>
      let (tail, _, rest) := groups true (8 - (head.length + 1)) rest
      some (head ++ List.replicate (8 - head.length - tail.length) 0 ++ tail, rest)
    | _ => none

def portNumber : Scan Nat := number 10 none false 65536

def scopeNumber : Scan Nat := fun cs =>
  match cs with
  | '%' :: rest => number 10 none false (Number.pow2 32) rest
  | _ => some (0, cs)

def readFour : Scan Address := fun cs => do
  let (bytes, cs) ← fourBytes cs
  let ((), cs) ← mark ':' cs
  let (port, cs) ← portNumber cs
  return (.four bytes port, cs)

def readSix : Scan Address := fun cs => do
  let ((), cs) ← mark '[' cs
  let (groups, cs) ← eightGroups cs
  let (scope, cs) ← scopeNumber cs
  let ((), cs) ← mark ']' cs
  let ((), cs) ← mark ':' cs
  let (port, cs) ← portNumber cs
  return (.six groups scope port, cs)

/-- The address that a text writes. -/
def ofText? (text : String) : Option Address :=
  let whole (r : Option (Address × List Char)) : Option Address :=
    match r with
    | some (a, []) => some a
    | _ => none
  (whole (readFour text.toList)).or (whole (readSix text.toList))

/-- Four bytes as a text. -/
def fourText (bytes : List Nat) : String := ".".intercalate (bytes.map toString)

def groupText (g : Nat) : String := String.ofList (Nat.toDigits 16 g)

def groupsText (gs : List Nat) : String := ":".intercalate (gs.map groupText)

/-- The longest run of zero groups, the first of equally long ones: where it starts and how long it
is. `place` is that of the list's head and `run` how many zeros stand right before it. -/
def longestZeros (place run : Nat) (best : Nat × Nat) : List Nat → Nat × Nat
  | [] => best
  | g :: gs =>
    if g = 0 then
      let run := run + 1
      let best := if best.2 < run then (place + 1 - run, run) else best
      longestZeros (place + 1) run best gs
    else longestZeros (place + 1) 0 best gs

/-- Eight groups as a text. Groups that stand for four bytes show these. -/
def sixText (gs : List Nat) : String :=
  match gs with
  | [0, 0, 0, 0, 0, 0xFFFF, a, b] =>
    "::ffff:" ++ fourText [a / 256, a % 256, b / 256, b % 256]
  | _ =>
    let (start, length) := longestZeros 0 0 (0, 0) gs
    if 1 < length then groupsText (gs.take start) ++ "::" ++ groupsText (gs.drop (start + length))
    else groupsText gs

/-- The canonical text. -/
def text : Address → String
  | four bytes port => fourText bytes ++ ":" ++ toString port
  | six gs scope port =>
    "[" ++ sixText gs ++ (if scope = 0 then "" else "%" ++ toString scope) ++ "]:" ++ toString port

end Address

/-- The address that the server listens on, where the environment may set another text. -/
def Config.address (c : Config) (fromEnvironment : Option String) : Except Config.Failure Address :=
  let text := fromEnvironment.getD c.bind
  match Address.ofText? text with
  | some a => .ok a
  | none => .error (.address text)

end StageLens
