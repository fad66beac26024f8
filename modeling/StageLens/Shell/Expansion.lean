import StageLens.Shell.Arithmetic
import StageLens.Shell.State
import StageLens.Shell.Token

/-!
# Expansion

What words stand for. Parameters and the output of scripts are put in their places; what is not
quoted is then split at blanks, and fields with wild characters become the names of the files that
they match.
-/

namespace StageLens.Shell

/-- What there is to do: the commands of a script, one command, or a program with its words. -/
inductive Task where
  | script (o : Octets)
  | command (c : Command)
  | program (words : List Octets)

/-- Whatever does all tasks. -/
abbrev Perform := Task → Effect Unit

/-- A piece of a word in which everything has been put in its place. -/
inductive Item where
  /-- A character; fields end at it if it is a blank and soft. -/
  | char (m : Mark) (soft : Bool)
  /-- A place where there is a field even if it is empty. -/
  | field
  /-- A place where a field ends. -/
  | cut

namespace Item

def ofText (o : Octets) (quoted : Bool) : List Item := o.map fun c => .char ⟨c, quoted⟩ false

def ofValue (o : Octets) (quoted : Bool) : List Item := o.map fun c => .char ⟨c, quoted⟩ !quoted

def isBlank (c : Char) : Bool := c = ' ' || c = '\t' || c = '\n'

/-- The fields; `current` is the one that has begun, its last character first. -/
def fields : Option Pattern → List Item → List Pattern
  | current, [] => (current.map List.reverse).toList
  | current, .cut :: rest => (current.map List.reverse).toList ++ fields none rest
  | current, .field :: rest => fields (some (current.getD [])) rest
  | current, .char m soft :: rest =>
    if soft && isBlank m.char then (current.map List.reverse).toList ++ fields none rest
    else fields (some (m :: current.getD [])) rest

/-- The characters without a split. -/
def whole (items : List Item) : Pattern :=
  items.filterMap fun i => match i with
    | .char m _ => some m
    | .cut => some ⟨' ', true⟩
    | .field => none

end Item

/-! ## File names -/

/-- The components of a pattern of paths. -/
def components : Pattern → List Pattern
  | [] => [[]]
  | m :: rest =>
    if m.char = '/' then [] :: components rest
    else match components rest with
      | [] => [[m]]
      | c :: cs => (m :: c) :: cs

/-- The names in a directory that a pattern accepts, in the order of their bytes. A name that starts
with a dot is matched by a pattern that starts with one. -/
def namesMatching (h : Host) (directory : Octets) (p : Pattern) : List Octets :=
  let place : Octets := if directory.isEmpty then ['.'] else directory
  let names := ((h.entries place.toBytes).toOption.getD []).map Octets.ofBytes
  let hidden := (p.head?.map Mark.char) == some '.'
  let fitting := names.filter fun n => p.accepts n && (hidden || n.head? != some '.')
  fitting.mergeSort Octets.isBefore

/-- The paths that the components of a pattern match below a directory. -/
def pathsMatching (h : Host) (directory : Octets) : List Pattern → List Octets
  | [] => []
  | [p] =>
    if p.isWild then (namesMatching h directory p).map (directory ++ ·)
    else
      let path := directory ++ p.text
      if h.exists? path.toBytes then [path] else []
  | p :: q :: rest =>
    if p.isWild then
      (namesMatching h directory p).flatMap fun n =>
        pathsMatching h (directory ++ n ++ ['/']) (q :: rest)
    else pathsMatching h (directory ++ p.text ++ ['/']) (q :: rest)

/-- The words that a field stands for. -/
def wordsOf (h : Host) (field : Pattern) : List Octets :=
  if field.isWild then
    match pathsMatching h [] (components field) with
    | [] => [field.text]
    | paths => paths
  else [field.text]

/-! ## Words -/

namespace Effect

/-- The value of a parameter with a single value. -/
def parameter? (name : String) : Effect (Option Octets) := do
  let s ← get
  let number (n : Nat) : Octets := (toString n).toList
  match name with
  | "#" => return some (number s.arguments.length)
  | "?" => return some (number s.status)
  | "$" => return some (number s.pid)
  | "!" => return s.jobs.head?.map fun j => number j.pid
  | "-" => return some []
  | "0" => return some s.name
  | "@" | "*" => return if s.arguments.isEmpty then none else some ([' '].intercalate s.arguments)
  | _ =>
    match Octets.digits? 10 name.toList with
    | some n => return s.arguments[n - 1]?
    | none => value? name

/-- What a script prints, without the line ends at its end. -/
def printedBy (perform : Perform) (script : Octets) : Effect Octets := do
  let n ← newSink
  let ended ← fork do
    setHandle 1 (some (.sink n))
    perform (.script script)
  let (text, complete) ← contentsOf n
  modify fun s => { s with clock := complete, status := ended.status }
  return ((text.filter (·.toNat ≠ 0)).reverse.dropWhile (· = '\n')).reverse

/-- The arguments, each a field of its own. -/
def argumentItems (quoted : Bool) : Effect (List Item) := do
  let one (o : Octets) : List Item :=
    (if quoted then [Item.field] else []) ++ Item.ofValue o quoted
  return [Item.cut].intercalate ((← get).arguments.map one)

/-- The text in place of a parameter, which may be a word of its own. -/
def ruled (inside : Octets → Effect Octets) (rule : Rule) (value : Option Octets) :
    Effect Octets := do
  let hasText := match value with
    | some (_ :: _) => true
    | _ => false
  match rule with
  | .plain => return value.getD []
  | .size => return (toString (value.getD []).length).toList
  | .fallback empty word =>
    if (if empty then hasText else value.isSome) then return value.getD [] else inside word
  | .alternative empty word =>
    if (if empty then hasText else value.isSome) then inside word else return []
  | .unknown =>
    complain "Bad substitution".toList
    throw (.exit 2)

/-- The value of an arithmetic expression. -/
def computed (e : Octets) : Effect Octets := do
  let s ← get
  let value? (name : String) : Option Octets :=
    (s.hidden.lookup name).or ((s.host.valueOf? name).map Octets.ofBytes)
  match Arithmetic.value? value? e with
  | some i => return (toString i).toList
  | none =>
    complain ("arithmetic expression: expecting primary: \"".toList ++ e ++ ['"'])
    throw (.exit 2)

/-- What a part stands for; `inside` expands the word inside a parameter. -/
def itemsOfPart (perform : Perform) (inside : Octets → Effect Octets) :
    Part → Effect (List Item)
  | .text o quoted => return (if quoted then [Item.field] else []) ++ Item.ofText o quoted
  | .printed script quoted => return Item.ofValue (← printedBy perform script) quoted
  | .computed e quoted => return Item.ofValue (← computed (← inside e)) quoted
  | .parameter name rule quoted => do
    if rule == .plain && (name == "@" || (name == "*" && !quoted)) then argumentItems quoted
    else return Item.ofValue (← ruled inside rule (← parameter? name)) quoted

def items (perform : Perform) (inside : Octets → Effect Octets) (w : Word) :
    Effect (List Item) := do
  return (← w.mapM (itemsOfPart perform inside)).flatten

/-- Expand the word inside a parameter, as far as `depth` parameters into each other. -/
def inside (perform : Perform) : Nat → Octets → Effect Octets
  | 0, _ => return []
  | depth + 1, o => do
    match Token.parts (o.length + 2) true (o ++ ['"']) with
    | .ok (w, _) => return Pattern.text (Item.whole (← items perform (inside perform depth) w))
    | .error _ => return o

/-- How deep parameters can stand inside each other. -/
def depthLimit : Nat := 16

def itemsOf (perform : Perform) (w : Word) : Effect (List Item) :=
  items perform (inside perform depthLimit) w

/-- A word as one pattern, without a split. -/
def pattern (perform : Perform) (w : Word) : Effect Pattern :=
  return Item.whole (← itemsOf perform w)

/-- A word as one text, without a split. -/
def text (perform : Perform) (w : Word) : Effect Octets := return (← pattern perform w).text

/-- Whether a word is nothing but the arguments, each a field, in quotes. -/
def isArguments (w : Word) : Bool :=
  w == [.text [] true, .parameter "@" .plain true, .text [] true]

/-- The words that a word stands for. -/
def words (perform : Perform) (w : Word) : Effect (List Octets) := do
  if isArguments w then return (← get).arguments
  let fields := Item.fields none (← itemsOf perform w)
  let host := (← get).host
  return fields.flatMap (wordsOf host)

end Effect

end StageLens.Shell
