import StageLens.Tool.Files

/-!
# Editing

Programs that pass text on with some of it changed: characters for characters, or what an expression
matches for something else. Expressions have characters, dots, sets in brackets, anchors and stars.
-/

namespace StageLens.Tool

/-! ## Characters -/

/-- The characters of a set: ranges are written out and sequences are read. -/
def setOf : Nat → Octets → Octets
  | 0, _ => []
  | _ + 1, [] => []
  | fuel + 1, a :: '-' :: b :: rest =>
    (List.range (b.toNat + 1 - a.toNat)).map (fun n => Char.ofNat (a.toNat + n)) ++
      setOf fuel rest
  | fuel + 1, '\\' :: c :: rest =>
    (match c with
      | 'n' => '\n'
      | 't' => '\t'
      | 'r' => '\r'
      | '0' => Char.ofNat 0
      | c => c) :: setOf fuel rest
  | fuel + 1, c :: rest => c :: setOf fuel rest

/-- The character at the place of another one; the last one stands for all places after it. -/
def exchanged (old new : Octets) (c : Char) : Char :=
  match old.idxOf? c with
  | some i => (new[i]?).getD (new.getLast?.getD c)
  | none => c

def tr (arguments : List Octets) : Job Unit := do
  let (flags, sets) := splitFlags arguments
  let set (o : Octets) : Octets := setOf (o.length + 1) o
  match flags.contains 'd', sets with
  | true, [gone] =>
    let text ← readInput
    print (text.filter fun c => !(set gone).contains c)
  | false, [old, new] =>
    let text ← readInput
    print (text.map (exchanged (set old) (set new)))
  | _, _ => fail 1 "tr: missing operand".toList

/-! ## Expressions -/

/-- What an expression matches one after the other. -/
inductive Atom where
  | one (has : Char → Bool)
  /-- As many of these characters as possible. -/
  | repeated (has : Char → Bool)
  | first
  | last

/-- The characters that stand next in an expression, and the rest of it. -/
def single? : Octets → Option ((Char → Bool) × Octets)
  | [] => none
  | '.' :: rest => some (fun _ => true, rest)
  | '\\' :: 'n' :: rest => some (fun c => c == '\n', rest)
  | '\\' :: d :: rest => some (fun c => c == d, rest)
  | '[' :: rest =>
    let negated := rest.head? == some '^'
    let rest := if negated then rest.drop 1 else rest
    let inside := rest.take 1 ++ (rest.drop 1).takeWhile (· ≠ ']')
    match rest.drop inside.length with
    | [] => none
    | _ :: rest => some (fun c => Octets.inRanges c inside != negated, rest)
  | d :: rest => some (fun c => c == d, rest)

/-- The atoms of an expression. -/
def atomsFrom : Nat → Octets → Option (List Atom)
  | 0, _ => none
  | _ + 1, [] => some []
  | _ + 1, ['$'] => some [.last]
  | fuel + 1, o =>
    match single? o with
    | none => none
    | some (has, '*' :: rest) => (atomsFrom fuel rest).map (.repeated has :: ·)
    | some (has, rest) => (atomsFrom fuel rest).map (.one has :: ·)

def atoms? (o : Octets) : Option (List Atom) :=
  match o with
  | '^' :: rest => (atomsFrom (rest.length + 1) rest).map (.first :: ·)
  | _ => atomsFrom (o.length + 1) o

/-- How many characters the atoms match at this place. `start` says whether the line starts here. -/
def matched (start : Bool) : List Atom → Octets → Option Nat
  | [], _ => some 0
  | .first :: rest, o => if start then matched start rest o else none
  | .last :: rest, o => if o.isEmpty then matched start rest o else none
  | .one has :: rest, o =>
    match o with
    | c :: cs => if has c then (matched false rest cs).map (· + 1) else none
    | [] => none
  | .repeated has :: rest, o =>
    let most := (o.takeWhile has).length
    (List.range (most + 1)).reverse.findSome? fun n =>
      (matched (start && n == 0) rest (o.drop n)).map (· + n)

/-- What stands for a match. -/
def replacement (whole : Octets) : Octets → Octets
  | '\\' :: 'n' :: rest => '\n' :: replacement whole rest
  | '\\' :: c :: rest => c :: replacement whole rest
  | '&' :: rest => whole ++ replacement whole rest
  | c :: rest => c :: replacement whole rest
  | [] => []

/-- A substitution: what it looks for, what it writes, and which matches it replaces. -/
structure Substitution where
  atoms : List Atom
  new : Octets
  all : Bool
  prints : Bool

/-- The line with matches replaced from this place on, and whether there were any. `start` says
whether the line starts here, and `touching` whether a match has just ended here. -/
def substitute (s : Substitution) : Nat → Bool → Bool → Octets → Octets × Bool
  | 0, _, _, o => (o, false)
  | fuel + 1, start, touching, o =>
    let skip : Octets × Bool := match o with
      | [] => ([], false)
      | c :: cs =>
        let (rest, found) := substitute s fuel false false cs
        (c :: rest, found)
    match matched start s.atoms o with
    | none => skip
    | some 0 =>
      if touching then skip
      else
        let new := replacement [] s.new
        if s.all then (new ++ skip.1, true) else (new ++ o, true)
    | some n =>
      let new := replacement (o.take n) s.new
      if s.all then (new ++ (substitute s fuel false true (o.drop n)).1, true)
      else (new ++ o.drop n, true)

/-- The text up to the next separator that no backslash protects, and what follows it. -/
def upTo? (separator : Char) : Octets → Option (Octets × Octets)
  | [] => none
  | '\\' :: c :: rest =>
    (upTo? separator rest).map fun (part, rest) =>
      (if c = separator then c :: part else '\\' :: c :: part, rest)
  | c :: rest =>
    if c = separator then some ([], rest)
    else (upTo? separator rest).map fun (part, rest) => (c :: part, rest)

inductive Edit where
  | substitute (s : Substitution)
  | print
  | delete

/-- The edit that stands next in a script, and the rest. -/
def edit? : Octets → Option (Edit × Octets)
  | 'p' :: rest => some (.print, rest)
  | 'd' :: rest => some (.delete, rest)
  | 's' :: separator :: rest => do
    let (old, rest) ← upTo? separator rest
    let (new, rest) ← upTo? separator rest
    let flags := rest.takeWhile Char.isAlphanum
    return (.substitute ⟨← atoms? old, new, flags.contains 'g', flags.contains 'p'⟩,
      rest.drop flags.length)
  | _ => none

/-- The edits of a script, or the place where it cannot be read. -/
def edits (size : Nat) : Nat → Octets → Except Nat (List Edit)
  | 0, _ => .ok []
  | fuel + 1, o =>
    match o.dropWhile fun c => c = ';' || c = ' ' || c = '\n' with
    | [] => .ok []
    | o =>
      match edit? o with
      | none => .error (size - o.length + 1)
      | some (e, rest) => (edits size fuel rest).map (e :: ·)

/-- What becomes of a line, and what is printed besides; none if the line is deleted. -/
def edited (e : List Edit) (line : Octets) : List Octets × Option Octets :=
  e.foldl (fun (printed, line) e =>
    match e, line with
    | _, none => (printed, none)
    | .delete, some _ => (printed, none)
    | .print, some o => (printed ++ [o], some o)
    | .substitute s, some o =>
      let (o, found) := substitute s (o.length + 1) true false o
      (if found && s.prints then printed ++ [o] else printed, some o)) ([], some line)

/-- The script and the files of an editing program, and whether it prints by request only. -/
def sedOperands : List Octets → Bool × List Octets × List Octets
  | ['-', 'n'] :: rest =>
    let (_, scripts, paths) := sedOperands rest
    (true, scripts, paths)
  | ['-', 'e'] :: script :: rest =>
    let (quiet, scripts, paths) := sedOperands rest
    (quiet, script :: scripts, paths)
  | rest => (false, [], rest)

def sed (arguments : List Octets) : Job Unit := do
  let (quiet, scripts, operands) := sedOperands arguments
  let (script, paths) := if scripts.isEmpty then (operands.headD [], operands.drop 1)
    else (['\n'].intercalate scripts, operands)
  match edits script.length (script.length + 1) script with
  | .error place =>
    fail 1 ("sed: -e expression #1, char ".toList ++ decimal place ++
      ": unknown command: ".toList ++ quoted ((script.drop (place - 1)).take 1))
  | .ok es =>
    let mut text : Octets := []
    for path in orInput paths do
      match ← readFile path with
      | .ok more => text := text ++ more
      | .error e => fail 2 ("sed: can't read ".toList ++ path ++ ": ".toList ++ ofError e)
    let shown := (Octets.lines text).map fun line =>
      let (printed, rest) := edited es line
      ((printed ++ if quiet then [] else rest.toList).map (· ++ ['\n'])).flatten
    -- The last line keeps its end as it was.
    let last := shown.getLastD []
    print (shown.dropLast.flatten ++
      if text.getLast? == some '\n' then last else last.dropLast)

end StageLens.Tool
