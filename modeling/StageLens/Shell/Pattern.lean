import StageLens.Text.Octets

/-!
# Patterns

A pattern is a text in which a star stands for any text, a question mark for one character and
brackets for one character of a set, unless they are quoted.
-/

namespace StageLens.Shell

/-- A character and whether it is quoted. -/
structure Mark where
  char : Char
  quoted : Bool
  deriving DecidableEq, Repr

/-- A run of marked characters: a pattern, or a field that may be one. -/
abbrev Pattern := List Mark

namespace Pattern

def text (p : Pattern) : Octets := p.map Mark.char

def isBare (c : Char) (m : Mark) : Bool := m.char == c && !m.quoted

/-- Whether a pattern stands for other texts than its own. -/
def isWild (p : Pattern) : Bool := p.any fun m => isBare '*' m || isBare '?' m || isBare '[' m

/-- The set of a bracket and what follows it, from what follows the opening bracket. -/
def set? (p : Pattern) : Option ((Char → Bool) × Pattern) :=
  let negated := match p with
    | m :: _ => isBare '!' m || isBare '^' m
    | [] => false
  let p := if negated then p.drop 1 else p
  -- A closing bracket that stands first belongs to the set.
  let inside := p.take 1 ++ (p.drop 1).takeWhile fun m => !isBare ']' m
  match p.drop inside.length with
  | [] => none
  | _ :: rest => some (fun c => Octets.inRanges c (text inside) != negated, rest)

/-- Whether one of the ways to read the pattern gives this text; every step goes on in one of
them. -/
def acceptsFrom : Nat → Pattern → Octets → Bool
  | 0, p, o => p.isEmpty && o.isEmpty
  | _ + 1, [], o => o.isEmpty
  | fuel + 1, m :: p, o =>
    if isBare '*' m then
      acceptsFrom fuel p o || match o with
        | _ :: o => acceptsFrom fuel (m :: p) o
        | [] => false
    else match o with
      | [] => false
      | c :: o =>
        if isBare '?' m then acceptsFrom fuel p o
        else match (if isBare '[' m then set? p else none) with
          | some (has, p) => has c && acceptsFrom fuel p o
          | none => m.char == c && acceptsFrom fuel p o

def accepts (p : Pattern) (o : Octets) : Bool := acceptsFrom (p.length + o.length + 1) p o

end Pattern

end StageLens.Shell
