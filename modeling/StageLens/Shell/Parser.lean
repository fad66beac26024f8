import StageLens.Shell.Token

/-!
# Reading commands

Commands are read one line at a time, as far as their brackets and keywords go, so that a fault on a
later line comes after what stands before it has been run. A keyword counts only where a command can
start. `Command.next` reads the next complete command of a script.
-/

namespace StageLens.Shell

/-- Why a script cannot be read on. -/
structure Fault where
  line : Nat
  reason : String
  deriving DecidableEq, Repr

/-- A reader of tokens. -/
abbrev Reader := StateT (List Token) (Except Fault)

namespace Reader

def keywords : List String :=
  ["!", "case", "do", "done", "elif", "else", "esac", "fi", "for", "if", "in", "then", "until",
    "while", "\x7b", "\x7d"]

/-- The bare text of a word that stands next. -/
def bare? : List Token → Option String
  | ⟨.word w, _⟩ :: _ => (Word.bare? w).map String.ofList
  | _ => none

/-- The keyword that stands next. -/
def keyword? (ts : List Token) : Option String :=
  (bare? ts).bind fun s => if keywords.contains s then some s else none

def nextLexeme (ts : List Token) : Lexeme :=
  match ts with
  | t :: _ => t.lexeme
  | [] => .finish

def nextLine (ts : List Token) : Nat :=
  match ts with
  | t :: _ => t.line
  | [] => 1

/-- How a fault names what stands next. -/
def nameOf (ts : List Token) (commandPosition : Bool) : String :=
  match nextLexeme ts with
  | .word _ =>
    match keyword? ts, commandPosition with
    | some k, true => "\"" ++ k ++ "\""
    | _, _ => "word"
  | .operator t => "\"" ++ t ++ "\""
  | .redirection _ _ => "redirection"
  | .newline => "newline"
  | .finish | .broken _ => "end of file"

/-- Refuse what stands next. -/
def refuse {α : Type} (commandPosition : Bool) (expected : String) : Reader α := do
  let ts ← get
  let reason := match nextLexeme ts with
    | .broken reason => reason
    | _ => nameOf ts commandPosition ++ " unexpected" ++
      (if expected.isEmpty then "" else " (expecting \"" ++ expected ++ "\")")
  throw ⟨nextLine ts, reason⟩

def advance : Reader Unit := modify List.tail

def peek : Reader Lexeme := return nextLexeme (← get)

def isNext (l : Lexeme) : Reader Bool := return (← peek) == l

/-- Take what stands next if it is this. -/
def accept (l : Lexeme) : Reader Bool := do
  if ← isNext l then
    advance
    return true
  return false

def acceptKeyword (k : String) : Reader Bool := do
  if keyword? (← get) == some k then
    advance
    return true
  return false

def expectKeyword (k : String) : Reader Unit := do
  unless ← acceptKeyword k do refuse true k

def expectOperator (text : String) : Reader Unit := do
  unless ← accept (.operator text) do refuse false text

def skipNewlines : Reader Unit :=
  modify fun ts => ts.dropWhile fun t => t.lexeme == .newline

/-- A word, which has to stand next, or else what is expected after it. -/
def wordBefore (expected : String) : Reader Word := do
  match ← peek with
  | .word w =>
    advance
    return w
  | _ => refuse false expected

def word : Reader Word := wordBefore ""

/-- Repeat a reader that takes something until it returns none. -/
def collect {α : Type} (r : Reader (Option α)) : Nat → Reader (List α)
  | 0 => return []
  | n + 1 => do
    match ← r with
    | none => return []
    | some a => return a :: (← collect r n)

def many {α : Type} (r : Reader (Option α)) : Reader (List α) := do collect r (← get).length

/-- A redirection, if one stands next. -/
def redirection? : Reader (Option Redirection) := do
  match ← peek with
  | .redirection number text =>
    advance
    let w ← word
    let target : Target := match text with
      | "<" | "<>" => .read w
      | ">>" => .append w
      | "<&" | ">&" => .same w
      | _ => .write w
    return some ⟨number.getD (if text.startsWith "<" then 0 else 1), target⟩
  | _ => return none

/-- A name with its value, if the word sets a variable. -/
def assignment? (w : Word) : Option (String × Word) :=
  -- The name stands before the first bare equals sign.
  let isName (p : Part) : Bool := match p with
    | .text [c] false => Token.isNameChar c
    | _ => false
  let name := w.takeWhile isName
  match w.drop name.length with
  | .text ['='] false :: value =>
    match Word.bare? name with
    | some n => if Token.isName n then some (String.ofList n, value) else none
    | none => none
  | _ => none

/-- Words, assignments and redirections, in their order. -/
inductive Piece where
  | word (w : Word)
  | redirection (r : Redirection)

def piece? : Reader (Option Piece) := do
  match ← peek with
  | .word w =>
    advance
    return some (.word w)
  | .redirection _ _ => return (← redirection?).map .redirection
  | _ => return none

/-- Put together a command of the pieces. -/
def simpleOf (line : Nat) (pieces : List Piece) : Simple :=
  let words := pieces.filterMap fun p => match p with
    | .word w => some w
    | .redirection _ => none
  let assigning := words.takeWhile fun w => (assignment? w).isSome
  { line
    assignments := assigning.filterMap assignment?
    words := words.drop assigning.length
    redirections := pieces.filterMap fun p => match p with
      | .redirection r => some r
      | .word _ => none }

/-- A command of words; `self` reads the lines inside brackets. -/
def simpleCommand (self : Reader Command) : Reader Command := do
  let line := nextLine (← get)
  let pieces ← many piece?
  match pieces, ← peek with
  | [], _ => refuse true ""
  | [.word w], .operator "(" =>
    advance
    expectOperator ")"
    match (Word.bare? w).map String.ofList with
    | some name =>
      if Token.isName name.toList then
        skipNewlines
        return .define name (← self)
      else throw ⟨line, "Bad function name"⟩
    | none => throw ⟨line, "Bad function name"⟩
  | pieces, _ => return .simple (simpleOf line pieces)

/-- Whether a list of commands ends here: at a closing bracket or keyword. -/
def isClosed (ts : List Token) : Bool :=
  match nextLexeme ts with
  | .operator t => t == ")" || t == ";;"
  | .finish => true
  | .word _ =>
    match keyword? ts with
    | some k => ["do", "done", "elif", "else", "esac", "fi", "then", "\x7d"].contains k
    | none => false
  | _ => false

/-- The rest of a choice, after its condition has been asked for. -/
def choiceFrom (lines : Reader Command) : Nat → Reader Command
  | 0 => return .nothing
  | n + 1 => do
    let condition ← lines
    expectKeyword "then"
    let yes ← lines
    if ← acceptKeyword "elif" then return .choice condition yes (← choiceFrom lines n)
    let no ← if ← acceptKeyword "else" then lines else pure .nothing
    expectKeyword "fi"
    return .choice condition yes no

/-- The patterns in front of an arm, up to the bracket. -/
def patterns : Reader (List Word) := do
  discard <| accept (.operator "(")
  let first ← wordBefore ")"
  let rest ← many do
    if ← accept (.operator "|") then return some (← wordBefore ")") else return none
  expectOperator ")"
  return first :: rest

/-- One arm of a selection, if it does not end here. -/
def arm? (lines : Reader Command) : Reader (Option (List Word × Command)) := do
  skipNewlines
  if keyword? (← get) == some "esac" then return none
  let ps ← patterns
  skipNewlines
  let body ← if isClosed (← get) then pure .nothing else lines
  unless ← accept (.operator ";;") do
    unless keyword? (← get) == some "esac" do refuse true ";;"
  return some (ps, body)

/-- The words after the name of a loop. -/
def loopWords : Reader (Option (List Word)) := do
  skipNewlines
  if ← acceptKeyword "in" then
    let ws ← many do
      match ← peek with
      | .word w =>
        advance
        return some w
      | _ => return none
    unless ← accept (.operator ";") do
      unless ← accept .newline do refuse false ""
    skipNewlines
    return some ws
  else
    discard <| accept (.operator ";")
    skipNewlines
    return none

def loopBody (lines : Reader Command) : Reader Command := do
  expectKeyword "do"
  let body ← lines
  expectKeyword "done"
  return body

/-- A command without the redirections after its last bracket or keyword. `lines` reads the lines
up to one. -/
def bareCommand (lines : Reader Command) : Reader (Option Command) := do
  match keyword? (← get), ← peek with
  | some "if", _ =>
    advance
    return some (← choiceFrom lines (← get).length)
  | some "while", _ =>
    advance
    let condition ← lines
    return some (.loop false condition (← loopBody lines))
  | some "until", _ =>
    advance
    let condition ← lines
    return some (.loop true condition (← loopBody lines))
  | some "for", _ =>
    advance
    match Word.bare? (← word) with
    | some name =>
      let ws ← loopWords
      return some (.each (String.ofList name) ws (← loopBody lines))
    | none => throw ⟨nextLine (← get), "Bad for loop variable"⟩
  | some "case", _ =>
    advance
    let w ← word
    skipNewlines
    expectKeyword "in"
    let arms ← many (arm? lines)
    expectKeyword "esac"
    return some (.select w arms)
  | some "\x7b", _ =>
    advance
    let body ← lines
    expectKeyword "\x7d"
    return some body
  | none, .operator "(" =>
    advance
    let body ← lines
    expectOperator ")"
    return some (.subshell body)
  | some _, _ => refuse true ""
  | none, _ => return none

/-- A command with its redirections. -/
def command (lines : Reader Command) (self : Reader Command) : Reader Command := do
  match ← bareCommand lines with
  | none => simpleCommand self
  | some c =>
    match ← many redirection? with
    | [] => return c
    | rs => return .redirected c rs

def pipeline (one : Reader Command) : Reader Command := do
  let negated ← acceptKeyword "!"
  let first ← one
  let rest ← many do
    if ← accept (.operator "|") then
      skipNewlines
      return some (← one)
    else return none
  let all := rest.foldl .pipe first
  return if negated then .negated all else all

def chain (one : Reader Command) : Reader Command := do
  let first ← pipeline one
  let rest ← many do
    if ← accept (.operator "&&") then
      skipNewlines
      return some (true, ← pipeline one)
    else if ← accept (.operator "||") then
      skipNewlines
      return some (false, ← pipeline one)
    else return none
  return rest.foldl (fun c (success, next) => if success then .both c next else .either c next)
    first

/-- One chain with what ends it: true if the list may go on. -/
def item (one : Reader Command) : Reader (Command × Bool) := do
  let c ← chain one
  if ← accept (.operator "&") then return (.background c, true)
  if ← accept (.operator ";") then return (c, true)
  return (c, false)

/-- Chains up to a closing bracket or keyword. -/
def linesFrom (one : Reader Command) : Nat → Reader Command
  | 0 => return .nothing
  | n + 1 => do
    skipNewlines
    if isClosed (← get) then return .nothing
    let (c, more) ← item one
    if more || (← isNext .newline) then return .sequence c (← linesFrom one n)
    return c

/-- The lines between brackets or keywords, of which there is at least one command. At the end of
the script it is the bracket that is missed. -/
def lines (one : Reader Command) : Reader Command := do
  skipNewlines
  if isClosed (← get) && !(← isNext .finish) then refuse true ""
  linesFrom one (← get).length

/-- A command whose brackets are nested less than `depth` deep. -/
def nested : Nat → Reader Command
  | 0 => refuse true ""
  | depth + 1 => command (lines (nested depth)) (nested depth)

/-- The chains of one line. -/
def lineFrom (one : Reader Command) : Nat → Reader Command
  | 0 => return .nothing
  | n + 1 => do
    let (c, more) ← item one
    if ← accept .newline then return c
    if ← isNext .finish then return c
    if more then return .sequence c (← lineFrom one n)
    refuse false ""

end Reader

/-- The next complete command of a script, if it goes on. -/
def Command.next (ts : List Token) : Except Fault (Option Command × List Token) :=
  let ts := ts.dropWhile fun t => t.lexeme == .newline
  match Reader.nextLexeme ts with
  | .finish => .ok (none, ts)
  | _ =>
    ((Reader.lineFrom (Reader.nested (ts.length + 1)) ts.length).run ts).map
      fun (c, rest) => (some c, rest)

end StageLens.Shell
