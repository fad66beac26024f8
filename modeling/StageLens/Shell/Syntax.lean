import StageLens.Text.Octets

/-!
# The commands of the shell

A script is a run of commands. A word is kept in parts, since only what is not quoted is split into
fields and matched against file names. The text of a command substitution is kept as it stands and
read when it is run.
-/

namespace StageLens.Shell

/-- What stands for the value of a parameter. -/
inductive Rule where
  | plain
  /-- Another word if the parameter is not set, or, with `empty`, if it has no text. -/
  | fallback (empty : Bool) (word : Octets)
  /-- Another word if the parameter is set, and, with `empty`, has some text. -/
  | alternative (empty : Bool) (word : Octets)
  /-- The length of the value. -/
  | size
  /-- A form that there is not, which is refused when it is expanded. -/
  | unknown
  deriving DecidableEq, Repr

/-- A part of a word. -/
inductive Part where
  | text (o : Octets) (quoted : Bool)
  | parameter (name : String) (rule : Rule) (quoted : Bool)
  /-- What a script prints. -/
  | printed (script : Octets) (quoted : Bool)
  /-- The value of an arithmetic expression. -/
  | computed (expression : Octets) (quoted : Bool)
  deriving DecidableEq, Repr

abbrev Word := List Part

namespace Word

/-- The text of a word that is neither quoted nor expanded. -/
def bare? : Word → Option Octets
  | [] => some []
  | .text o false :: rest => (bare? rest).map (o ++ ·)
  | _ => none

end Word

/-- Where a descriptor is sent. -/
inductive Target where
  | read (w : Word)
  | write (w : Word)
  | append (w : Word)
  /-- To where another descriptor goes, or nowhere. -/
  | same (w : Word)
  deriving DecidableEq, Repr

structure Redirection where
  descriptor : Nat
  target : Target
  deriving DecidableEq, Repr

/-- A command with its arguments. -/
structure Simple where
  /-- The line it starts on. -/
  line : Nat
  assignments : List (String × Word) := []
  words : List Word := []
  redirections : List Redirection := []
  deriving DecidableEq, Repr

inductive Command where
  | simple (c : Simple)
  | pipe (left right : Command)
  | negated (c : Command)
  /-- The second if the first succeeds. -/
  | both (left right : Command)
  /-- The second if the first fails. -/
  | either (left right : Command)
  | sequence (left right : Command)
  | background (c : Command)
  | subshell (c : Command)
  | choice (condition yes no : Command)
  /-- Repeat while the condition succeeds, or, with `stop`, until it does. -/
  | loop (stop : Bool) (condition body : Command)
  /-- For each field of the words, or of the arguments if there are none. -/
  | each (name : String) (words : Option (List Word)) (body : Command)
  /-- The body of the first arm with a pattern that the word matches. -/
  | select (word : Word) (arms : List (List Word × Command))
  | define (name : String) (body : Command)
  | redirected (c : Command) (redirections : List Redirection)
  | nothing
  deriving Inhabited

end StageLens.Shell
