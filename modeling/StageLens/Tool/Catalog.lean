import StageLens.Number.Power
import StageLens.Tool.Condition
import StageLens.Tool.Editing
import StageLens.Tool.Printing

/-!
# The catalog of programs

Which program of the system has which name. The shell is not among them: it runs the others.
-/

namespace StageLens.Tool

/-- How many nanoseconds a unit of time has. -/
def unit? : Octets → Option Nat
  | [] | ['s'] => some 1000000000
  | ['m'] => some 60000000000
  | ['h'] => some 3600000000000
  | ['d'] => some 86400000000000
  | _ => none

/-- The nanoseconds of a time such as `0.3` or `2m`. -/
def time? (o : Octets) : Option Nat := do
  let whole := o.takeWhile Char.isDigit
  let rest := o.drop whole.length
  let places := match rest with
    | '.' :: rest => rest.takeWhile Char.isDigit
    | _ => []
  let rest := rest.drop (if rest.head? == some '.' then places.length + 1 else 0)
  let digits ← Octets.digits? 10 (whole ++ places)
  return digits * (← unit? rest) / Number.pow10 places.length

def sleep (arguments : List Octets) : Job Unit := do
  if arguments.isEmpty then
    fail 1 "sleep: missing operand\nTry 'sleep --help' for more information.".toList
  else
    match arguments.find? fun a => (time? a).isNone with
    | some a =>
      fail 1 ("sleep: invalid time interval ".toList ++ quoted a ++
        "\nTry 'sleep --help' for more information.".toList)
    | none =>
      let total := (arguments.filterMap time?).foldl Nat.add 0
      modify fun c => { c with elapsed := c.elapsed + total }

/-- What the program of a name does. -/
def job? (name : String) (arguments : List Octets) : Option (Job Unit) :=
  let spoken := name.toList
  match name with
  | "cat" => some (cat arguments)
  | "echo" => some (echo arguments)
  | "false" => some (setStatus 1)
  | "head" => some (head arguments)
  | "ls" => some (ls arguments)
  | "mkdir" => some (mkdir arguments)
  | "printf" => some (printf spoken arguments)
  | "pwd" => some pwd
  | "rm" => some (rm arguments)
  | "sed" => some (sed arguments)
  | "sleep" => some (sleep arguments)
  | "test" | "[" => some (test spoken spoken arguments)
  | "touch" => some (touch arguments)
  | "tr" => some (tr arguments)
  | "true" => some (pure ())
  | "wc" => some (wc arguments)
  | _ => none

end StageLens.Tool
