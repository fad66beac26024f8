import StageLens.Process.Runner
import StageLens.Text.Blank

/-!
# Demangling

The demangler is a filter for the output of a stage. It is an improvement and no more: unless it
exits with zero, prints something and is not cut short, the stage keeps the text it had.
-/

namespace StageLens

/-- How the demangler is run. -/
structure Demangler where
  program : Bytes := Text.bytes "swift-demangle"
  arguments : List String := []
  timeout : Duration
  deriving DecidableEq, Repr

namespace Demangler

/-- Whether a text goes to the demangler. -/
def isWanted (eligible requested : Bool) (raw : String) : Bool :=
  eligible && requested && !Text.isBlankText raw

/-- The run that filters a text. -/
def invocation (d : Demangler) (raw : String) : Invocation :=
  { program := d.program, arguments := d.arguments, input := some (Text.bytes raw),
    timeout := d.timeout }

/-- The text that can be used in place of the one the demangler was given. -/
def usable? : Ending → Option String
  | .ok o => if o.success && !o.truncated && !o.stdout.isEmpty then some o.stdout else none
  | .error _ => none

/-- The text of a stage after the demangler has ended. -/
def keep (raw : String) (e : Ending) : String := (usable? e).getD raw

/-- What is reported about the end of the demangler. -/
def report (e : Ending) : List Event :=
  match usable? e, e with
  | some _, _ => []
  | none, .ok o => [.demanglerUnusable o.exitCode o.truncated (Text.trim o.stderr)]
  | none, .error _ => [.demanglerFailed]

/-- Filter one text, and what is reported. None if the demangler never ends. -/
def filter (d : Demangler) (runner : Runner) (h : Host) (eligible requested : Bool)
    (raw : String) : Option (String × List Event) :=
  if isWanted eligible requested raw then
    let run := runner (d.invocation raw) h
    run.ending.map fun e => (keep raw e, run.opening ++ run.closing ++ report e)
  else some (raw, [])

end Demangler

end StageLens
