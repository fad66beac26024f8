import StageLens.Host.Basic
import StageLens.Journal.Event
import StageLens.Process.Invocation
import StageLens.Process.Output

/-!
# Runners

A runner says what becomes of an invocation on a host: how the run ends, if it does, and how long
it takes. What a run writes to files is there from its start on.
-/

namespace StageLens

/-- How a run ends: with an output, or without an exit status. -/
abbrev Ending := Except Failure Output

/-- What becomes of one invocation. -/
structure Run where
  /-- How the run ends; none if it never does by itself. -/
  ending : Option Ending
  /-- How long it takes, in nanoseconds. -/
  duration : Nat := 0
  host : Host
  /-- What is reported when the run starts. -/
  opening : List Event := []
  /-- What is reported when it ends. -/
  closing : List Event := []

/-- Everything that can run invocations. -/
abbrev Runner := Invocation → Host → Run

end StageLens
