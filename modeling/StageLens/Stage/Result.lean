import StageLens.Stage.Basic
import StageLens.Text.ShellWords

/-!
# Stage results

A stage always has a result. If its tool ran to an end the exit code is the tool's own; otherwise
it is a negative sentinel, one for each way in which there can be no exit status, and the output
says what happened.
-/

namespace StageLens

/-- How the invocation of a stage ended. -/
inductive Outcome where
  /-- The tool ran to its end. -/
  | exited
  /-- The tool could not be started. -/
  | launchFailed
  /-- The tool ran out of time and was killed. -/
  | timedOut
  /-- Its input could not be written or its output not be read. -/
  | ioFailed
  /-- The gate was closed before the tool could start. -/
  | rejected
  deriving DecidableEq, Repr

namespace Outcome

/-- The exit code that stands for an outcome without exit status. -/
def sentinel? : Outcome → Option Int32
  | exited => none
  | launchFailed => some (-1)
  | timedOut => some (-2)
  | ioFailed => some (-3)
  | rejected => some (-4)

/-- The outcome that an exit code stands for. -/
def ofExitCode (code : Int32) : Outcome :=
  if code = -1 then launchFailed
  else if code = -2 then timedOut
  else if code = -3 then ioFailed
  else if code = -4 then rejected
  else exited

theorem ofExitCode_sentinel {o : Outcome} {code : Int32} (h : o.sentinel? = some code) :
    ofExitCode code = o := by
  cases o <;> simp [sentinel?] at h <;> subst h <;> decide

end Outcome

/-- The result of one stage. -/
structure StageResult where
  label : String
  /-- The tool and its arguments, whether they were run or would have been. -/
  command : List String
  exitCode : Int32
  output : String
  deriving DecidableEq, Repr

namespace StageResult

/-- The result of a stage whose tool gave no exit status. An outcome that has no sentinel counts
as a failed launch. -/
def failed (label : String) (command : List String) (outcome : Outcome) (message : String) :
    StageResult :=
  ⟨label, command, outcome.sentinel?.getD (-1), message⟩

def outcome (r : StageResult) : Outcome := .ofExitCode r.exitCode

def succeeded (r : StageResult) : Bool := r.exitCode == 0

/-- The command as one line of a shell. -/
def display (r : StageResult) : String := Text.commandLine r.command

end StageResult

end StageLens
