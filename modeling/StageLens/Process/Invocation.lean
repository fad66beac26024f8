import StageLens.Duration
import StageLens.Host.Error
import StageLens.Stage.Result

/-!
# Invocations

One external command to run: a program with a fixed argument vector, never a line for a shell. A
run that gives no exit status fails in one of three ways, and a failure becomes a stage result with
the sentinel of its outcome.
-/

namespace StageLens

/-- One external command to run. -/
structure Invocation where
  program : Bytes
  arguments : List String
  /-- What is written to its standard input; none stands for the null device. -/
  input : Option Bytes := none
  /-- The directory it runs in, which is also its directory for temporary files. -/
  directory : Option Bytes := none
  timeout : Duration
  deriving DecidableEq, Repr

/-- The program and its arguments. -/
def Invocation.commandLine (i : Invocation) : List String :=
  Text.decodeText i.program :: i.arguments

/-- Why a run gave no exit status. -/
inductive Failure where
  | timedOut (program : Bytes) (timeout : Duration)
  | launch (program : Bytes) (cause : HostError)
  | io (program : Bytes) (cause : HostError)
  deriving DecidableEq, Repr

namespace Failure

def outcome : Failure → Outcome
  | timedOut _ _ => .timedOut
  | launch _ _ => .launchFailed
  | io _ _ => .ioFailed

def message : Failure → String
  | timedOut program timeout =>
    "'" ++ Text.decodeText program ++ "' timed out after " ++ timeout.secondsText ++
      "s and was terminated"
  | launch program cause =>
    "failed to launch '" ++ Text.decodeText program ++ "': " ++ cause.message
  | io program cause =>
    "I/O failure while running '" ++ Text.decodeText program ++ "': " ++ cause.message

/-- The failure as the result of a stage. -/
def result (f : Failure) (label : String) (command : List String) : StageResult :=
  .failed label command f.outcome f.message

end Failure

end StageLens
