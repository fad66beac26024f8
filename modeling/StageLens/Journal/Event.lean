import StageLens.Stage.Basic

/-!
# The journal

What the parts of the service report while they work. `Event` lists the occasions; the level, the
reporting component, the wording and the details that go with each are functions of it.
-/

namespace StageLens

/-- The parts of the service that report. -/
inductive Component where
  | orchestrator
  | runner
  | demangler
  | server
  | cli
  deriving DecidableEq, Repr

def Component.all : List Component := [.orchestrator, .runner, .demangler, .server, .cli]

def Component.name : Component → String
  | .orchestrator => "orchestrator"
  | .runner => "runner"
  | .demangler => "demangler"
  | .server => "server"
  | .cli => "cli"

/-- How much an event matters. -/
inductive Level where
  | error
  | warn
  | info
  | debug
  | trace
  deriving DecidableEq, Repr

def Level.name : Level → String
  | .error => "ERROR"
  | .warn => "WARN"
  | .info => "INFO"
  | .debug => "DEBUG"
  | .trace => "TRACE"

/-- The occasions of a report. -/
inductive Event where
  /-- The configured compiler is found nowhere. -/
  | compilerMissing
  | requestRejected
  | workspaceFailed
  | workspaceReady
  | cleanupFailed
  | requestCompleted (stages : Nat)
  | gateClosed (s : Stage)
  | stageStarted (s : Stage)
  | stageBroken (s : Stage)
  | stageFinished (s : Stage) (exitCode : Int32)
  | spawned
  | outputCapped (limit : Nat)
  | processExited (exitCode : Int32)
  | processTimedOut (millis : Nat)
  | demanglerUnusable (exitCode : Int32) (truncated : Bool) (stderr : String)
  | demanglerFailed
  | answerFailed
  deriving DecidableEq, Repr

namespace Event

def component : Event → Component
  | spawned | outputCapped _ | processExited _ | processTimedOut _ => .runner
  | demanglerUnusable _ _ _ | demanglerFailed => .demangler
  | answerFailed => .server
  | _ => .orchestrator

def level : Event → Level
  | answerFailed => .error
  | compilerMissing | workspaceFailed | cleanupFailed | gateClosed _ | stageBroken _ => .warn
  | outputCapped _ | processTimedOut _ | demanglerUnusable _ _ _ | demanglerFailed => .warn
  | requestRejected | requestCompleted _ => .info
  | workspaceReady | stageStarted _ | stageFinished _ _ | spawned | processExited _ => .debug

def message : Event → String
  | compilerMissing => "compiler not found on PATH, stages will report launch failures"
  | requestRejected => "request rejected"
  | workspaceFailed => "scratch workspace setup failed"
  | workspaceReady => "workspace ready"
  | cleanupFailed => "scratch workspace cleanup failed"
  | requestCompleted _ => "request completed"
  | gateClosed _ => "admission gate closed"
  | stageStarted _ => "stage started"
  | stageBroken _ => "stage did not run to completion"
  | stageFinished _ _ => "stage finished"
  | spawned => "spawned"
  | outputCapped _ => "output cap reached, stopping process"
  | processExited _ => "process exited"
  | processTimedOut _ => "process timed out and was killed"
  | demanglerUnusable _ _ _ => "demangler produced no usable output, keeping raw text"
  | demanglerFailed => "demangler failed, keeping raw text"
  | answerFailed => "compile request failed"

/-- The named values that go with an event. -/
def details : Event → List (String × String)
  | requestCompleted n => [("stages", toString n)]
  | gateClosed s | stageStarted s | stageBroken s => [("stage", s.key)]
  | stageFinished s code => [("stage", s.key), ("exit_code", toString code.toInt)]
  | outputCapped limit => [("limit", toString limit)]
  | processExited code => [("exit_code", toString code.toInt)]
  | processTimedOut millis => [("timeout_ms", toString millis)]
  | demanglerUnusable code truncated stderr =>
    [("exit_code", toString code.toInt), ("truncated", toString truncated), ("stderr", stderr)]
  | _ => []

end Event

end StageLens
