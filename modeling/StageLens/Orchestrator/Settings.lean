import StageLens.Config.Basic
import StageLens.Demangler
import StageLens.Host.Executable

/-!
# Settings of the orchestrator

What is fixed for all requests. The settings of a configuration have the paths of the tools looked
up already, so that a request never decides what is run.
-/

namespace StageLens.Orchestrator

structure Settings where
  toolchain : Toolchain
  demangler : Demangler
  /-- How many compilers may run at once. -/
  capacity : Nat
  /-- How long one compiler may run. -/
  stageTimeout : Duration
  /-- Where workspaces are made; the directory for temporary files if none. -/
  scratchRoot : Option Bytes
  /-- The greatest size of a source, in bytes. -/
  sourceLimit : Nat
  deriving DecidableEq, Repr

namespace Settings

/-- The settings of a configuration on a host. -/
def ofConfig (h : Host) (c : Config) : Settings where
  toolchain := ⟨h.resolveExecutable c.tools.compiler, c.tools.moduleName⟩
  demangler :=
    ⟨h.resolveExecutable c.tools.demangler, c.tools.demanglerArguments, c.limits.demangleTime⟩
  capacity := c.limits.invocations
  stageTimeout := c.limits.stageTime
  scratchRoot := c.scratchRoot
  sourceLimit := c.limits.sourceBytes

/-- What is reported about the tools. -/
def report (s : Settings) : List Event :=
  if Path.isAbsolute s.toolchain.compiler then [] else [.compilerMissing]

end Settings

end StageLens.Orchestrator
