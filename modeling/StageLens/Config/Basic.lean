import StageLens.Decode.Mismatch
import StageLens.Duration
import StageLens.Host.Error
import StageLens.Stage.Basic
import StageLens.Text.Blank

/-!
# Configuration

A configuration names the tools, sets the limits and places the scratch directories and the
listening address. Every setting has a default. `violation?` is the first rule that a configuration
breaks; one that breaks none can be used.
-/

namespace StageLens

namespace Config

/-- The external tools. -/
structure Tools where
  compiler : Bytes := Toolchain.defaultCompiler
  demangler : Bytes := Text.bytes "swift-demangle"
  demanglerArguments : List String := []
  moduleName : String := Toolchain.defaultModuleName
  deriving DecidableEq, Repr

/-- The limits on every request. -/
structure Limits where
  /-- Seconds that one compiler invocation may take. -/
  stageTimeout : Nat := 30
  /-- Seconds that one demangler invocation may take. -/
  demangleTimeout : Nat := 10
  /-- How many compiler invocations may run at once. -/
  invocations : Nat := 4
  /-- How much of one invocation's output is kept, in bytes. -/
  outputBytes : Nat := 1024 * 1024
  /-- The greatest size of a source, in bytes. -/
  sourceBytes : Nat := 256 * 1024
  deriving DecidableEq, Repr

end Config

structure Config where
  tools : Config.Tools := {}
  limits : Config.Limits := {}
  /-- Where scratch directories are made; the system's place for temporary files if none. -/
  scratchRoot : Option Bytes := none
  /-- The address that the server listens on. -/
  bind : String := "127.0.0.1:8000"
  deriving DecidableEq, Repr

namespace Config

def Limits.stageTime (l : Limits) : Duration := .ofSeconds l.stageTimeout

def Limits.demangleTime (l : Limits) : Duration := .ofSeconds l.demangleTimeout

/-- The rules for a configuration, in the order in which they are checked. -/
inductive Violation where
  | noStageTime
  | noDemangleTime
  | noInvocations
  | noBytes
  | noModuleName
  deriving DecidableEq, Repr

def Violation.message : Violation → String
  | noStageTime => "limits.stage_timeout_secs must be greater than zero"
  | noDemangleTime => "limits.demangle_timeout_secs must be greater than zero"
  | noInvocations => "limits.max_concurrent_invocations must be at least 1"
  | noBytes => "limits.max_output_bytes and limits.max_source_bytes must be non-zero"
  | noModuleName => "toolchain.module_name must not be empty"

/-- The first rule that a configuration breaks. -/
def violation? (c : Config) : Option Violation :=
  if c.limits.stageTimeout = 0 then some .noStageTime
  else if c.limits.demangleTimeout = 0 then some .noDemangleTime
  else if c.limits.invocations = 0 then some .noInvocations
  else if c.limits.outputBytes = 0 ∨ c.limits.sourceBytes = 0 then some .noBytes
  else if Text.isBlankText c.tools.moduleName then some .noModuleName
  else none

/-- Why there is no configuration. -/
inductive Failure where
  /-- The file cannot be read. -/
  | io (cause : HostError)
  /-- The document is not TOML. -/
  | malformed
  /-- The document does not have the shape of a configuration. -/
  | mismatch (m : Decode.Mismatch)
  | violation (v : Violation)
  /-- The listening address is none. -/
  | address (text : String)
  deriving DecidableEq, Repr

def invalidMessage (reason : String) : String := "Invalid configuration: " ++ reason

/-- What is said of a failure. The place and the cause of a syntax error are not part of it. -/
def Failure.message : Failure → String
  | io cause => "IO failure when reading config: " ++ cause.message
  | malformed | mismatch _ => "Failed to parse TOML config"
  | violation v => invalidMessage v.message
  | address text =>
    invalidMessage ("server.bind '" ++ text ++ "': invalid socket address syntax")

end Config

end StageLens
