import StageLens.CommandLine.Arguments
import StageLens.CommandLine.Listing
import StageLens.Config.Selection
import StageLens.Json.Printer
import StageLens.Orchestrator.Schedule
import StageLens.Wire.Response

/-!
# The command line

A run of the command line reads its arguments, and for a compilation first the source, then the
configuration, and only then makes a request of the orchestrator. Every way to fail has an exit code
of its own, and what a failed run prints goes to standard error alone.
-/

namespace StageLens.CommandLine

open Orchestrator (Settings Schedule Refusal)

def programName : String := "silscope"

def programVersion : String := "0.1.0"

/-- The machine that the program was made for. -/
structure Platform where
  architecture : String
  system : String
  deriving DecidableEq, Repr

/-- Why a run fails. -/
inductive Complaint where
  | usage
  | inputMissing (path : Bytes)
  | input (cause : HostError)
  | config (cause : Config.Failure)
  | refused (r : Refusal)
  /-- The response cannot be written as JSON. -/
  | unwritable (cause : Json.WriteFault)
  /-- No gate can have the capacity that is configured. -/
  | capacity
  /-- A stage never comes to its end, so that only an interrupt ends the run. -/
  | endless
  deriving DecidableEq, Repr

namespace Complaint

/-- The exit codes follow the usual ones for bad data, missing input, a file that cannot be made, an
input or output error, a configuration error and an error of the program itself. -/
def exitCode : Complaint → Nat
  | usage => 2
  | inputMissing _ => 66
  | input _ => 74
  | config _ => 78
  | refused (.invalid _) => 65
  | refused (.workspace _) => 73
  | unwritable _ => 70
  | capacity => 101
  | endless => 130

/-- What is said on standard error. -/
def message : Complaint → String
  | usage => "unexpected arguments"
  | inputMissing path => "Input file not found: " ++ Text.decodeText path
  | input cause => "IO error: " ++ cause.message
  | config cause => "Configuration error: " ++ cause.message
  | refused r => r.message
  | unwritable cause => "JSON error: " ++ cause.message
  | capacity => "no gate has room for so many invocations"
  | endless => "interrupted, stage processes killed"

end Complaint

/-- What a run leaves behind. -/
structure Outcome where
  exitCode : Nat
  /-- What is printed on standard output. -/
  output : String := ""
  complaint : Option Complaint := none
  host : Host
  /-- The processes that were started, the latest first. -/
  started : List Orchestrator.Start := []

def Outcome.failed (c : Complaint) (h : Host) : Outcome :=
  { exitCode := c.exitCode, complaint := some c, host := h }

/-! ## Compilation -/

/-- Whether a path stands for standard input: it is a dash, whatever slashes and dots follow. -/
def isStandardInput (p : Bytes) : Bool :=
  !Path.isAbsolute p && (Path.parts p).head? == some [0x2D] &&
    (Path.parts p).tail.all (· == Path.here)

def readStandardInput (input : Bytes) : Except Complaint String :=
  match Text.decode? input with
  | some s => .ok s
  | none => .error (.input .notUtf8)

/-- The source: a file, or standard input if none is named. -/
def readSource (h : Host) (input : Bytes) : Option Bytes → Except Complaint String
  | none => readStandardInput input
  | some p =>
    if isStandardInput p then readStandardInput input
    else if h.exists? p then
      match h.readText p with
      | .ok s => .ok s
      | .error e => .error (.input e)
    else .error (.inputMissing p)

/-- What is printed of a response, or why it cannot be written. -/
def render (f : Format) (m : Response) : Except Json.WriteFault String :=
  match f with
  | .text => .ok (resultListing m)
  | .json => (Wire.responseDatum m).json?.map fun j => j.pretty ++ "\n"

/-- The outcome of a request that was answered. -/
def shown (stages : List Stage) (f : Format) (m : Response) (σ : Orchestrator.State) : Outcome :=
  let displayed := m.select stages
  match render f displayed with
  | .error cause => { Outcome.failed (.unwritable cause) σ.host with started := σ.started }
  | .ok output =>
    { exitCode := if displayed.allSucceeded then 0 else 1, output, host := σ.host
      started := σ.started }

/-- Make a request and show what becomes of it. -/
def answer (s : Settings) (runner : Runner) (σ : Orchestrator.State) (r : Request)
    (stages : List Stage) (f : Format) : Outcome :=
  let (c, phases) := ({ state := σ } : Schedule).answer s runner [(r, none)]
  match phases with
  | [.returned (.ok m)] => shown stages f m c.state
  | [.returned (.error e)] => { Outcome.failed (.refused e) c.state.host with
      started := c.state.started }
  | _ => { Outcome.failed .endless c.state.host with started := c.state.started }

/-- Compile a source; the runner depends on how much output is kept. -/
def compile (h : Host) (runner : Nat → Runner) (input : Bytes) (config path : Option Bytes)
    (o : Options) (stages : List Stage) (f : Format) : Outcome :=
  match readSource h input path with
  | .error e => .failed e h
  | .ok source =>
    match Config.load h config with
    | .error e => .failed (.config e) h
    | .ok c =>
      let s := Settings.ofConfig h c
      match Orchestrator.State.start? s h with
      | none => .failed .capacity h
      | some σ => answer s (runner c.limits.outputBytes) σ ⟨source, o⟩ stages f

/-! ## Errands -/

def listStages (h : Host) (config : Option Bytes) (o : Options) : Outcome :=
  match Config.load h config with
  | .error e => .failed (.config e) h
  | .ok c =>
    { exitCode := 0, output := stageListing o (Settings.ofConfig h c).toolchain, host := h }

def versionText (p : Platform) : String :=
  programName ++ " " ++ programVersion ++ "\n\nTarget: " ++ p.architecture ++ "\nOS: " ++
    p.system ++ "\n"

/-- The name of the program, or of one of its verbs. -/
def titleOf (verb : Option Verb) : String := programName ++ verb.elim "" fun v => "-" ++ v.name

/-- How to call the program. -/
def helpText (verb : Option Verb) : String :=
  let usage := match verb with
    | some v => v.name ++ " [OPTIONS]" ++ if v = .compile then " [INPUT]" else ""
    | none => "[OPTIONS] <COMMAND>"
  "Usage: " ++ programName ++ " " ++ usage ++ "\n\nOptions:\n" ++
    String.join ((Key.allowed verb).map fun k => "  --" ++ k.long ++ "\n")

/-- Run the program on its arguments and its standard input. -/
def run (p : Platform) (h : Host) (runner : Nat → Runner) (input : Bytes)
    (arguments : List Octets) : Outcome :=
  match readArguments arguments with
  | .error .usage => .failed .usage h
  | .error (.version verb) =>
    { exitCode := 0, output := titleOf verb ++ " " ++ programVersion ++ "\n", host := h }
  | .error (.help verb) => { exitCode := 0, output := helpText verb, host := h }
  | .ok ⟨config, .compile path o stages f⟩ => compile h runner input config path o stages f
  | .ok ⟨config, .listStages o⟩ => listStages h config o
  | .ok ⟨_, .showVersion⟩ => { exitCode := 0, output := versionText p, host := h }

end StageLens.CommandLine
