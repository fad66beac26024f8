import StageLens.CommandLine.Files
import StageLens.Host.System
import StageLens.Process.Launch

/-!
# The program

Brings the files that a run may look at to a bare system, runs the command line there and prints
what it has to say. The processes of the run are those of the bare system.
-/

namespace StageLens.CommandLine

/-- The variables that a run sees. -/
def seenVariables : List String :=
  [Host.searchVariable, Config.homeVariable, Host.temporaryVariable]

/-- A bare system that stands where the program was started. -/
def startingHost : IO Host := do
  let directory ← IO.currentDir
  let mut h := Host.system
  for name in seenVariables do
    if let some value ← IO.getEnv name then h := h.setVariable name (Text.bytes value)
  let place := Text.bytes directory.toString
  return { (h.ensureDirectories place).toOption.getD h with cwd := Path.parts place }

/-- The host with the files of a run, as far as they can be read. -/
def withFiles (h : Host) (arguments : List Octets) : IO Host := do
  let mut h := h
  for p in consulted h arguments do
    try
      let contents ← IO.FS.readBinFile (Text.decodeText p)
      h := withFile h p contents.toList
    catch _ => pure ()
  return h

end StageLens.CommandLine

open StageLens CommandLine in
/-- Run the command line and give its exit code. -/
def main (arguments : List String) : IO UInt32 := do
  let words := arguments.map Octets.ofText
  let h ← withFiles (← startingHost) words
  let input ← if readsInput words then (← IO.getStdin).readBinToEnd else pure ByteArray.empty
  let o := CommandLine.run ⟨"x86_64", "linux"⟩ h Runner.launching input.toList words
  IO.print o.output
  if let some c := o.complaint then IO.eprintln ("error: " ++ c.message)
  return o.exitCode.toUInt32
