import StageLens.Stage.Response

/-!
# Listings

What the command line prints for a reader: the stages with the commands they run, and the results of
a response with what was printed.
-/

namespace StageLens.CommandLine

/-- How many columns the name of a stage takes. -/
def keyWidth : Nat := 14

/-- The remarks about a stage. -/
def remarks (s : Stage) (o : Options) : List String :=
  (if s.isOptimizable then ["optimizable"] else []) ++
    (if s.demangles o then ["demangled"] else [])

/-- The line that names a stage. -/
def headline (s : Stage) (o : Options) : String :=
  let remark := match remarks s o with
    | [] => ""
    | rs => " (" ++ ", ".intercalate rs ++ ")"
  s.key ++ String.ofList (List.replicate (keyWidth - s.key.length) ' ') ++ s.label ++ remark

/-- The line that shows the command of a stage. -/
def commandLine (s : Stage) (o : Options) (t : Toolchain) : String :=
  "  " ++ " ".intercalate (s.command o t)

/-- Every stage on two lines. -/
def stageListing (o : Options) (t : Toolchain) : String :=
  String.join (Stage.all.map fun s => headline s o ++ "\n" ++ commandLine s o t ++ "\n")

/-- What became of a stage, in words. -/
def statusText (r : StageResult) : String :=
  match r.outcome with
  | .exited => "exit " ++ toString r.exitCode.toInt
  | .launchFailed => "launch failed"
  | .timedOut => "timed out"
  | .ioFailed => "i/o failed"
  | .rejected => "rejected"

/-- A text whose last line has its end. -/
def closed (s : String) : String :=
  if s.isEmpty || s.toList.getLast? == some '\n' then s else s ++ "\n"

/-- The result of a stage with its command and its output. -/
def resultSection (s : Stage) (r : StageResult) : String :=
  "== " ++ r.label ++ " [" ++ s.key ++ "] " ++ statusText r ++ "\n" ++
    "$ " ++ r.display ++ "\n" ++ closed r.output ++ "\n"

/-- The results of a response one after the other. -/
def resultListing (m : Response) : String :=
  String.join (m.entries.map fun (s, r) => resultSection s r)

end StageLens.CommandLine
