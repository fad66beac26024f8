import StageLens.Json.Datum
import StageLens.Stage.Response
import StageLens.Wire.Reading

/-!
# Results and responses in documents

A result is an object with four fields, all of them required, or an array of these fields in order.
A response is an object whose `results` map stage names to results; a name that comes again keeps
its place and takes the later result.

A writer is handed a response as a map from stages to results (`responseDatum`), and the names of
the stages stand for them. The document that this gives is `ofResponse`.
-/

namespace StageLens.Wire

open StageLens.Json (Draft)
open StageLens.Decode (Mismatch)

/-- The stage of a name that has been read. -/
def stageOfName (name : String) : Read Stage :=
  match Stage.ofKey? name with
  | some s => .ok s
  | none => mismatch (.unknownVariant name (Stage.all.map Stage.key))

/-- A stage is its name, or an object that maps its name to null. -/
def readStage : Draft → Read Stage
  | .text (some name) => stageOfName name
  | .object ((some name, value) :: rest) stop => do
    let s ← stageOfName name
    match value with
    | .null => pure ()
    | d => wrongType d .unit
    match rest, stop with
    | [], none => return s
    | [], some b => if b.afterComma then malformed else .error (.fault b.kept)
    | _, _ => malformed
  | .object [] (some b) => .error (.fault b.kept)
  | .broken .nothing b => .error (.fault b.kept)
  | .broken .text b => .error (.fault b.kept)
  | _ => malformed

/-- Read a stage as a whole document. In an object that starts with something else than a name, it
is what stands in place of the name. -/
def stageDocument (text : List Char) : Read Stage :=
  match Json.tokens text with
  | .openObject :: .text _ :: _ | .openObject :: .broken .text _ :: _ => document readStage text
  | .openObject :: t :: rest => wrongType (Json.ofTokens (t :: rest)).root .variant
  | _ => document readStage text

/-- The fields of a result that have been read. -/
structure ResultFields where
  label : Option String := none
  command : Option (List String) := none
  exitCode : Option Int32 := none
  output : Option String := none

namespace ResultFields

/-- Take one member. -/
def take (f : ResultFields) (key : String) (d : Draft) : Read ResultFields :=
  if key = "label" then do return { f with label := ← once "label" f.label (asText d) }
  else if key = "command" then
    do return { f with command := ← once "command" f.command (asTexts d) }
  else if key = "exitCode" then
    do return { f with exitCode := ← once "exitCode" f.exitCode (asInt32 d) }
  else if key = "output" then do return { f with output := ← once "output" f.output (asText d) }
  else do
    checkFault d.passOver
    return f

/-- The result, if every field was given. -/
def result (f : ResultFields) : Read StageResult := do
  let label ← required "label" f.label
  let command ← required "command" f.command
  let exitCode ← required "exitCode" f.exitCode
  let output ← required "output" f.output
  return ⟨label, command, exitCode, output⟩

end ResultFields

/-- The items of an array as the fields of a result in order. -/
def resultItems (items : List Draft) (stop : Option Json.Break) : Read StageResult :=
  let short (n : Nat) : Read StageResult := do
    checkStop stop
    mismatch (.wrongLength n "StageResult" 4)
  match items with
  | [] => short 0
  | [a] => do
    let _ ← asText a
    short 1
  | [a, b] => do
    let _ ← asText a
    let _ ← asTexts b
    short 2
  | [a, b, c] => do
    let _ ← asText a
    let _ ← asTexts b
    let _ ← asInt32 c
    short 3
  | a :: b :: c :: d :: rest => do
    let label ← asText a
    let command ← asTexts b
    let exitCode ← asInt32 c
    let output ← asText d
    if rest.isEmpty then
      checkStop stop
      return ⟨label, command, exitCode, output⟩
    else malformed

def readResult : Draft → Read StageResult
  | .object members stop => do (← foldMembers ResultFields.take {} members stop).result
  | .array items stop => resultItems items stop
  | d => wrongType d (.record "StageResult")

/-- The map of a response. -/
def readEntries : Draft → Read Response
  | .object members stop =>
    foldMembers (fun m key d => do
      let s ← stageOfName key
      let r ← readResult d
      return m.insert s r) Response.empty members stop
  | d => wrongType d .map

def readResponse : Draft → Read Response
  | .object members stop => do
    let f ← foldMembers (fun f key d =>
      if key = "results" then once "results" f (readEntries d)
      else do
        checkFault d.passOver
        return f) none members stop
    required "results" f
  | .array items stop =>
    match items with
    | [] => do
      checkStop stop
      mismatch (.wrongLength 0 "CompileResponse" 1)
    | d :: rest => do
      let m ← readEntries d
      if rest.isEmpty then
        checkStop stop
        return m
      else malformed
  | d => wrongType d (.record "CompileResponse")

/-- A result as it is handed to a writer. -/
def resultDatum (r : StageResult) : Json.Datum :=
  .record [("label", .text r.label), ("command", .sequence (r.command.map .text)),
    ("exitCode", .integer r.exitCode.toInt), ("output", .text r.output)]

/-- A response as it is handed to a writer. -/
def responseDatum (m : Response) : Json.Datum :=
  .record [("results", .map (m.entries.map fun e => (.variant e.1.key, resultDatum e.2)))]

/-- The document of a result. -/
def ofResult (r : StageResult) : Json :=
  .object [("label", .text r.label), ("command", .array (r.command.map .text)),
    ("exitCode", .integer r.exitCode.toInt), ("output", .text r.output)]

/-- The document of a response. -/
def ofResponse (m : Response) : Json :=
  .object [("results", .object (m.entries.map fun e => (e.1.key, ofResult e.2)))]

end StageLens.Wire
