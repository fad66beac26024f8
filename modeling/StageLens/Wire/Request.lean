import StageLens.Request
import StageLens.Wire.Options

/-!
# Requests in documents

A request is an object that holds the source next to the switches. Every member is kept until the
whole object has been read: the source is checked where it stands, the switches only after the
object has ended and the source was found.
-/

namespace StageLens.Wire

open StageLens.Json (Draft Fault)

/-- How many arrays and objects a request may have inside one another. -/
def depthLimit : Nat := 127

/-- The first fault of a value that is kept, when `depth` levels are left. -/
def keep : Nat → Draft → Option Fault
  | _, .null => none
  | _, .boolean _ => none
  | _, .number n => if n.value.isSome then none else some .malformed
  | _, .text s => if s.isSome then none else some .malformed
  | _, .broken _ b => some b.kept
  | 0, .array _ _ => some .malformed
  | 0, .object _ _ => some .malformed
  | depth + 1, .array items stop =>
    (items.findSome? (keep depth)).or (stop.map (·.kept))
  | depth + 1, .object members stop =>
    (members.findSome? fun m => if m.1.isSome then keep depth m.2 else some .malformed).or
      (stop.map (·.kept))

/-- What has been read of a request: the source, and the other members, latest first. -/
structure RequestFields where
  source : Option String := none
  others : List (String × Draft) := []

/-- Take one member. -/
def RequestFields.take (f : RequestFields) (key : String) (d : Draft) : Read RequestFields :=
  if key = "source" then do return { f with source := ← once "source" f.source (asText d) }
  else do
    checkFault (keep (depthLimit - 1) d)
    return { f with others := (key, d) :: f.others }

/-- The switches among the members of a request. -/
def switches (members : List (String × Draft)) : Read OptionFields :=
  members.foldlM (fun f m => (f.take? m.1 m.2).getD (.ok f)) ({} : OptionFields)

def readRequest : Draft → Read Request
  | .object members stop => do
    let f ← foldMembers RequestFields.take {} members stop
    let source ← required "source" f.source
    let options ← switches f.others.reverse
    return ⟨source, options.options⟩
  | d => wrongType d (.record "CompileRequest")

/-- The document of a request. -/
def ofRequest (r : Request) : Json := .object (("source", .text r.source) :: optionMembers r.options)

end StageLens.Wire
