import StageLens.Stage.Basic
import StageLens.Wire.Reading

/-!
# Options in documents

Options are an object with one boolean for each switch, all of them optional, or an array of these
booleans in order. `moduleOptimize` is another name of `wholeModuleOptimization`, so that giving
both is giving one field twice.
-/

namespace StageLens.Wire

open StageLens.Json (Draft)

/-- Switches that have been read. -/
structure OptionFields where
  demangle : Option Bool := none
  optimize : Option Bool := none
  wholeModule : Option Bool := none
  asLibrary : Option Bool := none
  deriving DecidableEq, Repr

namespace OptionFields

/-- The options with every switch off that was not given. -/
def options (f : OptionFields) : Options :=
  ⟨f.demangle.getD false, f.optimize.getD false, f.wholeModule.getD false,
    f.asLibrary.getD false⟩

/-- Take a member if it is a switch. -/
def take? (f : OptionFields) (key : String) (d : Draft) : Option (Read OptionFields) :=
  if key = "demangle" then
    some do return { f with demangle := ← once "demangle" f.demangle (asBoolean d) }
  else if key = "optimize" then
    some do return { f with optimize := ← once "optimize" f.optimize (asBoolean d) }
  else if key = "wholeModuleOptimization" ∨ key = "moduleOptimize" then
    some do
      return { f with
        wholeModule := ← once "wholeModuleOptimization" f.wholeModule (asBoolean d) }
  else if key = "parseAsLibrary" then
    some do return { f with asLibrary := ← once "parseAsLibrary" f.asLibrary (asBoolean d) }
  else none

end OptionFields

/-- The items of an array as switches in order. -/
def optionItems : List Draft → Read OptionFields
  | [] => .ok {}
  | [a] => do return { demangle := ← asBoolean a }
  | [a, b] => do return { demangle := ← asBoolean a, optimize := ← asBoolean b }
  | [a, b, c] => do
    return { demangle := ← asBoolean a, optimize := ← asBoolean b, wholeModule := ← asBoolean c }
  | a :: b :: c :: d :: rest => do
    let f : OptionFields :=
      { demangle := ← asBoolean a, optimize := ← asBoolean b, wholeModule := ← asBoolean c,
        asLibrary := ← asBoolean d }
    if rest.isEmpty then return f else malformed

def readOptions : Draft → Read Options
  | .object members stop => do
    let f ← foldMembers (fun f key d => match f.take? key d with
      | some r => r
      | none => do checkFault d.passOver; return f) ({} : OptionFields) members stop
    return f.options
  | .array items stop => do
    let f ← optionItems items
    checkStop stop
    return f.options
  | d => wrongType d (.record "CompileOptions")

/-- The members that the switches are written as. -/
def optionMembers (o : Options) : List (String × Json) :=
  [("demangle", .boolean o.demangle), ("optimize", .boolean o.optimize),
    ("wholeModuleOptimization", .boolean o.wholeModule), ("parseAsLibrary", .boolean o.asLibrary)]

end StageLens.Wire
