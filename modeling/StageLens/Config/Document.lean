import StageLens.Config.Basic
import StageLens.Toml.Document

/-!
# Configuration documents

A configuration document has four sections. What it assigns replaces the defaults; what it does not
know is passed over. A section may also be an array of its settings in order. The first value of a
wrong shape, in the order of the document, is the error.
-/

namespace StageLens.Config

open StageLens.Decode (Found Shape Mismatch)
open StageLens.Toml (Value Entries)

/-- A value as a message names it. A date or time counts as a map. -/
def found : Value → Found
  | .text s => .string s
  | .integer i => .integer i
  | .float x => .float x
  | .boolean b => .boolean b
  | .array _ | .tables _ => .sequence
  | .table _ _ | .moment => .map

def mismatch {α : Type} (v : Value) (expected : Shape) : Except Mismatch α :=
  .error (.wrongType (found v) expected)

def asText : Value → Except Mismatch String
  | .text s => .ok s
  | v => mismatch v .text

def asPath : Value → Except Mismatch Bytes
  | .text s => .ok (Text.bytes s)
  | v => mismatch v .path

/-- A number that is not negative, of the type that a message names. -/
def asNat (type : String) : Value → Except Mismatch Nat
  | .integer (.ofNat n) => .ok n
  | .integer i => .error (.outOfRange (.integer i) (.number type))
  | v => mismatch v (.number type)

def asTexts : Value → Except Mismatch (List String)
  | .array vs | .tables vs => vs.mapM asText
  | v => mismatch v .sequence

/-- A setting: its name in the document, and what assigning a value to it does. -/
structure Setting (σ : Type) where
  name : String
  assign : σ → Value → Except Mismatch σ

/-- A section of the document: the settings in order and the name of the whole. -/
structure Section (σ : Type) where
  record : String
  settings : List (Setting σ)

namespace Section

variable {σ : Type}

/-- Take one entry of the section. -/
def take (s : Section σ) (c : σ) (entry : String × Value) : Except Mismatch σ :=
  match s.settings.find? (·.name == entry.1) with
  | some setting => setting.assign c entry.2
  | none => .ok c

/-- Take the section: entries by their names, or items in the order of the settings. -/
def read (s : Section σ) (c : σ) : Value → Except Mismatch σ
  | .table _ entries => entries.foldlM s.take c
  | .array vs | .tables vs => (s.settings.zip vs).foldlM (fun c (setting, v) => setting.assign c v) c
  | .moment => .ok c
  | v => mismatch v (.record s.record)

end Section

def toolSection : Section Tools where
  record := "ToolchainConfig"
  settings := [
    ⟨"compiler", fun t v => do return { t with compiler := ← asPath v }⟩,
    ⟨"demangler", fun t v => do return { t with demangler := ← asPath v }⟩,
    ⟨"demangler_args", fun t v => do return { t with demanglerArguments := ← asTexts v }⟩,
    ⟨"module_name", fun t v => do return { t with moduleName := ← asText v }⟩]

def limitSection : Section Limits where
  record := "LimitsConfig"
  settings := [
    ⟨"stage_timeout_secs", fun l v => do return { l with stageTimeout := ← asNat "u64" v }⟩,
    ⟨"demangle_timeout_secs", fun l v => do return { l with demangleTimeout := ← asNat "u64" v }⟩,
    ⟨"max_concurrent_invocations",
      fun l v => do return { l with invocations := ← asNat "usize" v }⟩,
    ⟨"max_output_bytes", fun l v => do return { l with outputBytes := ← asNat "usize" v }⟩,
    ⟨"max_source_bytes", fun l v => do return { l with sourceBytes := ← asNat "usize" v }⟩]

def workspaceSection : Section (Option Bytes) where
  record := "WorkspaceConfig"
  settings := [⟨"scratch_root", fun _ v => do return some (← asPath v)⟩]

def serverSection : Section String where
  record := "ServerConfig"
  settings := [⟨"bind", fun _ v => asText v⟩]

/-- The whole document, whose settings are the sections. -/
def root : Section Config where
  record := "SilscopeConfig"
  settings := [
    ⟨"toolchain", fun c v => do return { c with tools := ← toolSection.read c.tools v }⟩,
    ⟨"limits", fun c v => do return { c with limits := ← limitSection.read c.limits v }⟩,
    ⟨"workspace", fun c v => do
      return { c with scratchRoot := ← workspaceSection.read c.scratchRoot v }⟩,
    ⟨"server", fun c v => do return { c with bind := ← serverSection.read c.bind v }⟩]

/-- The defaults with the entries of a document laid over them. -/
def overlay (entries : Entries) : Except Mismatch Config := entries.foldlM root.take {}

/-- The configuration of a document's entries, if it can be used. -/
def ofEntries (entries : Entries) : Except Failure Config :=
  match overlay entries with
  | .error m => .error (.mismatch m)
  | .ok c =>
    match c.violation? with
    | some v => .error (.violation v)
    | none => .ok c

/-- The configuration of a document. -/
def ofText (text : String) : Except Failure Config :=
  match Toml.entries? text with
  | none => .error .malformed
  | some entries => ofEntries entries

end StageLens.Config
