import StageLens.Config.Document
import Mathlib.Data.List.Infix
import Mathlib.Tactic.SplitIfs

/-!
# The rules for a configuration

A configuration is usable if it breaks no rule: no limit is zero, and the name of the module has a
character that is no blank. Of a configuration that breaks rules the first one is told
(`violation?_eq_some_iff`), with the names of the settings that it is about
(`Violation.names_settings`). What a document makes is usable (`usable_of_ofText`), and so are the
defaults.
-/

namespace StageLens.Config

/-- A configuration that breaks no rule. -/
structure Usable (c : Config) : Prop where
  stageTimeout : 0 < c.limits.stageTimeout
  demangleTimeout : 0 < c.limits.demangleTimeout
  invocations : 0 < c.limits.invocations
  outputBytes : 0 < c.limits.outputBytes
  sourceBytes : 0 < c.limits.sourceBytes
  moduleName : Text.isBlankText c.tools.moduleName = false

/-- The rules are complete: what breaks none of them is usable, and the other way round. -/
theorem violation?_eq_none_iff {c : Config} : c.violation? = none ↔ c.Usable := by
  unfold violation?
  constructor
  · intro h
    split at h
    · cases h
    split at h
    · cases h
    split at h
    · cases h
    split at h
    · cases h
    rename_i hstage hdemangle hinvocations hbytes
    rw [not_or] at hbytes
    split at h
    · cases h
    rename_i hname
    exact ⟨Nat.pos_of_ne_zero hstage, Nat.pos_of_ne_zero hdemangle, Nat.pos_of_ne_zero hinvocations,
      Nat.pos_of_ne_zero hbytes.1, Nat.pos_of_ne_zero hbytes.2, by simpa using hname⟩
  · intro h
    have hbytes : ¬ (c.limits.outputBytes = 0 ∨ c.limits.sourceBytes = 0) :=
      not_or.mpr ⟨Nat.ne_zero_of_lt h.outputBytes, Nat.ne_zero_of_lt h.sourceBytes⟩
    rw [if_neg (Nat.ne_zero_of_lt h.stageTimeout), if_neg (Nat.ne_zero_of_lt h.demangleTimeout),
      if_neg (Nat.ne_zero_of_lt h.invocations), if_neg hbytes, h.moduleName,
      if_neg Bool.false_ne_true]

/-- What the rules ask for, written out. -/
theorem usable_iff {c : Config} : c.Usable ↔
    0 < c.limits.stageTimeout ∧ 0 < c.limits.demangleTimeout ∧ 0 < c.limits.invocations ∧
    0 < c.limits.outputBytes ∧ 0 < c.limits.sourceBytes ∧
    ∃ ch ∈ c.tools.moduleName.toList, Text.isBlank ch = false := by
  have hname : Text.isBlankText c.tools.moduleName = false ↔
      ∃ ch ∈ c.tools.moduleName.toList, Text.isBlank ch = false := by
    simp [Text.isBlankText]
  constructor
  · intro h
    exact ⟨h.stageTimeout, h.demangleTimeout, h.invocations, h.outputBytes, h.sourceBytes,
      hname.mp h.moduleName⟩
  · rintro ⟨hstage, hdemangle, hinvocations, houtput, hsource, hchar⟩
    exact ⟨hstage, hdemangle, hinvocations, houtput, hsource, hname.mpr hchar⟩

/-- Entries are accepted if the configuration that they make is usable. -/
theorem ofEntries_eq_ok_iff {entries : Toml.Entries} {c : Config} :
    ofEntries entries = .ok c ↔ overlay entries = .ok c ∧ c.Usable := by
  rw [ofEntries, ← violation?_eq_none_iff]
  constructor
  · intro h
    split at h
    · cases h
    · split at h
      · cases h
      · rename_i hnone
        obtain rfl := Except.ok.inj h
        exact ⟨‹_›, hnone⟩
  · rintro ⟨hoverlay, hnone⟩
    simp only [hoverlay, hnone]

/-- Every document that is accepted makes a usable configuration. -/
theorem usable_of_ofText {text : String} {c : Config} (h : ofText text = .ok c) : c.Usable := by
  unfold ofText at h
  split at h
  · cases h
  · exact (ofEntries_eq_ok_iff.mp h).2

/-- The defaults break no rule. -/
theorem usable_default : Usable {} :=
  ⟨by decide, by decide, by decide, by decide, by decide, by decide +kernel⟩

/-! ## The first rule that is broken -/

/-- What each rule asks, and when a configuration breaks it. -/
def Breaks (c : Config) : Violation → Prop
  | .noStageTime => c.limits.stageTimeout = 0
  | .noDemangleTime => c.limits.demangleTimeout = 0
  | .noInvocations => c.limits.invocations = 0
  | .noBytes => c.limits.outputBytes = 0 ∨ c.limits.sourceBytes = 0
  | .noModuleName => ∀ ch ∈ c.tools.moduleName.toList, Text.isBlank ch = true

instance (c : Config) (v : Violation) : Decidable (c.Breaks v) :=
  match v with
  | .noStageTime | .noDemangleTime | .noInvocations => inferInstanceAs (Decidable (_ = _))
  | .noBytes => inferInstanceAs (Decidable (_ ∨ _))
  | .noModuleName => inferInstanceAs (Decidable (∀ ch ∈ c.tools.moduleName.toList, _))

namespace Violation

/-- The rules in their order. -/
def all : List Violation := [noStageTime, noDemangleTime, noInvocations, noBytes, noModuleName]

/-- The settings that a rule is about, as a document names them. -/
def settings : Violation → List String
  | noStageTime => ["limits.stage_timeout_secs"]
  | noDemangleTime => ["limits.demangle_timeout_secs"]
  | noInvocations => ["limits.max_concurrent_invocations"]
  | noBytes => ["limits.max_output_bytes", "limits.max_source_bytes"]
  | noModuleName => ["toolchain.module_name"]

/-- What is said of a broken rule names the settings that it is about. -/
theorem names_settings (v : Violation) :
    ∀ name ∈ v.settings, name.toList <:+: (Failure.violation v).message.toList := by
  cases v <;> decide +kernel

end Violation

/-- The first rule, in their order, that a configuration breaks. -/
def BreaksFirst (c : Config) (v : Violation) : Prop :=
  c.Breaks v ∧ ∃ before after, Violation.all = before ++ v :: after ∧ ∀ w ∈ before, ¬ c.Breaks w

theorem violation?_eq_find? (c : Config) :
    c.violation? = Violation.all.find? fun v => decide (c.Breaks v) := by
  have hname : Text.isBlankText c.tools.moduleName = true ↔ c.Breaks .noModuleName := List.all_eq_true
  have hrules : c.violation? =
      if c.Breaks .noStageTime then some .noStageTime
      else if c.Breaks .noDemangleTime then some .noDemangleTime
      else if c.Breaks .noInvocations then some .noInvocations
      else if c.Breaks .noBytes then some .noBytes
      else if c.Breaks .noModuleName then some .noModuleName
      else none := by
    unfold violation?
    simp only [hname]
    rfl
  rw [hrules]
  unfold Violation.all
  split_ifs <;> simp [*]

theorem violation?_eq_some_iff {c : Config} {v : Violation} :
    c.violation? = some v ↔ c.BreaksFirst v := by
  rw [violation?_eq_find?, List.find?_eq_some_iff_append]
  simp [BreaksFirst]

/-- Entries that make a configuration are refused for the first rule that it breaks. -/
theorem ofEntries_eq_error_iff {entries : Toml.Entries} {c : Config} {f : Failure}
    (hoverlay : overlay entries = .ok c) :
    ofEntries entries = .error f ↔ ∃ v, c.BreaksFirst v ∧ f = .violation v := by
  simp only [ofEntries, hoverlay, ← violation?_eq_some_iff]
  cases c.violation? with
  | none => simp
  | some v => simp [eq_comm]

end StageLens.Config
