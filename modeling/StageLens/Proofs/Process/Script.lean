import StageLens.Demangler
import StageLens.Process.Script
import StageLens.Proofs.Text.Decoding
import StageLens.Proofs.Text.Replacement

/-!
# What the scripted tools show

The scripted demangler takes every mangled symbol out of a text, and a text that it has been over
stays what it is (`clean`, `contains_clean`, `exists_filter_clean`). The scripted compiler shows the
source for the stages without mangled names and the symbol for the others (`Shows`), unless the
source asks for an error.
-/

namespace StageLens.Script

/-- The text that the demangler makes of a text. -/
def clean (raw : String) : String := Text.replace raw mangled demangled

/-- What the compiler shows for a source: the source itself, or the mangled symbol. -/
structure Shows (k : Stage) (source text : String) : Prop where
  refused : Text.contains source "#error" = true → text = "main.swift:1:1: error: #error directive"
  symbol : Text.contains source "#error" = false → k.mayMangle = true →
    Text.contains text mangled = true
  source : Text.contains source "#error" = false → k.mayMangle = false →
    Text.contains text source = true

variable {raw : String}

/-! ## The demangler -/

/-- Nothing that a mangled symbol begins or ends with is in a demangled one. -/
theorem foreign_demangled : Text.Foreign mangled.toList demangled.toList := by
  refine ⟨by decide +kernel, fun c hc => ?_, fun c hc => ?_, ' ', by decide +kernel⟩
  · obtain rfl : '$' = c := Option.some.inj hc
    decide +kernel
  · obtain rfl : 'F' = c := Option.some.inj hc
    decide +kernel

theorem replaced_clean (raw : String) :
    Text.Replaced mangled.toList demangled.toList raw.toList (clean raw).toList :=
  Text.replaced_replace foreign_demangled.nonempty demangled raw

/-- No mangled symbol is left, nor does one come about. -/
theorem contains_clean (raw : String) : Text.contains (clean raw) mangled = false := by
  rw [← Bool.not_eq_true, Text.contains_iff]
  exact (replaced_clean raw).not_occurs foreign_demangled

theorem clean_of_not_contains (h : Text.contains raw mangled = false) : clean raw = raw :=
  Text.replace_of_not_contains demangled h

theorem clean_clean (raw : String) : clean (clean raw) = clean raw :=
  clean_of_not_contains (contains_clean raw)

/-- There is no symbol in a blank text. -/
theorem clean_of_isBlankText (h : Text.isBlankText raw = true) : clean raw = raw := by
  refine clean_of_not_contains ?_
  rw [← Bool.not_eq_true, Text.contains_iff]
  intro hin
  have hmem : '$' ∈ raw.toList := hin.subset (by decide +kernel)
  have hblank : Text.isBlank '$' = true := List.all_eq_true.mp h _ hmem
  exact absurd hblank (by decide)

theorem eq_empty_of_clean (h : clean raw = "") : raw = "" := by
  rw [← String.toList_eq_nil_iff]
  exact (replaced_clean raw).eq_nil (by decide +kernel) (String.toList_eq_nil_iff.mpr h)

/-- The output of the demangler can be used whenever there was something to demangle. -/
theorem keep_clean (raw : String) :
    Demangler.keep raw (.ok { stdout := clean raw }) = clean raw := by
  by_cases hempty : clean raw = ""
  · rw [hempty, eq_empty_of_clean hempty]
    rfl
  · have husable : Demangler.usable? (.ok { stdout := clean raw }) = some (clean raw) := by
      simp [Demangler.usable?, Output.success, hempty]
    rw [Demangler.keep, husable, Option.getD_some]

theorem demangle_invocation (d : Demangler) (raw : String) :
    demangle (d.invocation raw) = { stdout := clean raw } := by
  show Output.mk 0 (Text.replace (Text.decodeText (Text.bytes raw)) mangled demangled) "" false = _
  rw [Text.decodeText_bytes]
  rfl

/-- What becomes of a text: a blank one that is to be demangled is left alone, and that makes no
difference. -/
theorem ite_isWanted (eligible requested : Bool) (raw : String) :
    (if Demangler.isWanted eligible requested raw then
        Demangler.keep raw (.ok { stdout := clean raw })
      else raw) = if eligible && requested then clean raw else raw := by
  rw [keep_clean]
  unfold Demangler.isWanted
  cases hblank : Text.isBlankText raw with
  | true => simp [clean_of_isBlankText hblank]
  | false => simp

theorem ending_swiftLike (i : Invocation) (h : Host) :
    (runner swiftLike i h).ending = some (.ok (swiftOutput i h)) := rfl

/-- **The demangler changes nothing that it has been over.** -/
theorem exists_filter_clean {d : Demangler}
    (hd : Text.contains (Text.decodeText d.program) "demangle" = true) (h : Host) (raw : String) :
    ∃ events, d.filter (runner swiftLike) h true true (clean raw) = some (clean raw, events) := by
  have hdemangler : isDemangler (d.invocation (clean raw)) = true := hd
  have hending : (runner swiftLike (d.invocation (clean raw)) h).ending =
      some (.ok { stdout := clean raw }) := by
    rw [ending_swiftLike, swiftOutput, if_pos hdemangler, demangle_invocation, clean_clean]
  have hkeep : Demangler.keep (clean raw) (.ok { stdout := clean raw }) = clean raw := by
    have hkeep := keep_clean (clean raw)
    rwa [clean_clean] at hkeep
  unfold Demangler.filter
  dsimp only
  split
  · rw [hending, Option.map_some, hkeep]
    exact ⟨_, rfl⟩
  · exact ⟨_, rfl⟩

/-! ## The compiler -/

theorem emitFlag_arguments {i : Invocation} {k : Stage} {o : Options} {t : Toolchain}
    (h : i.arguments = k.arguments o t) : emitFlag i = k.emitFlag := by
  rw [emitFlag, h]
  rfl

/-- The compiler knows the flag of every stage. -/
theorem exists_dump (k : Stage) (flags source : String) :
    ∃ text, dump? k.emitFlag flags source = some text ∧
      Text.contains text (if k.mayMangle then mangled else source) = true := by
  have hlast : ∀ s part behind : String, Text.contains (s ++ part ++ behind) part = true :=
    fun s part behind => Text.contains_append (Text.contains_append_self s part) behind
  cases k with
  | parse => exact ⟨_, rfl, hlast _ source "))"⟩
  | ast => exact ⟨_, rfl, hlast _ source ")))"⟩
  | silRaw => exact ⟨_, rfl, Text.contains_append (hlast _ mangled " // ") flags⟩
  | silCanonical => exact ⟨_, rfl, Text.contains_append (hlast _ mangled " // ") flags⟩
  | ir => exact ⟨_, rfl, Text.contains_append (hlast _ mangled "\"() ; ") flags⟩
  | assembly => exact ⟨_, rfl, Text.contains_append (hlast _ mangled ":\n\tret ; ") flags⟩

/-- **What a scripted compiler shows.** -/
theorem shows_compile {i : Invocation} {k : Stage} {o : Options} {t : Toolchain}
    (h : i.arguments = k.arguments o t) (source : String) :
    Shows k source (compile i (some source)).combined := by
  obtain ⟨text, htext, hcontains⟩ := exists_dump k (" ".intercalate i.arguments) source
  unfold compile
  dsimp only
  rw [emitFlag_arguments h, htext]
  cases herror : Text.contains source "#error" with
  | true =>
    refine ⟨fun _ => ?_, fun hnone => ?_, fun hnone => ?_⟩
    · rfl
    · rw [herror] at hnone
      cases hnone
    · rw [herror] at hnone
      cases hnone
  | false =>
    refine ⟨fun hsome => ?_, fun _ hmangle => ?_, fun _ hmangle => ?_⟩
    · rw [herror] at hsome
      cases hsome
    · rw [hmangle] at hcontains
      exact hcontains
    · rw [hmangle] at hcontains
      exact hcontains

end StageLens.Script
