import StageLens.Request

/-!
# Which requests are valid

A request is turned away for a blank source first and for a source that is too large second, and for
nothing else.
-/

namespace StageLens

/-- A source without a character that is not blank. -/
def Request.IsBlank (r : Request) : Prop := ∀ c ∈ r.source.toList, Text.isBlank c = true

theorem Request.isBlankText_iff {r : Request} : Text.isBlankText r.source = true ↔ r.IsBlank := by
  unfold Text.isBlankText Request.IsBlank
  exact List.all_eq_true

theorem Request.invalid?_eq_emptySource_iff (r : Request) (limit : Nat) :
    r.invalid? limit = some .emptySource ↔ r.IsBlank := by
  unfold Request.invalid?
  rw [← Request.isBlankText_iff]
  by_cases hblank : Text.isBlankText r.source = true
  · simp [hblank]
  · simp [hblank]

theorem Request.invalid?_eq_sourceTooLarge_iff {r : Request} {limit size limit' : Nat} :
    r.invalid? limit = some (.sourceTooLarge size limit') ↔
      ¬ r.IsBlank ∧ limit < r.source.utf8ByteSize ∧ size = r.source.utf8ByteSize ∧
        limit' = limit := by
  unfold Request.invalid?
  rw [← Request.isBlankText_iff]
  by_cases hblank : Text.isBlankText r.source = true
  · simp [hblank]
  · by_cases hlarge : limit < r.source.utf8ByteSize
    · simp [hblank, hlarge, eq_comm]
    · simp [hblank, hlarge]

theorem Request.invalid?_eq_none_iff {r : Request} {limit : Nat} :
    r.invalid? limit = none ↔ ¬ r.IsBlank ∧ r.source.utf8ByteSize ≤ limit := by
  unfold Request.invalid?
  rw [← Request.isBlankText_iff]
  by_cases hblank : Text.isBlankText r.source = true
  · simp [hblank]
  · by_cases hlarge : limit < r.source.utf8ByteSize
    · simp [hblank, hlarge]
    · simp [hblank, hlarge, Nat.le_of_not_lt hlarge]

end StageLens
