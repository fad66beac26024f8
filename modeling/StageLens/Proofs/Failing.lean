import Mathlib.Tactic.Common

/-!
# Computations that can fail

A computation of several steps succeeds if and only if each step does, with what the one before gave
it.
-/

namespace StageLens

variable {ε α β : Type}

theorem bind_eq_ok_iff {x : Except ε α} {f : α → Except ε β} {b : β} :
    x >>= f = .ok b ↔ ∃ a, x = .ok a ∧ f a = .ok b := by
  constructor
  · intro h
    cases x with
    | error e => cases h
    | ok a => exact ⟨a, rfl, h⟩
  · rintro ⟨a, rfl, h⟩
    exact h

theorem foldlM_cons_eq_ok_iff {f : β → α → Except ε β} {a : α} {as : List α} {b b' : β} :
    (a :: as).foldlM f b = .ok b' ↔ ∃ next, f b a = .ok next ∧ as.foldlM f next = .ok b' := by
  rw [List.foldlM_cons, bind_eq_ok_iff]

end StageLens
