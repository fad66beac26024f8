import Mathlib.Algebra.Group.Int.Defs
import StageLens.Json.Number
import StageLens.Json.Printer

/-!
# Written integers

An integer is written as its decimal digits after a sign, and its numeral has that integer as its
value as long as it fits 64 bits.
-/

namespace StageLens.Json

/-- The numeral that an integer is written as. -/
def numeral (i : Int) : Numeral := ⟨decide (i < 0), Nat.toDigits 10 i.natAbs, [], none⟩

/-- An integer is its digits, after a sign if it is negative. -/
theorem decimal_eq (i : Int) :
    decimal i = (if i < 0 then ['-'] else []) ++ Nat.toDigits 10 i.natAbs := by
  unfold decimal
  rw [Int.toString_eq_repr, Int.repr_eq_if]
  by_cases hi : 0 ≤ i
  · have habs : i.toNat = i.natAbs := by omega
    rw [if_pos hi, if_neg (by omega), Nat.toList_repr, habs, List.nil_append]
  · have habs : (-i).toNat = i.natAbs := by omega
    rw [if_neg hi, if_pos (by omega), String.toList_append, Nat.toList_repr, habs]
    rfl

/-- Digits that stand for a number of 64 bits are all read. -/
theorem leadingDigits_eq (n : Nat) (cs : List Char) (h : Nat.ofDigitChars 10 cs n ≤ wordMax) :
    leadingDigits n cs = (Nat.ofDigitChars 10 cs n, []) := by
  induction cs generalizing n with
  | nil => rfl
  | cons c cs ih =>
    rw [Nat.ofDigitChars_cons] at h ⊢
    have hstep : 10 * n + (c.toNat - '0'.toNat) = n * 10 + digitValue c := by
      unfold digitValue
      omega
    rw [hstep] at h ⊢
    -- What has been read is no greater than what is to come.
    have hle : n * 10 + digitValue c ≤ wordMax := by
      refine Nat.le_trans ?_ h
      rw [Nat.ofDigitChars_eq_ofDigitChars_zero]
      exact Nat.le_add_right_of_le (Nat.le_mul_of_pos_left _ (Nat.pow_pos (by decide)))
    rw [leadingDigits]
    rw [if_neg (by omega)]
    exact ih _ h

/-- A written integer has its value, within the range of 64 bits. -/
theorem value_numeral {i : Int} (hlow : -2 ^ 63 ≤ i) (hhigh : i < 2 ^ 64) :
    (numeral i).value = some (.integer i) := by
  have hmax : wordMax = 2 ^ 64 - 1 := rfl
  have hhalf : Number.pow2 63 = 2 ^ 63 := rfl
  have hdigits : leadingDigits 0 (Nat.toDigits 10 i.natAbs) = (i.natAbs, []) := by
    rw [leadingDigits_eq _ _ (by rw [Nat.ofDigitChars_ten_toDigits]; omega),
      Nat.ofDigitChars_ten_toDigits]
  unfold Numeral.value numeral
  dsimp only
  rw [hdigits]
  by_cases hi : i < 0
  · have habs : -(i.natAbs : Int) = i := by omega
    have hrange : 1 ≤ i.natAbs ∧ i.natAbs ≤ Number.pow2 63 := by omega
    simp only [List.isEmpty_nil, Bool.not_true, Bool.or_self, Option.isSome_none,
      Bool.false_eq_true, ↓reduceIte, hi, decide_true, hrange, Bool.and_self, habs]
  · have habs : (i.natAbs : Int) = i := by omega
    simp only [List.isEmpty_nil, Bool.not_true, Bool.or_self, Option.isSome_none,
      Bool.false_eq_true, ↓reduceIte, hi, decide_false, Bool.not_false, habs]

end StageLens.Json
