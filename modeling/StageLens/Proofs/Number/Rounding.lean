import Mathlib.Algebra.Order.Field.Power
import Mathlib.Data.Rat.Cast.Order
import Mathlib.Tactic.Linarith
import Mathlib.Tactic.Positivity
import Mathlib.Tactic.Ring
import StageLens.Number.Binary64

/-!
# Rounding to the nearest magnitude

A quotient is rounded at its last place, the exponent that leaves 53 binary digits before it
(`lastPlace_spec`). So it is off by no more than half a place (`abs_toRat_sub_le`), and it has no
magnitude exactly from half a place past the greatest one on (`nearest_eq_none_iff`): there it is
as near to `2 ^ 1024`, whose mantissa would be the even one.
-/

namespace StageLens.Number.Binary64

variable {num den k : Nat} {e : Int} {x y : Binary64}

/-- The value of a magnitude. -/
def toRat (x : Binary64) : ℚ := x.mantissa * 2 ^ x.exponent

theorem toRat_nonneg (x : Binary64) : 0 ≤ x.toRat := by
  unfold toRat
  positivity

/-- The greatest magnitude and half a step beyond it. -/
def limit : ℚ := (2 ^ 54 - 1) * 2 ^ (970 : Int)

theorem limit_pos : 0 < limit := mul_pos (by norm_num) (by positivity)

theorem two_zpow_mono {i j : Int} (h : i ≤ j) : (2 : ℚ) ^ i ≤ 2 ^ j :=
  zpow_le_zpow_right₀ one_le_two h

/-! ## Quotients of natural numbers -/

/-- A quotient that is rounded goes down or up by no more than a half. -/
theorem abs_roundDiv_sub_le (num : Nat) (hden : 0 < den) :
    |(roundDiv num den : ℚ) - num / den| ≤ 1 / 2 := by
  have hd : (0 : ℚ) < den := by exact_mod_cast hden
  have hdiv : (num : ℚ) = den * (num / den : Nat) + (num % den : Nat) := by
    exact_mod_cast (Nat.div_add_mod num den).symm
  have hq : (num : ℚ) / den = (num / den : Nat) + (num % den : Nat) / den := by
    rw [div_eq_iff hd.ne', add_mul, div_mul_cancel₀ _ hd.ne', mul_comm, ← hdiv]
  rw [hq, roundDiv]
  generalize num / den = q at *
  have hr : num % den < den := Nat.mod_lt _ hden
  generalize num % den = r at *
  have hdown : 2 * r ≤ den → |(q : ℚ) - (q + r / den)| ≤ 1 / 2 := by
    intro h
    have h' : (2 : ℚ) * r ≤ den := by exact_mod_cast h
    rw [sub_add_cancel_left, abs_neg, abs_of_nonneg (by positivity), div_le_div_iff₀ hd two_pos]
    linarith
  have hup : den ≤ 2 * r → |((q + 1 : Nat) : ℚ) - (q + r / den)| ≤ 1 / 2 := by
    intro h
    have h' : (den : ℚ) ≤ 2 * r := by exact_mod_cast h
    have hlt : (r : ℚ) / den ≤ 1 := by
      rw [div_le_one hd]
      exact_mod_cast hr.le
    have hge : (1 : ℚ) / 2 ≤ r / den := by
      rw [div_le_div_iff₀ two_pos hd]
      linarith
    push_cast
    rw [abs_le]
    constructor <;> linarith
  split
  · exact hdown (by omega)
  split
  · exact hup (by omega)
  split
  · exact hdown (by omega)
  · exact hup (by omega)

/-- From an odd number on a tie is rounded up. -/
theorem lt_roundDiv_iff (num : Nat) (hden : 0 < den) (hk : k % 2 = 1) :
    k < roundDiv num den ↔ (2 * k + 1) * den ≤ 2 * num := by
  have hdiv := Nat.div_add_mod num den
  have hr : num % den < den := Nat.mod_lt _ hden
  have hodd : (2 * k + 1) * den = 2 * (den * k) + den := by ring
  rw [roundDiv, hodd]
  generalize num / den = q at *
  generalize num % den = r at *
  simp only [beq_iff_eq]
  rcases Nat.lt_trichotomy q k with hlt | rfl | hgt
  · have hstep : den * (q + 1) ≤ den * k := Nat.mul_le_mul_left den hlt
    rw [Nat.mul_add, Nat.mul_one] at hstep
    split_ifs <;> omega
  · split_ifs <;> omega
  · have hstep : den * (k + 1) ≤ den * q := Nat.mul_le_mul_left den hgt
    rw [Nat.mul_add, Nat.mul_one] at hstep
    split_ifs <;> omega

theorem div_lt_iff_lt_rat (hden : 0 < den) (k : Nat) : num / den < k ↔ (num : ℚ) / den < k := by
  have hd : (0 : ℚ) < den := by exact_mod_cast hden
  rw [Nat.div_lt_iff_lt_mul hden, div_lt_iff₀ hd]
  exact_mod_cast Iff.rfl

theorem scale_pos (num : Nat) (hden : 0 < den) (e : Int) : 0 < (scale num den e).2 := by
  unfold scale
  split
  · exact Nat.mul_pos hden (Nat.two_pow_pos _)
  · exact hden

theorem scale_div (num den : Nat) (e : Int) :
    ((scale num den e).1 : ℚ) / (scale num den e).2 = num / den / 2 ^ e := by
  unfold scale pow2
  split
  · rename_i he
    obtain ⟨k, rfl⟩ := Int.eq_ofNat_of_zero_le he
    simp [div_div]
  · rename_i he
    obtain ⟨k, hk⟩ := Int.eq_ofNat_of_zero_le (show 0 ≤ -e by omega)
    have hk' : e = -(k : Int) := by omega
    subst hk'
    simp
    ring

/-! ## The last place -/

/-- The exponent of the last place that is kept of a quotient. -/
def lastPlace (num den : Nat) : Int :=
  let e₀ : Int := (Nat.log2 num : Int) - Nat.log2 den - 53
  max (-1074) (if (scale num den e₀).1 / (scale num den e₀).2 < pow2 53 then e₀ else e₀ + 1)

/-- A quotient in places of this exponent, rounded. -/
def places (num den : Nat) (e : Int) : Nat := roundDiv (scale num den e).1 (scale num den e).2

/-- A quotient is rounded at its last place, and carried where that gives `2 ^ 53`. -/
theorem nearest_eq (hnum : num ≠ 0) : nearest num den =
    let e := lastPlace num den
    if places num den e = 2 ^ 53 then (if 971 < e + 1 then none else some ⟨2 ^ 52, e + 1⟩)
    else if 971 < e then none else some ⟨places num den e, e⟩ := by
  unfold nearest lastPlace places
  rw [if_neg (by simpa using hnum)]
  dsimp only
  generalize max (-1074) _ = e
  generalize roundDiv _ _ = m
  simp only [pow2, Nat.pow_eq, beq_iff_eq]
  split <;> rfl

theorem log2_bounds {n : Nat} (hn : 0 < n) :
    (2 : ℚ) ^ (Nat.log2 n : Int) ≤ n ∧ (n : ℚ) < 2 ^ ((Nat.log2 n : Int) + 1) := by
  constructor
  · exact_mod_cast Nat.log2_self_le hn.ne'
  · exact_mod_cast Nat.lt_log2_self (n := n)

/-- The logarithms of two numbers say which powers their quotient lies between. -/
theorem log2_div_bounds (hnum : 0 < num) (hden : 0 < den) :
    (2 : ℚ) ^ ((Nat.log2 num : Int) - Nat.log2 den - 1) ≤ num / den ∧
      (num : ℚ) / den < 2 ^ ((Nat.log2 num : Int) - Nat.log2 den + 1) := by
  have hd : (0 : ℚ) < den := by exact_mod_cast hden
  obtain ⟨hnumLow, hnumHigh⟩ := log2_bounds hnum
  obtain ⟨hdenLow, hdenHigh⟩ := log2_bounds hden
  constructor
  · rw [le_div_iff₀ hd]
    calc (2 : ℚ) ^ ((Nat.log2 num : Int) - Nat.log2 den - 1) * den
        ≤ 2 ^ ((Nat.log2 num : Int) - Nat.log2 den - 1) * 2 ^ ((Nat.log2 den : Int) + 1) := by
          gcongr
      _ = 2 ^ (Nat.log2 num : Int) := by
          rw [← zpow_add₀ two_ne_zero]
          congr 1
          ring
      _ ≤ num := hnumLow
  · rw [div_lt_iff₀ hd]
    calc (num : ℚ) < 2 ^ ((Nat.log2 num : Int) + 1) := hnumHigh
      _ = 2 ^ ((Nat.log2 num : Int) - Nat.log2 den + 1) * 2 ^ (Nat.log2 den : Int) := by
          rw [← zpow_add₀ two_ne_zero]
          congr 1
          ring
      _ ≤ 2 ^ ((Nat.log2 num : Int) - Nat.log2 den + 1) * den := by
          gcongr

/-- The last place leaves 53 digits before it, and no fewer unless it is the least one there is. -/
theorem lastPlace_spec (hnum : 0 < num) (hden : 0 < den) :
    (num : ℚ) / den < 2 ^ (lastPlace num den + 53) ∧
      (lastPlace num den = -1074 ∨ 2 ^ (lastPlace num den + 52) ≤ (num : ℚ) / den) := by
  obtain ⟨hbelow, habove⟩ := log2_div_bounds hnum hden
  unfold lastPlace
  dsimp only
  generalize (Nat.log2 num : Int) - Nat.log2 den = k at *
  have hfloor : (scale num den (k - 53)).1 / (scale num den (k - 53)).2 < pow2 53 ↔
      (num : ℚ) / den < 2 ^ k := by
    have hpow : ((pow2 53 : Nat) : ℚ) * 2 ^ (k - 53) = 2 ^ k := by
      rw [show ((pow2 53 : Nat) : ℚ) = 2 ^ (53 : Int) by norm_num [pow2],
        ← zpow_add₀ two_ne_zero]
      congr 1
      ring
    rw [div_lt_iff_lt_rat (scale_pos num hden _), scale_div, div_lt_iff₀ (by positivity), hpow]
  -- The logarithms leave two places to choose from.
  by_cases h : (num : ℚ) / den < 2 ^ k
  · rw [if_pos (hfloor.mpr h)]
    refine ⟨h.trans_le (two_zpow_mono (by omega)), ?_⟩
    rcases le_total (k - 53) (-1074) with hle | hle
    · exact .inl (max_eq_left hle)
    · rw [max_eq_right hle]
      exact .inr ((two_zpow_mono (by omega)).trans hbelow)
  · rw [if_neg (fun h' => h (hfloor.mp h'))]
    refine ⟨habove.trans_le (two_zpow_mono (by omega)), ?_⟩
    rcases le_total (k - 53 + 1) (-1074) with hle | hle
    · exact .inl (max_eq_left hle)
    · rw [max_eq_right hle]
      exact .inr ((two_zpow_mono (by omega)).trans (not_lt.mp h))

/-! ## The nearest magnitude -/

theorem half_place (e : Int) : (2 : ℚ) ^ (e - 1) = 2 ^ e / 2 := by
  rw [zpow_sub_one₀ two_ne_zero, div_eq_mul_inv]

/-- Rounded at any place, a quotient is off by no more than half a place. -/
theorem abs_places_sub_le (num : Nat) (hden : 0 < den) (e : Int) :
    |(places num den e : ℚ) * 2 ^ e - num / den| ≤ 2 ^ (e - 1) := by
  have he : (0 : ℚ) < 2 ^ e := by positivity
  have hround := abs_roundDiv_sub_le (scale num den e).1 (scale_pos num hden e)
  rw [scale_div] at hround
  rw [half_place, places]
  generalize roundDiv (scale num den e).1 (scale num den e).2 = m at *
  calc |(m : ℚ) * 2 ^ e - num / den|
      = |(m : ℚ) - num / den / 2 ^ e| * 2 ^ e := by
        rw [← abs_of_pos he, ← abs_mul, abs_of_pos he, sub_mul, div_mul_cancel₀ _ he.ne']
    _ ≤ 1 / 2 * 2 ^ e := by gcongr
    _ = 2 ^ e / 2 := by ring

/-- It carries from half a place below `2 ^ 53` places on. -/
theorem places_eq_iff (hden : 0 < den) (hlt : (num : ℚ) / den < 2 ^ (e + 53)) :
    places num den e = 2 ^ 53 ↔ (2 ^ 54 - 1) * 2 ^ (e - 1) ≤ (num : ℚ) / den := by
  have he : (0 : ℚ) < 2 ^ e := by positivity
  have hle : places num den e ≤ 2 ^ 53 := by
    have hclose := abs_places_sub_le num hden e
    rw [half_place, abs_le] at hclose
    rw [zpow_add₀ two_ne_zero, mul_comm] at hlt
    have hm : (places num den e : ℚ) * 2 ^ e < (2 ^ 53 + 1 : Nat) * 2 ^ e := by
      push_cast
      norm_cast at hlt ⊢
      linarith [hclose.2]
    exact Nat.lt_succ_iff.mp (by exact_mod_cast lt_of_mul_lt_mul_right hm he.le)
  have hcarry := lt_roundDiv_iff (scale num den e).1 (k := 2 ^ 53 - 1) (scale_pos num hden e)
    (by norm_num)
  have hcast : (2 * (2 ^ 53 - 1) + 1) * (scale num den e).2 ≤ 2 * (scale num den e).1 ↔
      ((2 : ℚ) ^ 54 - 1) * (scale num den e).2 ≤ 2 * (scale num den e).1 := by
    rw [← Nat.cast_le (α := ℚ)]
    norm_num
  have hplace : (num : ℚ) / den = (scale num den e).1 / (scale num den e).2 * 2 ^ e := by
    rw [scale_div, div_mul_cancel₀ _ he.ne']
  have hd : (0 : ℚ) < (scale num den e).2 := by exact_mod_cast scale_pos num hden e
  have heq : places num den e = 2 ^ 53 ↔ 2 ^ 53 - 1 < places num den e := by omega
  rw [heq, places, hcarry, hcast, half_place, hplace, ← mul_div_assoc, div_mul_eq_mul_div,
    div_le_div_iff₀ two_pos hd, mul_right_comm, mul_comm _ (2 : ℚ), ← mul_assoc,
    mul_le_mul_iff_left₀ he]

/-- A rounded quotient is a whole number of last places. -/
theorem toRat_of_nearest (hnum : num ≠ 0) (hx : nearest num den = some x) :
    x.toRat = places num den (lastPlace num den) * 2 ^ lastPlace num den := by
  rw [nearest_eq hnum] at hx
  dsimp only at hx
  generalize lastPlace num den = e at *
  split at hx
  · rename_i hm
    split at hx
    · cases hx
    · obtain rfl := Option.some.inj hx
      rw [toRat, hm, zpow_add_one₀ two_ne_zero]
      push_cast
      ring
  · split at hx
    · cases hx
    · obtain rfl := Option.some.inj hx
      rfl

/-- It is too large if its last place is, or if it carries into a last place that is. -/
theorem nearest_eq_none_iff_places (hnum : num ≠ 0) : nearest num den = none ↔
    971 < lastPlace num den ∨
      places num den (lastPlace num den) = 2 ^ 53 ∧ lastPlace num den = 971 := by
  rw [nearest_eq hnum]
  dsimp only
  split <;> split <;> simp <;> omega

/-- **A quotient has no magnitude exactly from the limit on.** -/
theorem nearest_eq_none_iff (hden : 0 < den) :
    nearest num den = none ↔ limit ≤ (num : ℚ) / den := by
  rcases Nat.eq_zero_or_pos num with rfl | hnum
  · simp [nearest, limit_pos]
  obtain ⟨habove, hbelow⟩ := lastPlace_spec hnum hden
  rw [nearest_eq_none_iff_places hnum.ne', places_eq_iff hden habove, limit]
  generalize lastPlace num den = e at *
  rcases lt_trichotomy e 971 with hlt | rfl | hgt
  · have hsmall : (num : ℚ) / den < (2 ^ 54 - 1) * 2 ^ (970 : Int) := by
      calc (num : ℚ) / den < 2 ^ (e + 53) := habove
        _ ≤ 2 ^ (53 + 970 : Int) := two_zpow_mono (by omega)
        _ = 2 ^ (53 : Int) * 2 ^ (970 : Int) := zpow_add₀ two_ne_zero _ _
        _ ≤ (2 ^ 54 - 1) * 2 ^ (970 : Int) := by
          gcongr
          norm_num
    exact ⟨fun h => by omega, fun h => absurd hsmall (not_lt.mpr h)⟩
  · simp
  · have hlarge : (2 ^ 54 - 1) * 2 ^ (970 : Int) ≤ (num : ℚ) / den := by
      calc ((2 : ℚ) ^ 54 - 1) * 2 ^ (970 : Int) ≤ 2 ^ (54 : Int) * 2 ^ (970 : Int) := by
            gcongr
            norm_num
        _ = 2 ^ (54 + 970 : Int) := (zpow_add₀ two_ne_zero _ _).symm
        _ ≤ 2 ^ (e + 52) := two_zpow_mono (by omega)
        _ ≤ num / den := hbelow.resolve_left (by omega)
    exact ⟨fun _ => hlarge, fun _ => .inl hgt⟩

/-- **A rounded quotient is off by no more than half a place.** That is one part in `2 ^ 53` of it,
unless it is too small for 53 digits. -/
theorem abs_toRat_sub_le (hden : 0 < den) (hx : nearest num den = some x) :
    |x.toRat - num / den| ≤ max ((num : ℚ) / den / 2 ^ 53) (2 ^ (-1075 : Int)) := by
  rcases Nat.eq_zero_or_pos num with rfl | hnum
  · obtain rfl := Option.some.inj (hx.symm.trans rfl)
    simp [toRat, zero]
  rw [toRat_of_nearest hnum.ne' hx]
  refine (abs_places_sub_le num hden _).trans ?_
  rcases (lastPlace_spec hnum hden).2 with hleast | hfull
  · rw [hleast]
    exact le_max_right _ _
  · refine le_max_of_le_left ?_
    rw [le_div_iff₀ (by positivity)]
    calc (2 : ℚ) ^ (lastPlace num den - 1) * 2 ^ 53
        = 2 ^ (lastPlace num den - 1) * 2 ^ (53 : Int) := rfl
      _ = 2 ^ (lastPlace num den + 52) := by
        rw [← zpow_add₀ two_ne_zero]
        congr 1
        ring
      _ ≤ num / den := hfull

/-! ## Products and quotients of magnitudes -/

theorem ratio_pos (x : Binary64) : 0 < x.ratio.2 := by
  unfold ratio
  split
  · exact Nat.one_pos
  · exact Nat.two_pow_pos _

theorem ratio_div (x : Binary64) : (x.ratio.1 : ℚ) / x.ratio.2 = x.toRat := by
  unfold ratio toRat pow2
  split
  · rename_i he
    obtain ⟨k, hk⟩ := Int.eq_ofNat_of_zero_le he
    rw [hk]
    simp
  · rename_i he
    obtain ⟨k, hk⟩ := Int.eq_ofNat_of_zero_le (show 0 ≤ -x.exponent by omega)
    have hk' : x.exponent = -(k : Int) := by omega
    rw [hk']
    simp [div_eq_mul_inv]

theorem mul_eq_none_iff : x.mul y = none ↔ limit ≤ x.toRat * y.toRat := by
  unfold mul
  dsimp only
  rw [nearest_eq_none_iff (Nat.mul_pos x.ratio_pos y.ratio_pos), ← ratio_div, ← ratio_div]
  push_cast
  rw [div_mul_div_comm]

/-- A quotient of magnitudes is rounded, unless it is too large. -/
theorem exists_div (hy : 0 < y.toRat) (hq : x.toRat / y.toRat < limit) :
    ∃ z, x.div y = some z ∧
      |z.toRat - x.toRat / y.toRat| ≤ max (x.toRat / y.toRat / 2 ^ 53) (2 ^ (-1075 : Int)) := by
  have hnum : 0 < y.ratio.1 := by
    by_contra hzero
    have hratio := y.ratio_div
    rw [Nat.eq_zero_of_not_pos hzero, Nat.cast_zero, zero_div] at hratio
    exact hy.ne hratio
  have hden : 0 < x.ratio.2 * y.ratio.1 := Nat.mul_pos x.ratio_pos hnum
  have hquotient : ((x.ratio.1 * y.ratio.2 : Nat) : ℚ) / (x.ratio.2 * y.ratio.1 : Nat) =
      x.toRat / y.toRat := by
    rw [← ratio_div, ← ratio_div]
    push_cast
    rw [div_div_div_eq]
  have hdiv : x.div y = nearest (x.ratio.1 * y.ratio.2) (x.ratio.2 * y.ratio.1) := rfl
  have hsome : x.div y ≠ none := by
    rw [hdiv, Ne, nearest_eq_none_iff hden, hquotient]
    exact not_le.mpr hq
  obtain ⟨z, hz⟩ := Option.ne_none_iff_exists'.mp hsome
  refine ⟨z, hz, ?_⟩
  rw [hdiv] at hz
  have herror := abs_toRat_sub_le hden hz
  rwa [hquotient] at herror

/-- A natural number below the limit is rounded, and off by one part in `2 ^ 53` at most. -/
theorem exists_ofNat (hk : (k : ℚ) < limit) :
    ∃ x, ofNat k = some x ∧ |x.toRat - k| ≤ k / 2 ^ 53 := by
  have hsome : ofNat k ≠ none := by
    rw [ofNat, Ne, nearest_eq_none_iff Nat.one_pos, Nat.cast_one, div_one]
    exact not_le.mpr hk
  obtain ⟨x, hx⟩ := Option.ne_none_iff_exists'.mp hsome
  refine ⟨x, hx, ?_⟩
  rcases Nat.eq_zero_or_pos k with rfl | hpos
  · obtain rfl := Option.some.inj (hx.symm.trans rfl)
    simp [toRat, zero]
  have herror := abs_toRat_sub_le Nat.one_pos hx
  rw [Nat.cast_one, div_one] at herror
  refine herror.trans (max_le le_rfl ?_)
  have hone : (1 : ℚ) ≤ k := by exact_mod_cast hpos
  calc (2 : ℚ) ^ (-1075 : Int) ≤ 2 ^ (-53 : Int) := two_zpow_mono (by decide)
    _ = 1 / 2 ^ 53 := by norm_num
    _ ≤ k / 2 ^ 53 := by gcongr

theorem abs_toRat_ofNat_sub_le (hk : (k : ℚ) < limit) (hx : ofNat k = some x) :
    |x.toRat - k| ≤ k / 2 ^ 53 := by
  obtain ⟨x', hx', herror⟩ := exists_ofNat hk
  rw [hx] at hx'
  obtain rfl := Option.some.inj hx'
  exact herror

theorem mantissa_eq_zero_iff (hk : (k : ℚ) < limit) (hx : ofNat k = some x) :
    x.mantissa = 0 ↔ k = 0 := by
  have hzero : x.mantissa = 0 ↔ x.toRat = 0 := by
    rw [toRat, mul_eq_zero, or_iff_left (zpow_ne_zero _ two_ne_zero), Nat.cast_eq_zero]
  have herror := abs_toRat_ofNat_sub_le hk hx
  rw [abs_le] at herror
  rw [hzero, ← Nat.cast_eq_zero (R := ℚ)]
  constructor <;> intro h <;> linarith [herror.1, herror.2]

end StageLens.Number.Binary64
