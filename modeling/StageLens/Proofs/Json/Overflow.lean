import StageLens.Proofs.Json.Digits
import StageLens.Proofs.Json.Numeral
import StageLens.Proofs.Number.Rounding

/-!
# Numbers that are too large

A number that is no integer of 64 bits is rounded three times: its significand, which is made of the
digits that fit 64 bits, the power of ten that it is scaled by, and their product. It has no value
exactly if that leads past the greatest magnitude (`value_eq_none_iff`). What counts is the value
that is written, but for one part in `2 ^ 50` (`not_overflows_of_le`, `overflows_of_limit_le`), and
for exponents that are too large to be read at all.
-/

namespace StageLens.Json

open StageLens.Number (Binary64)
open StageLens.Number.Binary64 (limit limit_pos exists_ofNat abs_toRat_ofNat_sub_le)

variable {n : Numeral} {x y : Binary64} {e : Int} {k m s v : Nat} {cs left : List Char}

/-! ## Powers of ten -/

theorem limit_eq : limit = ((2 ^ 54 - 1) * 2 ^ 970 : Nat) := by
  unfold limit
  rw [show (970 : Int) = ((970 : Nat) : Int) from rfl, zpow_natCast, Nat.cast_mul, Nat.cast_pow]
  norm_num

/-- There is much room between the integers of 64 bits and the limit. -/
theorem two_pow_lt_limit : (2 : ℚ) ^ 110 < limit := by
  have hnat : ((2 ^ 110 : Nat) : ℚ) < ((2 ^ 54 - 1) * 2 ^ 970 : Nat) := by
    rw [Nat.cast_lt]
    decide +kernel
  rw [limit_eq]
  exact_mod_cast hnat

theorem pow_lt_limit (hk : k ≤ greatestPower) : ((10 ^ k : Nat) : ℚ) < limit := by
  have hgreatest : 10 ^ greatestPower < (2 ^ 54 - 1) * 2 ^ 970 := by decide +kernel
  rw [limit_eq, Nat.cast_lt]
  exact (Nat.pow_le_pow_right (by decide) hk).trans_lt hgreatest

theorem limit_lt_pow : limit < 10 ^ (greatestPower + 1) := by
  have hnat : (((2 ^ 54 - 1) * 2 ^ 970 : Nat) : ℚ) < (10 ^ (greatestPower + 1) : Nat) := by
    rw [Nat.cast_lt]
    decide +kernel
  rw [limit_eq]
  exact_mod_cast hnat

/-- The power of ten that a number is scaled by. -/
theorem exists_power (hk : k ≤ greatestPower) :
    ∃ y, Binary64.ofDecimal 1 k = some y ∧ Binary64.ofNat (10 ^ k) = some y ∧
      |y.toRat - (10 ^ k : Nat)| ≤ (10 ^ k : Nat) / 2 ^ 53 := by
  obtain ⟨y, hy, herror⟩ := exists_ofNat (pow_lt_limit hk)
  refine ⟨y, ?_, hy, herror⟩
  have hwidth : (Nat.toDigits 10 1).length = 1 := rfl
  unfold greatestPower at hk
  unfold Binary64.ofDecimal
  dsimp only
  rw [if_neg (by decide), hwidth, if_neg (by omega), if_neg (by omega), if_pos (by omega),
    Nat.one_mul, Int.toNat_natCast]
  exact hy

/-! ## Scaling -/

/-- Scaled up, a magnitude is too large if the rounded product is. -/
theorem scaleBy_eq_none_iff (hk : k ≤ greatestPower) (x : Binary64) :
    scaleBy x k = none ↔ ∃ y, Binary64.ofNat (10 ^ k) = some y ∧ limit ≤ x.toRat * y.toRat := by
  obtain ⟨y, hpower, hy, -⟩ := exists_power hk
  rw [hy]
  simp only [Option.some.injEq, exists_eq_left']
  rw [← Binary64.mul_eq_none_iff]
  unfold scaleBy
  rw [Int.natAbs_natCast, hpower]
  simp

/-- Scaled down, a magnitude that is not too large is no larger. -/
theorem exists_scaleBy_neg (he : e < 0) (hk : e.natAbs ≤ greatestPower) (hx : x.toRat ≤ 2 ^ 100) :
    ∃ z, scaleBy x e = some z ∧ z.toRat ≤ 2 ^ 100 := by
  obtain ⟨y, hpower, -, herror⟩ := exists_power hk
  have hy : 4 ≤ y.toRat := by
    have hten : ((10 : Nat) : ℚ) ≤ (10 ^ e.natAbs : Nat) := by
      rw [Nat.cast_le]
      exact Nat.le_self_pow (by omega) 10
    rw [abs_le] at herror
    generalize ((10 ^ e.natAbs : Nat) : ℚ) = p at *
    push_cast at hten
    linarith [herror.1]
  have hsmall : x.toRat / y.toRat ≤ 2 ^ 98 := by
    rw [div_le_iff₀ (by linarith)]
    linarith
  obtain ⟨z, hz, hround⟩ := Binary64.exists_div (x := x) (y := y) (by linarith)
    (hsmall.trans_lt (lt_of_le_of_lt (by norm_num) two_pow_lt_limit))
  refine ⟨z, ?_, ?_⟩
  · unfold scaleBy
    rw [hpower]
    show (if 0 ≤ e then x.mul y else x.div y) = some z
    rw [if_neg (by omega), hz]
  · have htiny : (2 : ℚ) ^ (-1075 : Int) ≤ 1 := zpow_le_one_of_nonpos₀ one_le_two (by decide)
    have hmax : max (x.toRat / y.toRat / 2 ^ 53) (2 ^ (-1075 : Int)) ≤ 2 ^ 98 := by
      refine max_le ?_ (htiny.trans (by norm_num))
      rw [div_le_iff₀ (by positivity)]
      linarith
    rw [abs_le] at hround
    linarith [hround.2]

theorem scaleDecimal_of_le (steps : Nat) (x : Binary64) (he : e.natAbs ≤ greatestPower) :
    scaleDecimal steps x e = scaleBy x e := by
  cases steps <;> rw [scaleDecimal, if_pos he]

/-- A negative power never leads past the greatest magnitude. -/
theorem exists_scaleDecimal_neg (steps : Nat) (he : e < 0) (hx : x.toRat ≤ 2 ^ 100) :
    ∃ z, scaleDecimal steps x e = some z := by
  induction steps generalizing x e with
  | zero =>
    by_cases hsmall : e.natAbs ≤ greatestPower
    · obtain ⟨z, hz, -⟩ := exists_scaleBy_neg he hsmall hx
      exact ⟨z, by rw [scaleDecimal_of_le 0 x hsmall, hz]⟩
    · rw [scaleDecimal, if_neg hsmall, if_neg (not_le.mpr he)]
      split <;> exact ⟨_, rfl⟩
  | succ steps ih =>
    by_cases hsmall : e.natAbs ≤ greatestPower
    · obtain ⟨z, hz, -⟩ := exists_scaleBy_neg he hsmall hx
      exact ⟨z, by rw [scaleDecimal_of_le _ x hsmall, hz]⟩
    · rw [scaleDecimal, if_neg hsmall, if_neg (not_le.mpr he)]
      obtain ⟨z, hz, hbound⟩ := exists_scaleBy_neg (e := -greatestPower) (by decide) le_rfl hx
      split
      · exact ⟨_, rfl⟩
      · rw [hz]
        exact ih (by omega) hbound

/-- A scaled magnitude is too large if the power of ten is, or the rounded product. -/
theorem scaleDecimal_eq_none_iff (hx : x.toRat ≤ 2 ^ 100) :
    scaleDecimal 3 x e = none ↔ x.mantissa ≠ 0 ∧ greatestPower < e ∨
      ∃ (k : Nat) (y : Binary64), e = k ∧ k ≤ greatestPower ∧ Binary64.ofNat (10 ^ k) = some y ∧
        limit ≤ x.toRat * y.toRat := by
  rcases lt_or_ge e 0 with hneg | hnonneg
  · obtain ⟨z, hz⟩ := exists_scaleDecimal_neg 3 hneg hx
    rw [hz]
    constructor
    · nofun
    · rintro (⟨-, h⟩ | ⟨k, -, rfl, -⟩) <;> omega
  obtain ⟨k, rfl⟩ := Int.eq_ofNat_of_zero_le hnonneg
  by_cases hsmall : (k : Int).natAbs ≤ greatestPower
  · rw [scaleDecimal_of_le 3 x hsmall, scaleBy_eq_none_iff (k := k) hsmall]
    constructor
    · rintro ⟨y, hy⟩
      exact .inr ⟨k, y, rfl, hsmall, hy⟩
    · rintro (⟨-, h⟩ | ⟨k', y, hk, -, hy⟩)
      · omega
      · obtain rfl := Int.ofNat_inj.mp hk
        exact ⟨y, hy⟩
  · rw [scaleDecimal, if_neg hsmall, if_pos hnonneg]
    by_cases hzero : x.mantissa = 0
    · rw [if_pos (beq_iff_eq.mpr hzero)]
      constructor
      · nofun
      · rintro (⟨h, -⟩ | ⟨k', y, hk, hle, -⟩)
        · exact absurd hzero h
        · omega
    · rw [if_neg (fun h => hzero (beq_iff_eq.mp h))]
      exact ⟨fun _ => .inl ⟨hzero, by omega⟩, fun _ => rfl⟩

/-! ## Which numbers have no value -/

namespace Numeral

/-- The exponent that is written. -/
def writtenExponent (n : Numeral) : Int :=
  match n.exponent with
  | none => 0
  | some (negative, digits) =>
    if negative then -(Nat.ofDigitChars 10 digits 0 : Int) else Nat.ofDigitChars 10 digits 0

/-- The power of ten that the significand is scaled by. -/
def powerOfTen (n : Numeral) : Int := n.significand.2 + n.writtenExponent

/-- The number is too large, in the way in which it is read: its significand and the power of ten
are rounded, and so is their product. -/
inductive Overflows (n : Numeral) : Prop
  /-- The exponent as it is written is too large. -/
  | exponent : n.significand.1 ≠ 0 → exponentMax < n.writtenExponent → Overflows n
  /-- The power of ten is too large. -/
  | power : n.significand.1 ≠ 0 → n.writtenExponent.natAbs ≤ exponentMax →
      greatestPower < n.powerOfTen → Overflows n
  /-- The product is half a step past the greatest magnitude, or more. -/
  | product (k : Nat) (x y : Binary64) : n.writtenExponent.natAbs ≤ exponentMax →
      n.powerOfTen = k → k ≤ greatestPower → Binary64.ofNat n.significand.1 = some x →
      Binary64.ofNat (10 ^ k) = some y → limit ≤ x.toRat * y.toRat → Overflows n

theorem leadingDigits_le (h : s ≤ wordMax) : (leadingDigits s cs).1 ≤ wordMax := by
  induction cs generalizing s with
  | nil => exact h
  | cons c cs ih =>
    rw [leadingDigits]
    split
    · exact h
    · rename_i hle
      exact ih (not_lt.mp hle)

theorem significand_le (n : Numeral) : n.significand.1 ≤ wordMax :=
  leadingDigits_le (leadingDigits_le (Nat.zero_le _))

/-- The digits of an exponent are read up to a bound that no exponent may pass. -/
theorem foldl_exponent (cs : List Char) (a : Nat) :
    cs.foldl (fun e c => min (exponentMax + 1) (e * 10 + digitValue c)) (min (exponentMax + 1) a) =
      min (exponentMax + 1) (Nat.ofDigitChars 10 cs a) := by
  induction cs generalizing a with
  | nil => rfl
  | cons c cs ih =>
    have hstep : min (exponentMax + 1) (min (exponentMax + 1) a * 10 + digitValue c) =
        min (exponentMax + 1) (10 * a + (c.toNat - '0'.toNat)) := by
      unfold digitValue
      omega
    rw [List.foldl_cons, hstep, ih, Nat.ofDigitChars_cons]

/-- The magnitude of a number is that of its significand, scaled; too large an exponent makes it
nothing or too large. -/
theorem magnitude_eq (n : Numeral) : n.magnitude =
    if n.writtenExponent.natAbs ≤ exponentMax then
      (Binary64.ofNat n.significand.1).bind fun x => scaleDecimal 3 x n.powerOfTen
    else if n.significand.1 = 0 ∨ n.writtenExponent < 0 then some .zero else none := by
  unfold magnitude powerOfTen writtenExponent
  generalize n.significand = p
  obtain ⟨s, scale⟩ := p
  cases n.exponent with
  | none => simp
  | some exponent =>
    obtain ⟨negative, digits⟩ := exponent
    have hfold := foldl_exponent digits 0
    rw [Nat.min_zero] at hfold
    dsimp only
    rw [hfold]
    have habs : (if negative = true then -(Nat.ofDigitChars 10 digits 0 : Int)
        else Nat.ofDigitChars 10 digits 0).natAbs = Nat.ofDigitChars 10 digits 0 := by
      cases negative <;> simp
    rw [habs]
    by_cases hlarge : exponentMax < Nat.ofDigitChars 10 digits 0
    · have hpos : 0 < Nat.ofDigitChars 10 digits 0 := Nat.zero_lt_of_lt hlarge
      rw [Nat.min_eq_left hlarge, if_pos (Nat.lt_succ_self _), if_neg (not_le.mpr hlarge)]
      cases negative <;> simp [hpos, not_lt.mpr (Int.natCast_nonneg _)]
    · rw [Nat.min_eq_right (by omega), if_neg hlarge, if_pos (not_lt.mp hlarge)]
      cases negative <;> rfl

theorem significand_lt_limit (n : Numeral) : (n.significand.1 : ℚ) < limit := by
  have hle : n.significand.1 ≤ 2 ^ 110 := (significand_le n).trans (by decide)
  have hle' : (n.significand.1 : ℚ) ≤ 2 ^ 110 := by exact_mod_cast hle
  exact hle'.trans_lt two_pow_lt_limit

theorem toRat_significand_le (hx : Binary64.ofNat n.significand.1 = some x) :
    x.toRat ≤ 2 ^ 65 := by
  have hle : n.significand.1 ≤ 2 ^ 64 := (significand_le n).trans (by decide)
  have hle' : ((n.significand.1 : Nat) : ℚ) ≤ 2 ^ 64 := by exact_mod_cast hle
  have herror := abs_toRat_ofNat_sub_le (significand_lt_limit n) hx
  rw [abs_le] at herror
  linarith [herror.2]

theorem magnitude_eq_none_iff : n.magnitude = none ↔ n.Overflows := by
  obtain ⟨x, hx, -⟩ := exists_ofNat (significand_lt_limit n)
  have hsmall : x.toRat ≤ 2 ^ 100 := (toRat_significand_le hx).trans (by norm_num)
  have hzero : x.mantissa ≠ 0 ↔ n.significand.1 ≠ 0 := by
    rw [not_iff_not, Binary64.mantissa_eq_zero_iff (significand_lt_limit n) hx]
  rw [magnitude_eq, hx]
  constructor
  · intro h
    split at h
    · rename_i hwritten
      rcases (scaleDecimal_eq_none_iff hsmall).mp h with ⟨hne, hlarge⟩ | ⟨k, y, hk, hle, hy, hxy⟩
      · exact .power (hzero.mp hne) hwritten hlarge
      · exact .product k x y hwritten hk hle hx hy hxy
    · rename_i hwritten
      split at h
      · cases h
      · rename_i hnot
        rw [not_or] at hnot
        exact .exponent hnot.1 (by omega)
  · rintro (⟨hne, hlarge⟩ | ⟨hne, hwritten, hlarge⟩ | ⟨k, x', y, hwritten, hk, hle, hx', hy, hxy⟩)
    · rw [if_neg (by omega), if_neg (by omega)]
    · rw [if_pos hwritten]
      exact (scaleDecimal_eq_none_iff hsmall).mpr (.inl ⟨hzero.mpr hne, hlarge⟩)
    · rw [hx] at hx'
      obtain rfl := Option.some.inj hx'
      rw [if_pos hwritten]
      exact (scaleDecimal_eq_none_iff hsmall).mpr (.inr ⟨k, y, hk, hle, hy, hxy⟩)

/-- An integer of 64 bits is not too large. -/
theorem magnitude_ne_none (hwritten : n.writtenExponent = 0) (hpower : n.powerOfTen = 0) :
    n.magnitude ≠ none := by
  rw [Ne, magnitude_eq_none_iff]
  rintro (⟨-, hlarge⟩ | ⟨-, -, hlarge⟩ | ⟨k, x, y, -, hk, -, hx, hy, hxy⟩)
  · omega
  · omega
  · obtain rfl : k = 0 := by omega
    have hone := abs_toRat_ofNat_sub_le (pow_lt_limit (Nat.zero_le _)) hy
    have hxle := toRat_significand_le hx
    have hyle : y.toRat ≤ 2 := by
      rw [abs_le] at hone
      norm_num at hone
      linarith [hone.2]
    have hproduct : x.toRat * y.toRat ≤ 2 ^ 65 * 2 :=
      mul_le_mul hxle hyle y.toRat_nonneg (by norm_num)
    have hroom := two_pow_lt_limit
    norm_num at hroom hproduct
    linarith

/-- **A number has no value exactly if it is too large.** -/
theorem value_eq_none_iff : n.value = none ↔ n.Overflows := by
  rw [← magnitude_eq_none_iff]
  unfold value
  dsimp only
  split
  · simp
  · rename_i hword
    simp only [Bool.or_eq_true, Bool.not_eq_true', List.isEmpty_eq_false_iff, not_or, not_not,
      Option.not_isSome_iff_eq_none] at hword
    obtain ⟨⟨hbeyond, hfraction⟩, hexponent⟩ := hword
    have hwritten : n.writtenExponent = 0 := by rw [writtenExponent, hexponent]
    have hmagnitude : n.magnitude ≠ none := by
      refine magnitude_ne_none hwritten ?_
      unfold powerOfTen significand
      simp [hwritten, hfraction, hbeyond, leadingDigits]
    split
    · simp [hmagnitude]
    · split <;> simp [hmagnitude]

/-- Numbers on either side of the greatest magnitude: the nearer of them is too large, and the
farther one is not, since a part of its digits is left out. -/
example : Numeral.value ⟨false, "17976931348623157081".toList, [], some (false, ['2', '8', '9'])⟩ =
    none := by
  decide +kernel

example : (Numeral.value
    ⟨false, "179769313486231581".toList, [], some (false, ['2', '9', '1'])⟩).isSome = true := by
  decide +kernel

/-! ## The value that is written -/

theorem digitValue_le {c : Char} (h : c.isDigit = true) : digitValue c ≤ 9 := by
  rw [Char.isDigit_iff_toNat] at h
  unfold digitValue
  have hnine : '9'.toNat = '0'.toNat + 9 := rfl
  omega

/-- The natural number that digits stand for. -/
abbrev natural (cs : List Char) : Nat := Nat.ofDigitChars 10 cs 0

theorem natural_append (cs ds : List Char) :
    natural (cs ++ ds) = natural cs * 10 ^ ds.length + natural ds := by
  rw [natural, Nat.ofDigitChars_append, Nat.ofDigitChars_eq_ofDigitChars_zero, Nat.mul_comm]

theorem natural_lt (h : ∀ c ∈ cs, c.isDigit = true) : natural cs < 10 ^ cs.length := by
  induction cs using List.reverseRecOn with
  | nil => decide
  | append_singleton cs c ih =>
    have hc : natural [c] ≤ 9 := by
      have hdigit := digitValue_le (h c (by simp))
      unfold digitValue at hdigit
      simpa [natural, Nat.ofDigitChars_cons] using hdigit
    have hcs := ih fun d hd => h d (by simp [hd])
    rw [natural_append, List.length_append, List.length_singleton, pow_one, pow_succ]
    omega

/-- The leading digits are read as far as they fit, and where they do not, they are many. -/
theorem leadingDigits_spec (hd : ∀ c ∈ cs, c.isDigit = true) (h : leadingDigits m cs = (v, left)) :
    ∃ used, cs = used ++ left ∧ v = m * 10 ^ used.length + natural used ∧
      (left ≠ [] → 2 ^ 60 ≤ v) := by
  induction cs generalizing m with
  | nil =>
    cases h
    exact ⟨[], rfl, by simp [natural], fun h => absurd rfl h⟩
  | cons c cs ih =>
    have hc := digitValue_le (hd c List.mem_cons_self)
    rw [leadingDigits] at h
    split at h
    · rename_i hlarge
      cases h
      refine ⟨[], rfl, by simp [natural], fun _ => ?_⟩
      have hmax : wordMax = 2 ^ 64 - 1 := rfl
      omega
    · obtain ⟨used, rfl, hv, hleft⟩ := ih (fun d hd' => hd d (List.mem_cons_of_mem c hd')) h
      refine ⟨c :: used, rfl, ?_, hleft⟩
      have hone : natural (c :: used) = digitValue c * 10 ^ used.length + natural used := by
        rw [← List.singleton_append, natural_append]
        simp [natural, Nat.ofDigitChars_cons, digitValue]
      rw [hv, hone, List.length_cons, pow_succ]
      ring

/-- The value of a number as it is written, without its sign. -/
def writtenValue (n : Numeral) : ℚ :=
  natural (n.whole ++ n.fraction) * 10 ^ (n.writtenExponent - n.fraction.length)

/-- The value that a number is read as, before it is rounded. -/
def readValue (n : Numeral) : ℚ := n.significand.1 * 10 ^ n.powerOfTen

/-- Numbers that lie between the same multiples of `q` differ by little, if the multiples are
large. -/
theorem near_of_between {a t u q : Nat} (hu : 2 ^ 60 ≤ u) (ha : u * q ≤ a ∧ a < u * q + q)
    (ht : u * q ≤ t ∧ t < u * q + q) :
    a * 2 ^ 60 ≤ t * 2 ^ 60 + t ∧ t * 2 ^ 60 ≤ a * 2 ^ 60 + t := by
  have hq : 2 ^ 60 * q ≤ u * q := Nat.mul_le_mul_right q hu
  omega

/-- Digits are in four runs: read and left out, before the point and after it. Where some are left
out, many have been read. -/
theorem near_of_runs {u b i g j l k : Nat} (hb : i < b) (hg : j < g) (hl : k < l)
    (hwhole : b = 1 ∨ 2 ^ 60 ≤ u) (hfraction : l = 1 ∨ 2 ^ 60 ≤ u * g + j) :
    let a := (u * g + j) * (b * l)
    let t := (u * b + i) * (g * l) + (j * l + k)
    a * 2 ^ 60 ≤ t * 2 ^ 60 + t ∧ t * 2 ^ 60 ≤ a * 2 ^ 60 + t := by
  intro a t
  rcases hwhole with rfl | hmany
  · obtain rfl : i = 0 := by omega
    have ha : a = (u * g + j) * l := by ring
    have ht : t = (u * g + j) * l + k := by ring
    rcases hfraction with rfl | hmany
    · omega
    · exact near_of_between (q := l) hmany (by omega) (by omega)
  · have htaken : (j + 1) * (b * l) ≤ g * (b * l) := Nat.mul_le_mul_right _ hg
    have hbeyond : (i + 1) * (g * l) ≤ b * (g * l) := Nat.mul_le_mul_right _ hb
    have hlast : (j + 1) * l ≤ g * l := Nat.mul_le_mul_right _ hg
    have hq : g * (b * l) = b * (g * l) := by ring
    have hpos : 0 < b * l := Nat.mul_pos (by omega) (by omega)
    have ha : a = u * (b * (g * l)) + j * (b * l) := by ring
    have ht : t = u * (b * (g * l)) + (i * (g * l) + j * l + k) := by ring
    simp only [Nat.add_mul, Nat.one_mul] at htaken hbeyond hlast
    exact near_of_between (q := b * (g * l)) hmany (by omega) (by omega)

/-- What is read is a natural number of the same last place as what is written, and near that. -/
theorem exists_readValue_eq (h : n.IsDecimal) :
    let t := natural (n.whole ++ n.fraction)
    ∃ a : Nat, n.readValue = a * 10 ^ (n.writtenExponent - n.fraction.length) ∧
      a * 2 ^ 60 ≤ t * 2 ^ 60 + t ∧ t * 2 ^ 60 ≤ a * 2 ^ 60 + t := by
  intro t
  obtain ⟨⟨v₁, beyond⟩, hwhole⟩ : ∃ p, leadingDigits 0 n.whole = p := ⟨_, rfl⟩
  obtain ⟨⟨v, left⟩, hfraction⟩ : ∃ p, leadingDigits v₁ n.fraction = p := ⟨_, rfl⟩
  obtain ⟨used, hused, hv₁, hmany⟩ := leadingDigits_spec h.whole hwhole
  obtain ⟨taken, htaken, hv, hmany'⟩ := leadingDigits_spec h.fraction hfraction
  have hsignificand : n.significand = (v, (beyond.length : Int) - taken.length) := by
    unfold significand
    rw [hwhole]
    dsimp only
    rw [hfraction, htaken, List.length_append, Nat.add_sub_cancel]
  refine ⟨v * (10 ^ beyond.length * 10 ^ left.length), ?_, ?_⟩
  · have hpower : n.powerOfTen = (beyond.length : Int) + left.length +
        (n.writtenExponent - n.fraction.length) := by
      rw [powerOfTen, hsignificand, htaken, List.length_append]
      push_cast
      ring
    have hten : (10 : ℚ) ≠ 0 := by norm_num
    rw [readValue, hpower, hsignificand, zpow_add₀ hten, zpow_add₀ hten, zpow_natCast,
      zpow_natCast]
    push_cast
    ring
  · have ht : t = (v₁ * 10 ^ beyond.length + natural beyond) *
        (10 ^ taken.length * 10 ^ left.length) +
          (natural taken * 10 ^ left.length + natural left) := by
      show natural (n.whole ++ n.fraction) = _
      rw [natural_append, hused, natural_append, htaken, natural_append, List.length_append,
        pow_add, hv₁, Nat.zero_mul, Nat.zero_add]
    rw [ht, hv]
    refine near_of_runs (natural_lt fun c hc => h.whole c (by simp [hused, hc]))
      (natural_lt fun c hc => h.fraction c (by simp [htaken, hc]))
      (natural_lt fun c hc => h.fraction c (by simp [htaken, hc])) ?_ ?_
    · by_cases hnil : beyond = []
      · exact .inl (by rw [hnil]; rfl)
      · exact .inr (hmany hnil)
    · by_cases hnil : left = []
      · exact .inl (by rw [hnil]; rfl)
      · exact .inr (hv ▸ hmany' hnil)

/-- The digits that are left out are at most one part in `2 ^ 60`. -/
theorem abs_readValue_sub_le (h : n.IsDecimal) :
    |n.readValue - n.writtenValue| ≤ n.writtenValue / 2 ^ 60 := by
  obtain ⟨a, hread, hlow, hhigh⟩ := exists_readValue_eq h
  rw [hread, writtenValue]
  generalize natural (n.whole ++ n.fraction) = t at *
  have hplace : (0 : ℚ) < 10 ^ (n.writtenExponent - n.fraction.length) := by positivity
  generalize (10 : ℚ) ^ (n.writtenExponent - n.fraction.length) = p at *
  have hlow' : (a : ℚ) * 2 ^ 60 ≤ t * 2 ^ 60 + t := by exact_mod_cast hlow
  have hhigh' : (t : ℚ) * 2 ^ 60 ≤ a * 2 ^ 60 + t := by exact_mod_cast hhigh
  have hdiff : |(a : ℚ) - t| ≤ t / 2 ^ 60 := by
    rw [abs_sub_le_iff, le_div_iff₀ (by positivity), le_div_iff₀ (by positivity)]
    constructor <;> linarith
  rw [← sub_mul, abs_mul, abs_of_pos hplace, mul_div_right_comm]
  exact mul_le_mul_of_nonneg_right hdiff hplace.le

/-- The product of the rounded significand and the rounded power is near the scaled value. -/
theorem mul_bounds {k : Nat} {x y : Binary64} (hpower : n.powerOfTen = k) (hk : k ≤ greatestPower)
    (hx : Binary64.ofNat n.significand.1 = some x) (hy : Binary64.ofNat (10 ^ k) = some y) :
    (1 - 1 / 2 ^ 52) * n.readValue ≤ x.toRat * y.toRat ∧
      x.toRat * y.toRat ≤ (1 + 1 / 2 ^ 51) * n.readValue := by
  have hxs := abs_toRat_ofNat_sub_le (significand_lt_limit n) hx
  have hyp := abs_toRat_ofNat_sub_le (pow_lt_limit hk) hy
  have hscaled : n.readValue = n.significand.1 * (10 ^ k : Nat) := by
    rw [readValue, hpower, zpow_natCast]
    push_cast
    rfl
  rw [hscaled]
  have hs : (0 : ℚ) ≤ n.significand.1 := Nat.cast_nonneg _
  have hp : (0 : ℚ) ≤ (10 ^ k : Nat) := Nat.cast_nonneg _
  generalize (n.significand.1 : ℚ) = s at *
  generalize ((10 ^ k : Nat) : ℚ) = p at *
  rw [abs_sub_le_iff] at hxs hyp
  have hprod : 0 ≤ s * p := mul_nonneg hs hp
  constructor
  · calc (1 - 1 / 2 ^ 52) * (s * p) ≤ (s - s / 2 ^ 53) * (p - p / 2 ^ 53) := by
          ring_nf
          linarith
      _ ≤ x.toRat * y.toRat := by
          apply mul_le_mul (by linarith) (by linarith) ?_ x.toRat_nonneg
          linarith [div_le_self hp (by norm_num : (1 : ℚ) ≤ 2 ^ 53)]
  · calc x.toRat * y.toRat ≤ (s + s / 2 ^ 53) * (p + p / 2 ^ 53) :=
          mul_le_mul (by linarith) (by linarith) y.toRat_nonneg (by positivity)
      _ ≤ (1 + 1 / 2 ^ 51) * (s * p) := by
          ring_nf
          linarith

/-! ## Which numbers are too large, but for one part in `2 ^ 50` -/

/-- **A number well below the limit is not too large.** -/
theorem not_overflows_of_le (h : n.IsDecimal) (hwritten : n.writtenExponent.natAbs ≤ exponentMax)
    (hsmall : n.writtenValue ≤ (1 - 1 / 2 ^ 50) * limit) : ¬ n.Overflows := by
  have hlimit := limit_pos
  have hnear := abs_readValue_sub_le h
  rw [abs_sub_le_iff] at hnear
  rintro (⟨-, hlarge⟩ | ⟨hne, -, hlarge⟩ | ⟨k, x, y, -, hk, hle, hx, hy, hxy⟩)
  · omega
  · -- With so great a power any significand leads past the limit.
    have hone : (1 : ℚ) ≤ n.significand.1 := by
      exact_mod_cast Nat.one_le_iff_ne_zero.mpr hne
    have hpower : (10 : ℚ) ^ (greatestPower + 1) ≤ 10 ^ n.powerOfTen := by
      rw [← zpow_natCast]
      exact zpow_le_zpow_right₀ (by norm_num) (by push_cast; omega)
    have hscaled : (10 : ℚ) ^ n.powerOfTen ≤ n.readValue := by
      unfold readValue
      exact le_mul_of_one_le_left (by positivity) hone
    linarith [limit_lt_pow]
  · obtain ⟨-, hhigh⟩ := mul_bounds hk hle hx hy
    linarith

/-- **A number well above the limit is too large.** -/
theorem overflows_of_limit_le (h : n.IsDecimal)
    (hwritten : n.writtenExponent.natAbs ≤ exponentMax)
    (hlarge : (1 + 1 / 2 ^ 50) * limit ≤ n.writtenValue) : n.Overflows := by
  have hlimit := limit_pos
  have hnear := abs_readValue_sub_le h
  rw [abs_sub_le_iff] at hnear
  have hscaled : (1 + 1 / 2 ^ 51) * limit ≤ n.readValue := by linarith
  rcases lt_or_ge n.powerOfTen 0 with hneg | hnonneg
  · -- Scaled down, the significand stays below the limit.
    have hdown : n.readValue ≤ n.significand.1 := by
      unfold readValue
      exact mul_le_of_le_one_right (Nat.cast_nonneg _)
        (zpow_le_one_of_nonpos₀ (by norm_num) hneg.le)
    linarith [significand_lt_limit n]
  obtain ⟨k, hk⟩ := Int.eq_ofNat_of_zero_le hnonneg
  by_cases hle : k ≤ greatestPower
  · obtain ⟨x, hx, -⟩ := exists_ofNat (significand_lt_limit n)
    obtain ⟨y, -, hy, -⟩ := exists_power hle
    obtain ⟨hlow, -⟩ := mul_bounds hk hle hx hy
    exact .product k x y hwritten hk hle hx hy (by linarith)
  · refine .power ?_ hwritten (by omega)
    intro hzero
    have hnothing : n.readValue = 0 := by rw [readValue, hzero, Nat.cast_zero, zero_mul]
    linarith

end Numeral

end StageLens.Json
