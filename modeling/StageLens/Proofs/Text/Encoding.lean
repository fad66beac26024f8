import StageLens.Text.Utf8
import Mathlib.Data.Char

/-!
# Characters in bytes

How the reader of UTF-8 goes together with the encoding of characters. A byte that opens a
character says how many bytes follow, which bits of the character it carries and, where some
continuations would be overlong, a surrogate or out of range, which byte may come next (`Role`).

* The bytes of every character are an opening byte and what completes it
  (`exists_of_encode`).
* Whatever completes an opening byte makes the character of these bytes
  (`Completes.encode`).
-/

namespace StageLens.Text

/-! ## Roles of bytes -/

/-- The roles of bytes in numbers, by the size of the character they begin. The bounds on the next
byte differ from those of all later ones where the size leaves no other choice. -/
inductive Role (a : UInt8) : Lead → Prop
  | single (ha : a.toNat < 0x80) : Role a (.single (Char.ofNat a.toNat))
  | two (x : Nat) (ha : a.toNat = x + 0xC0) (hlow : 2 ≤ x) (hhigh : x < 32) :
      Role a (.opens ⟨1, x, 0x80, 0xBF⟩)
  | three (x : Nat) (low high : UInt8) (ha : a.toNat = x + 0xE0) (hx : x < 16)
      (hlow : x = 0 ∧ low.toNat = 0xA0 ∨ 0 < x ∧ low.toNat = 0x80)
      (hhigh : x = 13 ∧ high.toNat = 0x9F ∨ x ≠ 13 ∧ high.toNat = 0xBF) :
      Role a (.opens ⟨2, x, low, high⟩)
  | four (x : Nat) (low high : UInt8) (ha : a.toNat = x + 0xF0) (hx : x < 5)
      (hlow : x = 0 ∧ low.toNat = 0x90 ∨ 0 < x ∧ low.toNat = 0x80)
      (hhigh : x = 4 ∧ high.toNat = 0x8F ∨ x < 4 ∧ high.toNat = 0xBF) :
      Role a (.opens ⟨3, x, low, high⟩)
  | stray (hlow : 0x80 ≤ a.toNat) (hhigh : a.toNat < 0xC2 ∨ 0xF4 < a.toNat) : Role a .stray

theorem role_lead (a : UInt8) : Role a (lead a) := by
  unfold lead
  dsimp only
  split
  · exact .single ‹_›
  split
  · exact .stray (by omega) (.inl ‹_›)
  split
  · exact .two _ (by omega) (by omega) (by omega)
  simp only [beq_iff_eq]
  split
  · exact .three 0 _ _ (by omega) (by omega) (.inl ⟨rfl, rfl⟩) (.inr ⟨by omega, rfl⟩)
  split
  · exact .three 13 _ _ (by omega) (by omega) (.inr ⟨by omega, rfl⟩) (.inl ⟨rfl, rfl⟩)
  split
  · exact .three _ _ _ (by omega) (by omega) (.inr ⟨by omega, rfl⟩) (.inr ⟨by omega, rfl⟩)
  split
  · exact .four 0 _ _ (by omega) (by omega) (.inl ⟨rfl, rfl⟩) (.inr ⟨by omega, rfl⟩)
  split
  · exact .four _ _ _ (by omega) (by omega) (.inr ⟨by omega, rfl⟩) (.inr ⟨by omega, rfl⟩)
  split
  · exact .four 4 _ _ (by omega) (by omega) (.inr ⟨by omega, rfl⟩) (.inl ⟨rfl, rfl⟩)
  · exact .stray (by omega) (.inr (by omega))

section Roles

variable {a : UInt8} {x : Nat}

theorem lead_of_single (ha : a.toNat < 0x80) : lead a = .single (Char.ofNat a.toNat) := by
  have hrole := role_lead a
  generalize lead a = l at hrole ⊢
  cases hrole with
  | single => rfl
  | two | three | four | stray => omega

theorem lead_of_two (ha : a.toNat = x + 0xC0) (hlow : 2 ≤ x) (hhigh : x < 32) :
    lead a = .opens ⟨1, x, 0x80, 0xBF⟩ := by
  have hrole := role_lead a
  generalize lead a = l at hrole ⊢
  cases hrole with
  | two y =>
    obtain rfl : x = y := by omega
    rfl
  | single | three | four | stray => omega

theorem exists_lead_of_three (ha : a.toNat = x + 0xE0) (hx : x < 16) :
    ∃ low high, lead a = .opens ⟨2, x, low, high⟩ ∧
      (x = 0 ∧ low.toNat = 0xA0 ∨ 0 < x ∧ low.toNat = 0x80) ∧
      (x = 13 ∧ high.toNat = 0x9F ∨ x ≠ 13 ∧ high.toNat = 0xBF) := by
  have hrole := role_lead a
  generalize lead a = l at hrole ⊢
  cases hrole with
  | three y low high hy _ hlow hhigh =>
    obtain rfl : x = y := by omega
    exact ⟨low, high, rfl, hlow, hhigh⟩
  | single | two | four | stray => omega

theorem exists_lead_of_four (ha : a.toNat = x + 0xF0) (hx : x < 5) :
    ∃ low high, lead a = .opens ⟨3, x, low, high⟩ ∧
      (x = 0 ∧ low.toNat = 0x90 ∨ 0 < x ∧ low.toNat = 0x80) ∧
      (x = 4 ∧ high.toNat = 0x8F ∨ x < 4 ∧ high.toNat = 0xBF) := by
  have hrole := role_lead a
  generalize lead a = l at hrole ⊢
  cases hrole with
  | four y low high hy _ hlow hhigh =>
    obtain rfl : x = y := by omega
    exact ⟨low, high, rfl, hlow, hhigh⟩
  | single | two | three | stray => omega

end Roles

/-! ## Completions -/

/-- The bytes that complete an open character, and the character they make. -/
inductive Completes : Opened → Bytes → Char → Prop
  | last {o : Opened} {b : UInt8} {c : Char} (hmissing : o.missing ≤ 1) (hlow : o.low ≤ b)
      (hhigh : b ≤ o.high) (hc : c = Char.ofNat (o.value * 64 + (b.toNat - 0x80))) :
      Completes o [b] c
  | more {o : Opened} {b : UInt8} {bs : Bytes} {c : Char} (hmissing : ¬ o.missing ≤ 1)
      (hlow : o.low ≤ b) (hhigh : b ≤ o.high)
      (hrest : Completes ⟨o.missing - 1, o.value * 64 + (b.toNat - 0x80), 0x80, 0xBF⟩ bs c) :
      Completes o (b :: bs) c

theorem toNat_ofNat {n : Nat} (h : n.isValidChar) : (Char.ofNat n).val.toNat = n := by
  rw [Char.ofNat, dif_pos h]
  rfl

section Digits

variable {m x d : Nat} {low high : UInt8} {bs : Bytes} {c : Char}

theorem toNat_byte {n : Nat} (hn : n < 0x100) : (UInt8.ofNat n).toNat = n := by
  rw [UInt8.toNat_ofNat', Nat.mod_eq_of_lt hn]

/-- A byte after the first one carries six bits. -/
theorem Completes.last_digit (hm : m ≤ 1) (hd : d < 64) (hlow : low.toNat ≤ d + 0x80)
    (hhigh : d + 0x80 ≤ high.toNat) (hc : c = Char.ofNat (x * 64 + d)) :
    Completes ⟨m, x, low, high⟩ [UInt8.ofNat (d + 0x80)] c := by
  have hb : (UInt8.ofNat (d + 0x80)).toNat = d + 0x80 := toNat_byte (by omega)
  refine .last hm ?_ ?_ ?_
  · rwa [UInt8.le_iff_toNat_le, hb]
  · rwa [UInt8.le_iff_toNat_le, hb]
  · rw [hb, Nat.add_sub_cancel, hc]

theorem Completes.more_digit (hm : ¬ m ≤ 1) (hd : d < 64) (hlow : low.toNat ≤ d + 0x80)
    (hhigh : d + 0x80 ≤ high.toNat)
    (hrest : Completes ⟨m - 1, x * 64 + d, 0x80, 0xBF⟩ bs c) :
    Completes ⟨m, x, low, high⟩ (UInt8.ofNat (d + 0x80) :: bs) c := by
  have hb : (UInt8.ofNat (d + 0x80)).toNat = d + 0x80 := toNat_byte (by omega)
  refine .more hm ?_ ?_ ?_
  · rwa [UInt8.le_iff_toNat_le, hb]
  · rwa [UInt8.le_iff_toNat_le, hb]
  · rwa [hb, Nat.add_sub_cancel]

/-- What stands first in the bytes that complete a character, and what is left to do. -/
theorem Completes.first (h : Completes ⟨m, x, low, high⟩ bs c) : ∃ b rest, bs = b :: rest ∧
    low.toNat ≤ b.toNat ∧ b.toNat ≤ high.toNat ∧
    (m ≤ 1 → rest = [] ∧ c = Char.ofNat (x * 64 + (b.toNat - 0x80))) ∧
    (1 < m → Completes ⟨m - 1, x * 64 + (b.toNat - 0x80), 0x80, 0xBF⟩ rest c) := by
  cases h with
  | last hm hlow hhigh hc =>
    exact ⟨_, _, rfl, hlow, hhigh, fun _ => ⟨rfl, hc⟩, fun h => absurd hm (Nat.not_le_of_lt h)⟩
  | more hm hlow hhigh hrest =>
    exact ⟨_, _, rfl, hlow, hhigh, fun h => absurd h hm, fun _ => hrest⟩

end Digits

/-- The bytes of a character, read from the first one on. -/
theorem exists_of_encode (c : Char) : ∃ a bs, String.utf8EncodeChar c = a :: bs ∧
    ((lead a = .single c ∧ bs = []) ∨ ∃ o, lead a = .opens o ∧ Completes o bs c) := by
  have hvalid : c.val.toNat < 0xD800 ∨ 0xDFFF < c.val.toNat ∧ c.val.toNat < 0x110000 := c.valid
  have hofNat : c = Char.ofNat c.val.toNat := (Char.ofNat_toNat c).symm
  have hmin : (0x80 : UInt8).toNat = 0x80 := rfl
  have hmax : (0xBF : UInt8).toNat = 0xBF := rfl
  unfold String.utf8EncodeChar
  generalize c.val.toNat = v at *
  dsimp only
  split
  · have ha : (UInt8.ofNat v).toNat = v := toNat_byte (by omega)
    refine ⟨_, _, rfl, .inl ⟨?_, rfl⟩⟩
    rw [lead_of_single (by omega), ha, hofNat]
  split
  · have ha : (UInt8.ofNat (v / 64 % 32 + 0xC0)).toNat = v / 64 % 32 + 0xC0 :=
      toNat_byte (by omega)
    have hlead := lead_of_two ha (by omega) (by omega)
    refine ⟨_, _, rfl, .inr ⟨_, hlead, ?_⟩⟩
    refine .last_digit (by omega) (by omega) (by omega) (by omega) ?_
    rw [hofNat]
    congr 1
    omega
  split
  · have ha : (UInt8.ofNat (v / 4096 % 16 + 0xE0)).toNat = v / 4096 % 16 + 0xE0 :=
      toNat_byte (by omega)
    obtain ⟨low, high, hlead, hlow, hhigh⟩ := exists_lead_of_three ha (by omega)
    refine ⟨_, _, rfl, .inr ⟨_, hlead, ?_⟩⟩
    refine .more_digit (by omega) (by omega) (by omega) (by omega) ?_
    refine .last_digit (by omega) (by omega) (by omega) (by omega) ?_
    rw [hofNat]
    congr 1
    omega
  · have ha : (UInt8.ofNat (v / 262144 % 8 + 0xF0)).toNat = v / 262144 % 8 + 0xF0 :=
      toNat_byte (by omega)
    obtain ⟨low, high, hlead, hlow, hhigh⟩ := exists_lead_of_four ha (by omega)
    refine ⟨_, _, rfl, .inr ⟨_, hlead, ?_⟩⟩
    refine .more_digit (by omega) (by omega) (by omega) (by omega) ?_
    refine .more_digit (by omega) (by omega) (by omega) (by omega) ?_
    refine .last_digit (by omega) (by omega) (by omega) (by omega) ?_
    rw [hofNat]
    congr 1
    omega

/-- The bytes of a character in numbers. -/
theorem encode_ofNat {n : Nat} (h : n.isValidChar) : String.utf8EncodeChar (Char.ofNat n) =
    if n ≤ 0x7F then [UInt8.ofNat n]
    else if n ≤ 0x7FF then [UInt8.ofNat (n / 64 % 32 + 0xC0), UInt8.ofNat (n % 64 + 0x80)]
    else if n ≤ 0xFFFF then [UInt8.ofNat (n / 4096 % 16 + 0xE0), UInt8.ofNat (n / 64 % 64 + 0x80),
      UInt8.ofNat (n % 64 + 0x80)]
    else [UInt8.ofNat (n / 262144 % 8 + 0xF0), UInt8.ofNat (n / 4096 % 64 + 0x80),
      UInt8.ofNat (n / 64 % 64 + 0x80), UInt8.ofNat (n % 64 + 0x80)] := by
  have hval := toNat_ofNat h
  generalize Char.ofNat n = c at hval ⊢
  rw [← hval]
  rfl

theorem encode_of_single {a : UInt8} {c : Char} (ha : lead a = .single c) :
    String.utf8EncodeChar c = [a] := by
  have hrole := role_lead a
  rw [ha] at hrole
  cases hrole with
  | single ha =>
    rw [encode_ofNat (.inl (by omega)), if_pos (by omega), UInt8.ofNat_toNat]

/-- Whatever completes an open character makes a character of these bytes. -/
theorem Completes.encode {a : UInt8} {o : Opened} {bs : Bytes} {c : Char}
    (h : Completes o bs c) (ha : lead a = .opens o) : String.utf8EncodeChar c = a :: bs := by
  have hrole := role_lead a
  rw [ha] at hrole
  cases hrole with
  | two x hx hlow hhigh =>
    obtain ⟨b, _, rfl, hb, hb', hlast, -⟩ := h.first
    obtain ⟨rfl, hc⟩ := hlast (Nat.le_refl 1)
    simp only [UInt8.reduceToNat] at hb hb'
    rw [hc, encode_ofNat (.inl (by omega)), if_neg (by omega), if_pos (by omega)]
    simp only [List.cons.injEq, ← UInt8.toNat_inj, UInt8.toNat_ofNat', and_true]
    omega
  | three x low high hx =>
    obtain ⟨b, _, rfl, hb, hb', -, hmore⟩ := h.first
    obtain ⟨b', _, rfl, hd, hd', hlast, -⟩ := (hmore (by omega)).first
    obtain ⟨rfl, hc⟩ := hlast (Nat.le_refl 1)
    simp only [UInt8.reduceToNat] at hd hd'
    have hvalid : ((x * 64 + (b.toNat - 0x80)) * 64 + (b'.toNat - 0x80)).isValidChar := by
      unfold Nat.isValidChar
      omega
    rw [hc, encode_ofNat hvalid, if_neg (by omega), if_neg (by omega), if_pos (by omega)]
    simp only [List.cons.injEq, ← UInt8.toNat_inj, UInt8.toNat_ofNat', and_true]
    omega
  | four x low high hx =>
    obtain ⟨b, _, rfl, hb, hb', -, hmore⟩ := h.first
    obtain ⟨b', _, rfl, hd, hd', -, hmore'⟩ := (hmore (by omega)).first
    obtain ⟨b'', _, rfl, he, he', hlast, -⟩ := (hmore' (by omega)).first
    obtain ⟨rfl, hc⟩ := hlast (Nat.le_refl 1)
    simp only [UInt8.reduceToNat] at hd hd' he he'
    have hvalid : (((x * 64 + (b.toNat - 0x80)) * 64 + (b'.toNat - 0x80)) * 64 +
        (b''.toNat - 0x80)).isValidChar := by
      unfold Nat.isValidChar
      omega
    rw [hc, encode_ofNat hvalid, if_neg (by omega), if_neg (by omega), if_neg (by omega)]
    simp only [List.cons.injEq, ← UInt8.toNat_inj, UInt8.toNat_ofNat', and_true]
    omega

end StageLens.Text
