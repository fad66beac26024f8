import StageLens.Proofs.Text.Encoding
import Mathlib.Data.Nat.Find

/-!
# What bytes read as

Decoding against a description of what it should give. `ReadsAs` takes bytes apart into encodings
of characters and maximal parts that are no text: a part is maximal when no character can be read
where it starts and no longer run of bytes from there on is the beginning of a character. `decode`
gives the characters, with one replacement character for each such part, and nothing else reads as
the bytes (`readsAs_iff`); so the bytes of a text decode to it (`decodeText_bytes`).
-/

namespace StageLens.Text

variable {o : Opened} {p bs : Bytes} {c : Char} {b : UInt8}

namespace Reader

@[simp] theorem feed_nil (r : Reader) : r.feed [] = r := rfl

@[simp] theorem feed_cons (r : Reader) (b : UInt8) (bs : Bytes) :
    r.feed (b :: bs) = (r.step b).feed bs := rfl

theorem step_last (read : List Char) (hmissing : o.missing ≤ 1) (hlow : o.low ≤ b)
    (hhigh : b ≤ o.high) : step ⟨read, some o⟩ b =
      ⟨Char.ofNat (o.value * 64 + (b.toNat - 0x80)) :: read, none⟩ := by
  simp [step, hlow, hhigh, hmissing]

theorem step_more (read : List Char) (hmissing : ¬ o.missing ≤ 1) (hlow : o.low ≤ b)
    (hhigh : b ≤ o.high) : step ⟨read, some o⟩ b =
      ⟨read, some ⟨o.missing - 1, o.value * 64 + (b.toNat - 0x80), 0x80, 0xBF⟩⟩ := by
  simp [step, hlow, hhigh, hmissing]

theorem step_refused (read : List Char) (h : ¬ (o.low ≤ b ∧ b ≤ o.high)) :
    step ⟨read, some o⟩ b = step ⟨replacement :: read, none⟩ b := by
  simp only [step, if_neg h]

/-- What was read before stays as it is. -/
theorem begin_append (read earlier : List Char) (b : UInt8) :
    begin (read ++ earlier) b = ⟨(begin read b).read ++ earlier, (begin read b).opened⟩ := by
  unfold begin
  cases lead b <;> rfl

theorem step_append (read earlier : List Char) (opened : Option Opened) (b : UInt8) :
    step ⟨read ++ earlier, opened⟩ b =
      ⟨(step ⟨read, opened⟩ b).read ++ earlier, (step ⟨read, opened⟩ b).opened⟩ := by
  cases opened with
  | none => exact begin_append read earlier b
  | some o =>
    by_cases h : o.low ≤ b ∧ b ≤ o.high
    · by_cases hmissing : o.missing ≤ 1
      · rw [step_last _ hmissing h.1 h.2, step_last _ hmissing h.1 h.2, List.cons_append]
      · rw [step_more _ hmissing h.1 h.2, step_more _ hmissing h.1 h.2]
    · rw [step_refused _ h, step_refused _ h]
      exact begin_append (replacement :: read) earlier b

theorem close_feed_append (read earlier : List Char) (opened : Option Opened) (bs : Bytes) :
    (feed ⟨read ++ earlier, opened⟩ bs).close =
      earlier.reverse ++ (feed ⟨read, opened⟩ bs).close := by
  induction bs generalizing read opened with
  | nil => cases opened <;> simp [close]
  | cons b bs ih => rw [feed_cons, feed_cons, step_append, ih]

/-- Between two characters, what follows is read as if nothing had been read before. -/
theorem close_feed (read : List Char) (bs : Bytes) :
    (feed ⟨read, none⟩ bs).close = read.reverse ++ decode bs :=
  close_feed_append [] read none bs

end Reader

open Reader

theorem Completes.feed (h : Completes o bs c) (read : List Char) :
    Reader.feed ⟨read, some o⟩ bs = ⟨c :: read, none⟩ := by
  induction h with
  | last hmissing hlow hhigh hc => rw [feed_cons, step_last _ hmissing hlow hhigh, hc, feed_nil]
  | more hmissing hlow hhigh _ ih => rw [feed_cons, step_more _ hmissing hlow hhigh, ih]

/-- A character whose last bytes are missing stays open, and what completes what is left of it
completes it. -/
theorem Completes.feed_of_prefix (h : Completes o bs c) (hp : p <+: bs) (hne : p ≠ bs)
    (read : List Char) : ∃ o', Reader.feed ⟨read, some o⟩ p = ⟨read, some o'⟩ ∧
      ∀ bs' c', Completes o' bs' c' → Completes o (p ++ bs') c' := by
  induction h generalizing p with
  | @last o b c hmissing hlow hhigh hc =>
    cases p with
    | nil => exact ⟨o, rfl, fun _ _ h => h⟩
    | cons a p =>
      obtain ⟨rfl, hrest⟩ := List.cons_prefix_cons.mp hp
      exact absurd (congrArg (a :: ·) (List.prefix_nil.mp hrest)) hne
  | @more o b bs c hmissing hlow hhigh _ ih =>
    cases p with
    | nil => exact ⟨o, rfl, fun _ _ h => h⟩
    | cons a p =>
      obtain ⟨rfl, hrest⟩ := List.cons_prefix_cons.mp hp
      obtain ⟨o', hfeed, hcompletes⟩ := ih hrest (fun h => hne (congrArg (a :: ·) h))
      refine ⟨o', ?_, fun bs' c' h => .more hmissing hlow hhigh (hcompletes bs' c' h)⟩
      rw [feed_cons, step_more _ hmissing hlow hhigh, hfeed]

/-- Any byte that an open character can have next is followed by bytes that complete it. -/
theorem exists_completes (hlow : o.low ≤ b) (hhigh : b ≤ o.high) :
    ∃ bs c, Completes o (b :: bs) c := by
  have hmin : (0x80 : UInt8) ≤ 0x80 ∧ (0x80 : UInt8) ≤ 0xBF := by decide
  generalize hm : o.missing = m
  induction m generalizing o b with
  | zero => exact ⟨[], _, .last (by omega) hlow hhigh rfl⟩
  | succ m ih =>
    by_cases hmissing : o.missing ≤ 1
    · exact ⟨[], _, .last hmissing hlow hhigh rfl⟩
    · obtain ⟨bs, c, h⟩ := ih (o := ⟨o.missing - 1, o.value * 64 + (b.toNat - 0x80), 0x80, 0xBF⟩)
        hmin.1 hmin.2 (by simp [hm])
      exact ⟨0x80 :: bs, c, .more hmissing hlow hhigh h⟩

/-! ## Beginnings of characters -/

/-- Some character begins with these bytes. -/
def Begins (p : Bytes) : Prop := ∃ c, p <+: String.utf8EncodeChar c

theorem decode_encode_append (c : Char) (rest : Bytes) :
    decode (String.utf8EncodeChar c ++ rest) = c :: decode rest := by
  obtain ⟨a, bs, hencode, hlead⟩ := exists_of_encode c
  have hfeed : start.feed (String.utf8EncodeChar c) = ⟨[c], none⟩ := by
    rw [hencode, feed_cons]
    rcases hlead with ⟨hlead, rfl⟩ | ⟨o, hlead, hcompletes⟩
    · simp [step, start, begin, hlead]
    · have hstep : start.step a = ⟨[], some o⟩ := by simp [step, start, begin, hlead]
      rw [hstep, hcompletes.feed]
  rw [decode, feed_append, hfeed, close_feed]
  rfl

/-- The reader after the first bytes of a character that has more: the character is open, and each
byte that it can have next leads to a character. -/
theorem exists_opened (hp : p <+: String.utf8EncodeChar c) (hnil : p ≠ [])
    (hne : p ≠ String.utf8EncodeChar c) : ∃ o, start.feed p = ⟨[], some o⟩ ∧
      ∀ b, o.low ≤ b ∧ b ≤ o.high → Begins (p ++ [b]) := by
  obtain ⟨a, bs, hencode, hlead⟩ := exists_of_encode c
  rw [hencode] at hp hne
  obtain ⟨a', p, rfl⟩ := List.exists_cons_of_ne_nil hnil
  obtain ⟨rfl, hrest⟩ := List.cons_prefix_cons.mp hp
  have hne' : p ≠ bs := fun h => hne (congrArg (a' :: ·) h)
  rcases hlead with ⟨hlead, rfl⟩ | ⟨o, hlead, hcompletes⟩
  · exact absurd (List.prefix_nil.mp hrest) hne'
  · obtain ⟨o', hfeed, hcompletes'⟩ := hcompletes.feed_of_prefix hrest hne' []
    refine ⟨o', ?_, fun b hb => ?_⟩
    · have hstep : start.step a' = ⟨[], some o⟩ := by simp [step, start, begin, hlead]
      rw [feed_cons, hstep, hfeed]
    · obtain ⟨bs', c', hmore⟩ := exists_completes hb.1 hb.2
      refine ⟨c', ?_⟩
      rw [(hcompletes' _ _ hmore).encode hlead]
      exact ⟨bs', by simp⟩

/-- The first bytes of a character that has more are one replacement character by themselves. -/
theorem decode_of_begun (hp : p <+: String.utf8EncodeChar c) (hnil : p ≠ [])
    (hne : p ≠ String.utf8EncodeChar c) : decode p = [replacement] := by
  obtain ⟨o, hfeed, -⟩ := exists_opened hp hnil hne
  rw [decode, hfeed]
  rfl

theorem low_le_high {a : UInt8} (h : lead a = .opens o) : o.low ≤ o.high := by
  have hrole := role_lead a
  rw [h] at hrole
  rw [UInt8.le_iff_toNat_le]
  cases hrole with
  | two => exact Nat.le_add_right 0x80 0x3F
  | three x low high _ _ hlow hhigh | four x low high _ _ hlow hhigh =>
    show low.toNat ≤ high.toNat
    omega

/-- A byte that begins no character stands for nothing. -/
theorem lead_eq_stray (h : ¬ Begins [b]) : lead b = .stray := by
  cases hlead : lead b with
  | stray => rfl
  | single c => exact absurd ⟨c, [], (encode_of_single hlead).symm⟩ h
  | opens o =>
    obtain ⟨bs, c, hcompletes⟩ := exists_completes (UInt8.le_refl o.low) (low_le_high hlead)
    exact absurd ⟨c, o.low :: bs, (hcompletes.encode hlead).symm⟩ h

/-! ## Maximal parts -/

/-- At the front of `p ++ rest` no character can be read, and `p` is the longest run of bytes that
some character begins with, or a single byte if there is none. -/
structure MaximalPart (p rest : Bytes) : Prop where
  unreadable : ∀ c, ¬ String.utf8EncodeChar c <+: p ++ rest
  part : p ≠ [] ∧ Begins p ∨ p.length = 1
  longest : ∀ q, q <+: p ++ rest → Begins q → q.length ≤ p.length

/-- What any bytes read as: the characters they are the encoding of, and a replacement character
for each maximal part that is not UTF-8. -/
inductive ReadsAs : Bytes → List Char → Prop
  | nil : ReadsAs [] []
  | char (c : Char) {rest : Bytes} {cs : List Char} (hrest : ReadsAs rest cs) :
      ReadsAs (String.utf8EncodeChar c ++ rest) (c :: cs)
  | part {p rest : Bytes} {cs : List Char} (hp : MaximalPart p rest) (hrest : ReadsAs rest cs) :
      ReadsAs (p ++ rest) (replacement :: cs)

namespace MaximalPart

variable {rest rest' : Bytes}

theorem ne_encode (h : MaximalPart p rest) (c : Char) : p ≠ String.utf8EncodeChar c := by
  rintro rfl
  exact h.unreadable c (List.prefix_append _ _)

theorem ne_nil (h : MaximalPart p rest) : p ≠ [] := by
  rcases h.part with ⟨hne, -⟩ | hlength
  · exact hne
  · intro hnil
    rw [hnil] at hlength
    exact absurd hlength (by decide)

/-- A part is maximal or not whatever follows later. -/
theorem of_prefix (h : MaximalPart p rest) (hrest : rest' <+: rest) : MaximalPart p rest' := by
  have hle {q : Bytes} (hq : q <+: p ++ rest') : q <+: p ++ rest :=
    hq.trans ((List.prefix_append_right_inj p).mpr hrest)
  exact ⟨fun c hc => h.unreadable c (hle hc), h.part, fun q hq => h.longest q (hle hq)⟩

/-- What is left of a character when at least its last byte is missing. -/
theorem length_le (h : MaximalPart p rest) : p.length ≤ 3 := by
  rcases h.part with ⟨-, c, hp⟩ | hlength
  · have hsize : (String.utf8EncodeChar c).length ≤ 4 := by
      rw [String.length_utf8EncodeChar]
      exact c.utf8Size_le_four
    have hne : p.length ≠ (String.utf8EncodeChar c).length :=
      fun heq => h.ne_encode c (hp.eq_of_length heq)
    have hle := hp.length_le
    omega
  · omega

theorem decode_append (h : MaximalPart p rest) :
    decode (p ++ rest) = replacement :: decode rest := by
  by_cases hbegins : Begins p
  · obtain ⟨c, hp⟩ := hbegins
    obtain ⟨o, hfeed, hnext⟩ := exists_opened hp h.ne_nil (h.ne_encode c)
    rw [decode, Reader.feed_append, hfeed]
    cases rest with
    | nil => rfl
    | cons b rest =>
      -- The next byte cannot go on with the character, or the part would not be the longest.
      have hrefused : ¬ (o.low ≤ b ∧ b ≤ o.high) := by
        intro hb
        have hlonger := h.longest (p ++ [b]) (by simp) (hnext b hb)
        rw [List.length_append, List.length_singleton] at hlonger
        omega
      rw [feed_cons, step_refused _ hrefused, ← feed_cons, close_feed]
      rfl
  · have hlength : p.length = 1 := h.part.resolve_left (fun hp => hbegins hp.2)
    obtain ⟨b, rfl⟩ := List.length_eq_one_iff.mp hlength
    have hstep : start.step b = ⟨[replacement], none⟩ := by
      simp [step, start, begin, lead_eq_stray hbegins]
    rw [decode, List.singleton_append, feed_cons, hstep, close_feed]
    rfl

end MaximalPart

/-- The longest run of leading bytes that some character begins with. -/
theorem exists_longest (bs : Bytes) : ∃ p, p <+: bs ∧ Begins p ∧
    ∀ q, q <+: bs → Begins q → q.length ≤ p.length := by
  classical
  have hspec : Begins (bs.take (Nat.findGreatest (fun n => Begins (bs.take n)) bs.length)) :=
    Nat.findGreatest_spec (P := fun n => Begins (bs.take n)) (Nat.zero_le _)
      ⟨replacement, List.nil_prefix⟩
  refine ⟨_, List.take_prefix _ _, hspec, fun q hq hbegins => ?_⟩
  rw [List.length_take, Nat.min_eq_left (Nat.findGreatest_le _)]
  apply Nat.le_findGreatest hq.length_le
  rwa [← List.prefix_iff_eq_take.mp hq]

/-- Bytes that no character can be read from start with a maximal part. -/
theorem exists_maximalPart (hnil : bs ≠ []) (hunreadable : ∀ c, ¬ String.utf8EncodeChar c <+: bs) :
    ∃ p rest, p ++ rest = bs ∧ MaximalPart p rest := by
  obtain ⟨p, ⟨rest, rfl⟩, hbegins, hlongest⟩ := exists_longest bs
  by_cases hp : p = []
  · subst hp
    obtain ⟨b, rest, rfl⟩ := List.exists_cons_of_ne_nil hnil
    refine ⟨[b], rest, rfl, hunreadable, .inr rfl, fun q hq hq' => ?_⟩
    exact Nat.le_trans (hlongest q hq hq') (Nat.zero_le 1)
  · exact ⟨p, rest, rfl, hunreadable, .inl ⟨hp, hbegins⟩, hlongest⟩

/-- Every run of bytes reads as something. -/
theorem exists_readsAs (bs : Bytes) : ∃ cs, ReadsAs bs cs := by
  induction hn : bs.length using Nat.strong_induction_on generalizing bs with
  | _ n ih =>
    by_cases hnil : bs = []
    · exact ⟨[], hnil ▸ .nil⟩
    by_cases hreadable : ∃ c, String.utf8EncodeChar c <+: bs
    · obtain ⟨c, rest, rfl⟩ := hreadable
      have hpos : 0 < (String.utf8EncodeChar c).length := by
        rw [String.length_utf8EncodeChar]
        exact c.utf8Size_pos
      rw [List.length_append] at hn
      obtain ⟨cs, hrest⟩ := ih rest.length (by omega) rest rfl
      exact ⟨c :: cs, .char c hrest⟩
    · obtain ⟨p, rest, rfl, hp⟩ := exists_maximalPart hnil (not_exists.mp hreadable)
      have hpos : 0 < p.length := List.length_pos_iff.mpr hp.ne_nil
      rw [List.length_append] at hn
      obtain ⟨cs, hrest⟩ := ih rest.length (by omega) rest rfl
      exact ⟨replacement :: cs, .part hp hrest⟩

theorem ReadsAs.decode_eq {cs : List Char} (h : ReadsAs bs cs) : decode bs = cs := by
  induction h with
  | nil => rfl
  | char c _ ih => rw [decode_encode_append, ih]
  | part hp _ ih => rw [hp.decode_append, ih]

/-- **Decoding loses nothing but what is not UTF-8**, and marks each loss once. -/
theorem readsAs_iff {cs : List Char} : ReadsAs bs cs ↔ decode bs = cs := by
  constructor
  · exact ReadsAs.decode_eq
  · rintro rfl
    obtain ⟨cs, hcs⟩ := exists_readsAs bs
    rwa [hcs.decode_eq]

theorem readsAs_decode (bs : Bytes) : ReadsAs bs (decode bs) := readsAs_iff.mpr rfl

/-! ## Bytes that are a text -/

theorem decode_encode (cs : List Char) : decode (encode cs) = cs := by
  induction cs with
  | nil => rfl
  | cons c cs ih => rw [encode, List.flatMap_cons, decode_encode_append, ← encode, ih]

/-- Listing an array of bytes from a place on. -/
theorem toList_loop (bytes : ByteArray) (i : Nat) (listed : Bytes) :
    ByteArray.toList.loop bytes i listed = listed.reverse ++ bytes.data.toList.drop i := by
  fun_induction ByteArray.toList.loop bytes i listed with
  | case1 i listed h ih =>
    have hi : i < bytes.data.toList.length := by rwa [Array.length_toList]
    rw [ih, List.drop_eq_getElem_cons hi]
    simp [ByteArray.get!, h]
  | case2 i listed h =>
    have hi : bytes.data.toList.length ≤ i := by rw [Array.length_toList]; exact Nat.le_of_not_lt h
    rw [List.drop_eq_nil_of_le hi, List.append_nil]

theorem bytes_eq_encode (s : String) : bytes s = encode s.toList := by
  rw [bytes, ByteArray.toList, toList_loop, ← String.utf8Encode_toList, List.utf8Encode,
    List.data_toByteArray]
  rfl

theorem decodeText_bytes (s : String) : decodeText (bytes s) = s := by
  rw [decodeText, bytes_eq_encode, decode_encode, String.ofList_toList]

/-- Bytes are accepted as a text if they are its own. -/
theorem decode?_eq_some_iff {s : String} : decode? bs = some s ↔ bs = bytes s := by
  unfold decode?
  dsimp only
  rw [bytes_eq_encode]
  constructor
  · intro h
    split at h
    · rename_i hsame
      obtain rfl := Option.some.inj h
      rw [String.toList_ofList]
      exact hsame.symm
    · cases h
  · rintro rfl
    rw [decode_encode, if_pos rfl, String.ofList_toList]

end StageLens.Text
