import StageLens.Proofs.Json.Tokens
import StageLens.Proofs.Text.Size

/-!
# Spellings of a text

A text can be written between quotation marks in many ways: each character as itself where that is
legal, behind a backslash, or by the number of its code units. All of them are read as the text
(`spellsText_of_textSpelling`), and none takes more than six bytes for a byte of the text
(`size_le_of_spellsText`): a character of one byte takes at most one escape of six, and only one of
four bytes takes two.

The bound is on whatever the lexer reads as the text. While it reads, the characters it has and the
escape it is in account for every byte it was given (`Accounts`); half a surrogate pair that stands
alone is lost, but then the text is none.
-/

namespace StageLens.Json

/-- Between quotation marks these characters are read as the text. -/
def SpellsText (w : List Char) (s : String) : Prop :=
  Lexer.start.feed ('"' :: w) = reading [] s.toList.reverse

/-! ## Ways to write a text -/

/-- Four hexadecimal digits, in either case, and the code unit they write. -/
inductive HexUnit : List Char → Nat → Prop
  | digits {a b c d : Char} {w x y z : Nat} (ha : hexValue a = some w) (hb : hexValue b = some x)
      (hc : hexValue c = some y) (hd : hexValue d = some z) :
      HexUnit [a, b, c, d] (((w * 16 + x) * 16 + y) * 16 + z)

/-- The ways to write a character between quotation marks: as itself, unless it is a quotation mark,
a backslash or a control character; by a letter behind a backslash; by its number; and, if that is
too great for one code unit, by the two halves of a surrogate pair. -/
inductive CharSpelling (c : Char) : List Char → Prop
  | itself (hquote : c ≠ '"') (hbackslash : c ≠ '\\') (hshown : 0x20 ≤ c.toNat) : CharSpelling c [c]
  | letter {d : Char} (hd : simpleEscape d = some c) : CharSpelling c ['\\', d]
  | unit {ds : List Char} (hds : HexUnit ds c.toNat) : CharSpelling c ('\\' :: 'u' :: ds)
  | pair {ds es : List Char} {high low : Nat} (hds : HexUnit ds high) (hes : HexUnit es low)
      (hhigh : isHigh high = true) (hlow : isLow low = true) (hpair : joinPair high low = c.toNat) :
      CharSpelling c ('\\' :: 'u' :: ds ++ '\\' :: 'u' :: es)

/-- The ways to write a text between quotation marks: its characters one after the other, each in any
of its ways. -/
inductive TextSpelling : List Char → List Char → Prop
  | nil : TextSpelling [] []
  | cons {c : Char} {cs v w : List Char} (hc : CharSpelling c v) (hcs : TextSpelling cs w) :
      TextSpelling (c :: cs) (v ++ w)

variable {before : List Token} {t : TextState} {c d : Char} {cs v w ds : List Char} {n : Nat}
  {l : Lexer}

/-! ## Reading a spelling -/

theorem utf8Size_of_hexValue (h : hexValue c = some n) : c.utf8Size = 1 := by
  have hle : c.val.toNat ≤ 127 := by
    unfold hexValue at h
    simp only [Bool.and_eq_true, decide_eq_true_eq, Char.le_def, UInt32.le_iff_toNat_le] at h
    split_ifs at h with hdigit hlower hupper
    · exact hdigit.2.trans (by decide)
    · exact hlower.2.trans (by decide)
    · exact hupper.2.trans (by decide)
  rw [Char.utf8Size_eq_one_iff]
  exact UInt32.le_iff_toNat_le.mpr hle

theorem utf8Size_of_simpleEscape (h : simpleEscape d = some c) : d.utf8Size = 1 := by
  unfold simpleEscape at h
  split at h <;> first | rfl | cases h

/-- A unit is taken from its four digits. -/
theorem feed_hexUnit (h : HexUnit ds n) (hescape : t.escape = .none) :
    Lexer.feed ⟨before, .text t⟩ ('\\' :: 'u' :: ds) = ⟨before, .text (t.unit n)⟩ := by
  obtain ⟨ha, hb, hc, hd⟩ := h
  simp [Lexer.feed, Lexer.step, Lexer.stepText, hescape, ha, hb, hc, hd, utf8Size_of_hexValue ha,
    utf8Size_of_hexValue hb, utf8Size_of_hexValue hc, utf8Size_of_hexValue hd, TextState.unit]

/-- No character is half a surrogate pair. -/
theorem not_surrogate (c : Char) : isHigh c.toNat = false ∧ isLow c.toNat = false := by
  have hvalid : c.toNat < 0xD800 ∨ 0xDFFF < c.toNat ∧ c.toNat < 0x110000 := c.valid
  simp only [isHigh, isLow, Bool.and_eq_false_iff, decide_eq_false_iff_not]
  omega

/-- A character is read from each of its spellings. -/
theorem feed_charSpelling (before : List Token) (read : List Char) (h : CharSpelling c v) :
    Lexer.feed (reading before read) v = reading before (c :: read) := by
  obtain ⟨hnotHigh, hnotLow⟩ := not_surrogate c
  cases h with
  | itself hquote hbackslash hshown =>
    simp [Lexer.feed, Lexer.step, Lexer.stepText, TextState.push, hquote, hbackslash,
      Nat.not_lt.mpr hshown]
  | letter hd =>
    have hnotUnit : ∀ {d : Char}, simpleEscape d = some c → d ≠ 'u' := by
      rintro d hd rfl
      cases hd
    simp [Lexer.feed, Lexer.step, Lexer.stepText, TextState.push, hd, hnotUnit hd]
  | unit hds =>
    rw [feed_hexUnit hds rfl]
    simp [TextState.unit, hnotHigh, hnotLow]
  | pair hds hes hhigh hlow hpair =>
    rename_i ds es high low
    have hunit : ({ read } : TextState).unit high = { read, high := some high } := by
      have hnotLow : isLow high = false := by
        simp only [isHigh, isLow, Bool.and_eq_true, decide_eq_true_eq] at hhigh ⊢
        simp only [Bool.and_eq_false_iff, decide_eq_false_iff_not]
        omega
      simp [TextState.unit, hhigh, hnotLow]
    rw [Lexer.feed_append, feed_hexUnit hds rfl, hunit, feed_hexUnit hes rfl]
    simp [TextState.unit, hlow, hpair]

theorem feed_textSpelling (before : List Token) (read : List Char) (h : TextSpelling cs w) :
    Lexer.feed (reading before read) w = reading before (cs.reverse ++ read) := by
  induction h generalizing read with
  | nil => rfl
  | cons hc _ ih =>
    rw [Lexer.feed_append, feed_charSpelling before read hc, ih]
    simp

/-- **Every spelling of a text is read as the text.** -/
theorem spellsText_of_textSpelling {s : String} (h : TextSpelling s.toList w) : SpellsText w s := by
  have hread := feed_textSpelling [] [] h
  rw [List.append_nil] at hread
  exact hread

theorem spellsText_quoted (s : String) : SpellsText (s.toList.flatMap escapedChar) s := by
  have hread := feed_escapedChars [] [] s.toList
  rw [List.append_nil] at hread
  exact hread

/-! ## The size of a spelling -/

/-- The greatest number of bytes from which the lexer can have come to this state: six for each byte
of the characters it has, and what the open escape and an open surrogate pair took. -/
def TextState.allowance (t : TextState) : Nat :=
  6 * Text.size t.read + (if t.high.isSome then 6 else 0) +
    match t.escape with
    | .none => 0
    | .mark => 1
    | .hex bytes _ => bytes + 2

/-- The state of the lexer accounts for the bytes it was given inside a text: the text does, unless
half a surrogate pair in it has been lost, or the lexer has left the text and has one token more. -/
inductive Accounts (before : List Token) (spent : Nat) : Lexer → Prop
  | within (t : TextState) (hspent : t.lone = false → spent ≤ t.allowance)
      (hhigh : ∀ h ∈ t.high, isHigh h = true) (hbytes : ∀ n v, t.escape = .hex n v → n < 4) :
      Accounts before spent ⟨before, .text t⟩
  | left (l : Lexer) (h : before.length < l.tokens.length) : Accounts before spent l

/-- Tokens that have been read stay. -/
theorem length_tokens_le_begin (ts : List Token) (c : Char) :
    ts.length ≤ (Lexer.begin ts c).tokens.length := by
  unfold Lexer.begin
  split
  · exact Nat.le_refl _
  · split <;> try simp
    split <;> simp [Lexer.stick]

theorem length_tokens_lt_begin (ts : List Token) (t : Token) (c : Char) :
    ts.length < (Lexer.begin (t :: ts) c).tokens.length :=
  length_tokens_le_begin (t :: ts) c

theorem length_tokens_le_step (l : Lexer) (c : Char) :
    l.tokens.length ≤ (l.step c).tokens.length := by
  unfold Lexer.step
  split
  · exact length_tokens_le_begin l.tokens c
  · unfold Lexer.stepText
    split
    · split_ifs <;> simp [Lexer.stick]
    · split_ifs
      · simp
      · split <;> simp [Lexer.stick]
    · dsimp only
      split_ifs
      · simp
      · split <;> simp [Lexer.stick]
  · unfold Lexer.stepNumber
    split
    · simp
    · split_ifs
      · simp [Lexer.stick]
      · exact length_tokens_lt_begin l.tokens _ c |>.le
  · split_ifs <;> simp [Lexer.stick]
  · exact length_tokens_lt_begin l.tokens _ c |>.le
  · exact Nat.le_refl _

/-- A surrogate pair stands for a character of four bytes. -/
theorem utf8Size_joinPair {high low : Nat} (hhigh : isHigh high = true) (hlow : isLow low = true) :
    (Char.ofNat (joinPair high low)).utf8Size = 4 := by
  simp only [isHigh, isLow, Bool.and_eq_true, decide_eq_true_eq] at hhigh hlow
  have hlower : 0x10000 ≤ joinPair high low := by
    unfold joinPair
    omega
  have hvalid : (joinPair high low).isValidChar := by
    refine .inr ⟨?_, ?_⟩ <;> unfold joinPair <;> omega
  have hvalue : (Char.ofNat (joinPair high low)).val.toNat = joinPair high low := by
    rw [Char.ofNat, dif_pos hvalid]
    rfl
  unfold Char.utf8Size
  simp only [UInt32.le_iff_toNat_le, hvalue]
  rw [if_neg, if_neg, if_neg] <;> simp <;> omega

section Step

variable {spent : Nat}

/-- A character that stands for itself or behind a backslash. -/
theorem Accounts.push (hspent : t.lone = false → t.high = none →
      spent ≤ 6 * Text.size t.read + 6 * c.utf8Size) :
    Accounts before spent ⟨before, .text (t.push c)⟩ := by
  refine .within _ (fun hlone => ?_) nofun nofun
  simp only [TextState.push, Bool.or_eq_false_iff, Option.isSome_eq_false_iff,
    Option.isNone_iff_eq_none] at hlone
  have hle := hspent hlone.1 hlone.2
  simp only [TextState.push, TextState.allowance, Text.size_cons]
  simp
  omega

/-- A code unit: with six bytes it is a character, the first half of a pair, or the second half, which
makes a character of four bytes with the first. -/
theorem Accounts.unit (hspent : t.lone = false →
      spent ≤ 6 * Text.size t.read + (if t.high.isSome then 6 else 0) + 6)
    (hhigh : ∀ h ∈ t.high, isHigh h = true) (n : Nat) :
    Accounts before spent ⟨before, .text (t.unit n)⟩ := by
  have hpos : 1 ≤ (Char.ofNat n).utf8Size := Char.utf8Size_pos _
  unfold TextState.unit
  split
  · rename_i h hh
    rw [hh] at hspent
    split_ifs with hlow hnext
    · refine .within _ (fun hlone => ?_) nofun nofun
      have hle := hspent hlone
      simp only [TextState.allowance, Text.size_cons, utf8Size_joinPair (hhigh h hh) hlow]
      simp at hle ⊢
      omega
    · exact .within _ nofun (by simpa using hnext) nofun
    · exact .within _ nofun nofun nofun
  · rename_i hh
    rw [hh] at hspent
    split_ifs with hlow hnext
    · exact .within _ nofun nofun nofun
    · refine .within _ (fun hlone => ?_) (by simpa using hnext) nofun
      have hle := hspent hlone
      simp only [TextState.allowance]
      simp at hle ⊢
      omega
    · refine .within _ (fun hlone => ?_) nofun nofun
      have hle := hspent hlone
      simp only [TextState.allowance, Text.size_cons]
      simp at hle ⊢
      omega

/-- One character more of a text. -/
theorem Accounts.stepText (hspent : t.lone = false → spent ≤ t.allowance)
    (hhigh : ∀ h ∈ t.high, isHigh h = true) (hbytes : ∀ n v, t.escape = .hex n v → n < 4) (c : Char) :
    Accounts before (spent + c.utf8Size) (Lexer.stepText before t c) := by
  unfold Lexer.stepText
  unfold TextState.allowance at hspent
  have hpos : 1 ≤ c.utf8Size := c.utf8Size_pos
  split
  · rename_i hescape
    simp only [hescape] at hspent
    split_ifs with hquote hbackslash hcontrol
    · exact .left _ (Nat.lt_succ_self _)
    · obtain rfl := eq_of_beq hbackslash
      refine .within _ (fun hlone => ?_) hhigh nofun
      have hle := hspent hlone
      have hone : Char.utf8Size '\\' = 1 := rfl
      simp only [TextState.allowance]
      omega
    · exact .left _ (Nat.lt_succ_self _)
    · refine Accounts.push fun hlone hnone => ?_
      have hle := hspent hlone
      simp [hnone] at hle
      omega
  · rename_i hescape
    simp only [hescape] at hspent
    split_ifs with hunit
    · obtain rfl := eq_of_beq hunit
      refine .within _ (fun hlone => ?_) hhigh (by simp)
      have hle := hspent hlone
      have hone : Char.utf8Size 'u' = 1 := rfl
      simp only [TextState.allowance]
      omega
    · split
      · rename_i d hd
        refine Accounts.push fun hlone hnone => ?_
        have hle := hspent hlone
        have hone : c.utf8Size = 1 := utf8Size_of_simpleEscape hd
        have hposd : 1 ≤ d.utf8Size := d.utf8Size_pos
        simp [hnone] at hle
        omega
      · exact .left _ (Nat.lt_succ_self _)
  · rename_i n v hescape
    simp only [hescape] at hspent
    have hn : n < 4 := hbytes n v hescape
    dsimp only
    split_ifs with hmore
    · refine .within _ (fun hlone => ?_) hhigh (by simpa using hmore)
      have hle := hspent hlone
      simp only [TextState.allowance]
      omega
    · split
      · rename_i x hx
        obtain ⟨y, -, hy⟩ := Option.bind_eq_some_iff.mp hx
        obtain ⟨z, hz, -⟩ := Option.map_eq_some_iff.mp hy
        have hone : c.utf8Size = 1 := utf8Size_of_hexValue hz
        refine Accounts.unit (fun hlone => ?_) hhigh x
        have hle := hspent hlone
        omega
      · exact .left _ (Nat.lt_succ_self _)

/-- One character more. -/
theorem Accounts.step (h : Accounts before spent l) (c : Char) :
    Accounts before (spent + c.utf8Size) (l.step c) := by
  cases h with
  | within t hspent hhigh hbytes => exact Accounts.stepText hspent hhigh hbytes c
  | left l hlt => exact .left _ (hlt.trans_le (length_tokens_le_step l c))

end Step

theorem Accounts.feed {spent : Nat} (h : Accounts before spent l) (w : List Char) :
    Accounts before (spent + Text.size w) (l.feed w) := by
  induction w generalizing l spent with
  | nil => exact h
  | cons c w ih =>
    have hnext := ih (h.step c)
    rw [Nat.add_assoc, ← Text.size_cons] at hnext
    exact hnext

/-- **A byte of a text takes at most six bytes.** -/
theorem size_le_of_spellsText {s : String} (h : SpellsText w s) :
    Text.size w ≤ 6 * s.utf8ByteSize := by
  have hstart : Accounts [] 0 (reading [] []) :=
    .within {} (fun _ => Nat.zero_le _) nofun nofun
  have hend : Accounts [] (0 + Text.size w) (reading [] s.toList.reverse) := by
    have hfeed := hstart.feed w
    have hread : Lexer.feed (reading [] []) w = reading [] s.toList.reverse := h
    rw [hread] at hfeed
    exact hfeed
  cases hend with
  | within t hspent =>
    have hle := hspent rfl
    simp only [TextState.allowance, Option.isSome_none, Text.size_reverse, Text.size_toList] at hle
    simpa using hle
  | left l hlt => exact absurd hlt (Nat.lt_irrefl 0)

end StageLens.Json
