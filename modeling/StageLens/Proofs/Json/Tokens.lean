import StageLens.Json.Token
import StageLens.Proofs.Json.Numeral
import Mathlib.Tactic.IntervalCases
import Mathlib.Tactic.SplitIfs

/-!
# The tokens of a written value

`Spells cs ts` says that the lexer reads `cs` as `ts` wherever it stands between two tokens. A
number has no end of its own, so one text may follow another if it begins with a character that no
number goes on with (`Spells.append`). Both layouts of a value spell the same tokens
(`spells_compact`, `spells_pretty`).
-/

namespace StageLens.Json

/-! ## The tokens -/

mutual

/-- The tokens of a value. -/
def written : Json → List Token
  | .null => [.null]
  | .boolean b => [.boolean b]
  | .integer i => [.number (numeral i)]
  | .text s => [.text (some s)]
  | .array items => .openArray :: writtenItems items ++ [.closeArray]
  | .object members => .openObject :: writtenMembers members ++ [.closeObject]

def writtenItems : List Json → List Token
  | [] => []
  | [j] => written j
  | j :: k :: js => written j ++ .comma :: writtenItems (k :: js)

def writtenMembers : List (String × Json) → List Token
  | [] => []
  | [(key, j)] => .text (some key) :: .colon :: written j
  | (key, j) :: m :: ms =>
    .text (some key) :: .colon :: written j ++ .comma :: writtenMembers (m :: ms)

end

/-! ## Spelling -/

/-- No number goes on with this character. -/
def Delimits (c : Char) : Prop := c.isDigit = false ∧ c ≠ '.' ∧ c ≠ 'e' ∧ c ≠ 'E'

instance (c : Char) : Decidable (Delimits c) := inferInstanceAs (Decidable (_ ∧ _))

/-- The lexer has these tokens, latest first, where the last of them may be a whole number that is
still being read. -/
inductive Lexer.Has : List Token → Lexer → Prop
  | between (ts : List Token) : Lexer.Has ts ⟨ts, .between⟩
  | number (ts : List Token) (n : NumberState) : n.part = .zero ∨ n.part = .whole →
      Lexer.Has (.number n.numeral :: ts) ⟨ts, .number n⟩

/-- Characters that the lexer reads as these tokens. -/
def Spells (cs : List Char) (ts : List Token) : Prop :=
  ∀ before, Lexer.Has (ts.reverse ++ before) (Lexer.feed ⟨before, .between⟩ cs)

variable {cs ds : List Char} {ts us before : List Token} {l : Lexer} {c : Char} {t : Token}

theorem Lexer.Has.close (h : Lexer.Has ts l) : l.close = ts.reverse := by
  cases h with
  | between => rfl
  | number ts n hpart =>
    have hcomplete : n.complete = true := by
      unfold NumberState.complete
      rcases hpart with hpart | hpart <;> rw [hpart]
    unfold Lexer.close
    dsimp only
    rw [if_pos hcomplete]

/-- After a delimiter it makes no difference whether a number was being read. -/
theorem Lexer.Has.step (h : Lexer.Has ts l) (hc : Delimits c) :
    l.step c = Lexer.step ⟨ts, .between⟩ c := by
  obtain ⟨hdigit, hpoint, hlower, hupper⟩ := hc
  cases h with
  | between => rfl
  | number ts n hpart =>
    show stepNumber ts n c = begin (.number n.numeral :: ts) c
    unfold stepNumber
    rcases hpart with hpart | hpart <;>
      simp [NumberState.step, NumberState.complete, hpart, hdigit, hpoint, hlower, hupper]

theorem Spells.tokens (h : Spells cs ts) : tokens cs = ts := by
  have hhas := h []
  rw [List.append_nil] at hhas
  exact hhas.close.trans (List.reverse_reverse ts)

theorem spells_nil : Spells [] [] := fun before => .between before

theorem Spells.append (h : Spells cs ts) (h' : Spells (c :: ds) us) (hc : Delimits c) :
    Spells (cs ++ c :: ds) (ts ++ us) := by
  intro before
  have hnext := h' (ts.reverse ++ before)
  rw [Lexer.feed, List.foldl_cons, ← (h before).step hc] at hnext
  rw [Lexer.feed_append, List.reverse_append, List.append_assoc]
  exact hnext

/-- One token of punctuation comes before the others. -/
theorem Spells.cons (h : Spells cs ts)
    (ht : ∀ before, Lexer.begin before c = ⟨t :: before, .between⟩) :
    Spells (c :: cs) (t :: ts) := by
  intro before
  have hstep : Lexer.step ⟨before, .between⟩ c = ⟨t :: before, .between⟩ := ht before
  rw [Lexer.feed, List.foldl_cons, hstep, List.reverse_cons, List.append_assoc]
  exact h (t :: before)

theorem Spells.blank (h : Spells cs ts) (hc : isSpace c = true) : Spells (c :: cs) ts := by
  intro before
  have hstep : Lexer.step ⟨before, .between⟩ c = ⟨before, .between⟩ := by
    show Lexer.begin before c = _
    unfold Lexer.begin
    rw [if_pos hc]
  rw [Lexer.feed, List.foldl_cons, hstep]
  exact h before

theorem Spells.newLine (h : Spells cs ts) (depth : Nat) : Spells (newLine depth ++ cs) ts := by
  refine Spells.blank ?_ (by decide)
  induction 2 * depth with
  | zero => exact h
  | succ n ih => exact ih.blank (by decide)

/-! ## Texts -/

/-- A text being read without half a surrogate pair so far. -/
abbrev reading (before : List Token) (read : List Char) : Lexer := ⟨before, .text { read }⟩

/-- Two hexadecimal digits stand for their byte. -/
theorem hexValue_digitChar {n : Nat} (h : n < 16) : hexValue (Nat.digitChar n) = some n := by
  have hall : ∀ n : Fin 16, hexValue (Nat.digitChar n) = some n.val := by decide +kernel
  exact hall ⟨n, h⟩

theorem utf8Size_digitChar {n : Nat} (h : n < 16) : (Nat.digitChar n).utf8Size = 1 := by
  have hall : ∀ n : Fin 16, (Nat.digitChar n).utf8Size = 1 := by decide +kernel
  exact hall ⟨n, h⟩

/-- A control character is read from its number. -/
theorem feed_hexByte (read : List Char) (h : c.toNat < 0x20) :
    Lexer.feed (reading before read) (['\\', 'u', '0', '0'] ++ hexByte c.toNat) =
      reading before (c :: read) := by
  have hhigh := hexValue_digitChar (n := c.toNat / 16) (by omega)
  have hlow := hexValue_digitChar (n := c.toNat % 16) (by omega)
  have hsize := utf8Size_digitChar (n := c.toNat / 16) (by omega)
  have hsize' := utf8Size_digitChar (n := c.toNat % 16) (by omega)
  have hvalue : c.toNat / 16 * 16 + c.toNat % 16 = c.toNat := by omega
  have hsurrogate : isLow c.toNat = false ∧ isHigh c.toNat = false := by
    simp only [isLow, isHigh, Bool.and_eq_false_iff, decide_eq_false_iff_not]
    omega
  have hprefix : Lexer.feed (reading before read) ['\\', 'u', '0', '0'] =
      ⟨before, .text { read, escape := .hex 2 (some 0) }⟩ := rfl
  rw [Lexer.feed_append, hprefix]
  simp [Lexer.feed, hexByte, Lexer.step, Lexer.stepText, hhigh, hlow, hsize, hsize', hvalue,
    TextState.unit, hsurrogate]

/-- A character between quotation marks is read as itself. -/
theorem feed_escapedChar (before : List Token) (read : List Char) (c : Char) :
    Lexer.feed (reading before read) (escapedChar c) = reading before (c :: read) := by
  unfold escapedChar
  split_ifs with hquote hslash hback hfeed hline hreturn htab hcontrol
  · rw [eq_of_beq hquote]
    rfl
  · rw [eq_of_beq hslash]
    rfl
  · rw [eq_of_beq hback]
    rfl
  · rw [eq_of_beq hfeed]
    rfl
  · rw [eq_of_beq hline]
    rfl
  · rw [eq_of_beq hreturn]
    rfl
  · rw [eq_of_beq htab]
    rfl
  · exact feed_hexByte read hcontrol
  · simp [Lexer.feed, Lexer.step, Lexer.stepText, TextState.push, hquote, hslash, hcontrol]

theorem feed_escapedChars (before : List Token) (read cs : List Char) :
    Lexer.feed (reading before read) (cs.flatMap escapedChar) =
      reading before (cs.reverse ++ read) := by
  induction cs generalizing read with
  | nil => rfl
  | cons c cs ih =>
    rw [List.flatMap_cons, Lexer.feed_append, feed_escapedChar, ih, List.reverse_cons,
      List.append_assoc, List.singleton_append]

/-- **Every text is read from its quoted form.** -/
theorem spells_quoted (s : String) : Spells (quoted s) [.text (some s)] := by
  intro before
  have hopen : quoted s = ['"'] ++ s.toList.flatMap escapedChar ++ ['"'] := rfl
  have hread : Lexer.feed ⟨before, .between⟩ ['"'] = reading before [] := rfl
  rw [hopen, Lexer.feed_append, Lexer.feed_append, hread, feed_escapedChars, List.append_nil]
  have hclose : Lexer.feed (reading before s.toList.reverse) ['"'] =
      ⟨.text (some (String.ofList s.toList.reverse.reverse)) :: before, .between⟩ := rfl
  rw [hclose, List.reverse_reverse, String.ofList_toList]
  exact .between _

/-! ## Numbers -/

/-- Digits go on with a number that does not begin with a zero. -/
theorem feed_digits (before : List Token) (n : NumberState) (hpart : n.part = .whole)
    (hcs : ∀ c ∈ cs, c.isDigit = true) :
    Lexer.feed ⟨before, .number n⟩ cs =
      ⟨before, .number { n with whole := cs.reverse ++ n.whole }⟩ := by
  induction cs generalizing n with
  | nil => rfl
  | cons c cs ih =>
    have hstep : Lexer.step ⟨before, .number n⟩ c =
        ⟨before, .number { n with whole := c :: n.whole }⟩ := by
      simp [Lexer.step, Lexer.stepNumber, NumberState.step, hpart, hcs c]
    rw [Lexer.feed, List.foldl_cons, hstep]
    refine (ih { n with whole := c :: n.whole } hpart fun c hc => hcs c (by simp [hc])).trans ?_
    simp

/-- The digits of a number that is not zero begin with another digit than zero. -/
theorem toDigits_eq_cons {n : Nat} (hn : 0 < n) :
    ∃ k cs, 0 < k ∧ k < 10 ∧ Nat.toDigits 10 n = Nat.digitChar k :: cs := by
  induction n using Nat.strongRecOn with
  | _ n ih =>
    rw [Nat.toDigits_eq_if (by decide)]
    split
    · rename_i hlt
      exact ⟨n, [], hn, hlt, rfl⟩
    · obtain ⟨k, cs, hpos, hlt, hcs⟩ := ih (n / 10) (by omega) (by omega)
      rw [hcs]
      exact ⟨k, cs ++ [Nat.digitChar (n % 10)], hpos, hlt, rfl⟩

/-- A digit other than zero begins a number, with a sign before it or without one. -/
theorem feed_digitChar (before : List Token) {k : Nat} (hpos : 0 < k) (hlt : k < 10)
    (negative : Bool) :
    Lexer.feed ⟨before, .between⟩ ((if negative then ['-'] else []) ++ [Nat.digitChar k]) =
      ⟨before, .number { part := .whole, negative, whole := [Nat.digitChar k] }⟩ := by
  cases negative <;> interval_cases k <;> rfl

/-- **Every integer is read from its decimal form.** -/
theorem spells_decimal (i : Int) : Spells (decimal i) [.number (numeral i)] := by
  intro before
  rw [decimal_eq]
  by_cases hzero : i = 0
  · subst hzero
    exact .number before { part := .zero, whole := ['0'] } (.inl rfl)
  · obtain ⟨k, cs, hpos, hlt, hdigits⟩ := toDigits_eq_cons (n := i.natAbs) (by omega)
    have hcs : ∀ c ∈ cs, c.isDigit = true := by
      intro c hc
      refine Nat.isDigit_of_mem_toDigits (b := 10) (n := i.natAbs) (by decide) (by decide) ?_
      rw [hdigits]
      exact List.mem_cons_of_mem _ hc
    have hfirst := feed_digitChar before hpos hlt (decide (i < 0))
    simp only [decide_eq_true_eq] at hfirst
    rw [hdigits, List.append_cons, Lexer.feed_append, hfirst, feed_digits before _ rfl hcs]
    have hnumeral : numeral i = NumberState.numeral
        { part := .whole, negative := decide (i < 0), whole := cs.reverse ++ [Nat.digitChar k] } := by
      simp [numeral, NumberState.numeral, hdigits]
    rw [hnumeral]
    exact .number before _ (.inr rfl)

/-! ## Values -/

/-- Two parts of a list with a comma between them. -/
theorem Spells.comma (h : Spells cs ts) (h' : Spells ds us) :
    Spells (cs ++ ',' :: ds) (ts ++ .comma :: us) :=
  h.append (h'.cons fun _ => rfl) (by decide)

/-- A key before its value. -/
theorem Spells.member (h : Spells cs ts) (key : String) :
    Spells (quoted key ++ ':' :: cs) (.text (some key) :: .colon :: ts) :=
  (spells_quoted key).append (h.cons fun _ => rfl) (by decide)

theorem spells_null : Spells ['n', 'u', 'l', 'l'] [.null] := fun _ => .between _

theorem spells_true : Spells ['t', 'r', 'u', 'e'] [.boolean true] := fun _ => .between _

theorem spells_false : Spells ['f', 'a', 'l', 's', 'e'] [.boolean false] :=
  fun _ => .between _

mutual

/-- The value on one line. -/
theorem spells_compact : ∀ j : Json, Spells (compactChars j) (written j)
  | .null => spells_null
  | .boolean true => spells_true
  | .boolean false => spells_false
  | .integer i => spells_decimal i
  | .text s => spells_quoted s
  | .array items => by
    have hclose : Spells [']'] [.closeArray] := spells_nil.cons fun _ => rfl
    exact ((spells_compactItems items).append hclose (by decide)).cons fun _ => rfl
  | .object members => by
    have hclose : Spells ['\x7d'] [.closeObject] := spells_nil.cons fun _ => rfl
    exact ((spells_compactMembers members).append hclose (by decide)).cons fun _ => rfl

theorem spells_compactItems : ∀ items, Spells (compactItems items) (writtenItems items)
  | [] => spells_nil
  | [j] => spells_compact j
  | j :: k :: js => (spells_compact j).comma (spells_compactItems (k :: js))

theorem spells_compactMembers : ∀ members, Spells (compactMembers members) (writtenMembers members)
  | [] => spells_nil
  | [(key, j)] => (spells_compact j).member key
  | (key, j) :: m :: ms => by
    have h := ((spells_compact j).comma (spells_compactMembers (m :: ms))).member key
    rw [compactMembers, List.append_assoc]
    exact h

end

mutual

/-- The value over several lines. -/
theorem spells_pretty : ∀ (depth : Nat) (j : Json), Spells (prettyChars depth j) (written j)
  | _, .null => spells_null
  | _, .boolean true => spells_true
  | _, .boolean false => spells_false
  | _, .integer i => spells_decimal i
  | _, .text s => spells_quoted s
  | _, .array [] => (spells_nil.cons fun _ => rfl).cons fun _ => rfl
  | depth, .array (j :: js) => by
    have hclose : Spells (newLine depth ++ [']']) [.closeArray] :=
      (spells_nil.cons fun _ => rfl).newLine depth
    have h := (spells_prettyItems (depth + 1) (j :: js)).append hclose (by decide)
    rw [prettyChars, List.append_assoc]
    exact h.cons fun _ => rfl
  | _, .object [] => (spells_nil.cons fun _ => rfl).cons fun _ => rfl
  | depth, .object (m :: ms) => by
    have hclose : Spells (newLine depth ++ ['\x7d']) [.closeObject] :=
      (spells_nil.cons fun _ => rfl).newLine depth
    have h := (spells_prettyMembers (depth + 1) (m :: ms)).append hclose (by decide)
    rw [prettyChars, List.append_assoc]
    exact h.cons fun _ => rfl

theorem spells_prettyItems :
    ∀ (depth : Nat) items, Spells (prettyItems depth items) (writtenItems items)
  | _, [] => spells_nil
  | depth, [j] => (spells_pretty depth j).newLine depth
  | depth, j :: k :: js => by
    have h := (spells_pretty depth j).comma (spells_prettyItems depth (k :: js))
    rw [prettyItems, List.append_assoc]
    exact h.newLine depth

theorem spells_prettyMembers :
    ∀ (depth : Nat) members, Spells (prettyMembers depth members) (writtenMembers members)
  | _, [] => spells_nil
  | depth, [(key, j)] => by
    have h := ((spells_pretty depth j).blank (c := ' ') (by decide)).member key
    rw [prettyMembers, List.append_assoc, List.append_assoc]
    exact h.newLine depth
  | depth, (key, j) :: m :: ms => by
    have h := (((spells_pretty depth j).comma (spells_prettyMembers depth (m :: ms))).blank
      (c := ' ') (by decide)).member key
    rw [prettyMembers]
    simp only [List.append_assoc]
    exact h.newLine depth

end

end StageLens.Json
