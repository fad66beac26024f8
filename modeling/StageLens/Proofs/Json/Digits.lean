import StageLens.Json.Parser

/-!
# The digits of numbers

The numbers of a document have decimal digits, whatever else may be wrong with it
(`isDecimal_of_holds`). Each of the two machines keeps this: the lexer of the number that it reads
and of the tokens it has read (`Lexer.IsDecimal.step`), the parser of all values in what is open
(`Parser.IsDecimal.step`).
-/

namespace StageLens.Json

/-- The digits of a number are decimal, those of its exponent apart. -/
structure Numeral.IsDecimal (n : Numeral) : Prop where
  whole : ∀ c ∈ n.whole, c.isDigit = true
  fraction : ∀ c ∈ n.fraction, c.isDigit = true

/-! ## Tokens -/

namespace NumberState

variable {n n' : NumberState} {c : Char} {old new : List Char}

structure IsDecimal (n : NumberState) : Prop where
  whole : ∀ c ∈ n.whole, c.isDigit = true
  fraction : ∀ c ∈ n.fraction, c.isDigit = true

/-- A character comes to the digits only if it is one. -/
def Takes (c : Char) (old new : List Char) : Prop :=
  new = old ∨ c.isDigit = true ∧ (new = [c] ∨ new = c :: old)

theorem Takes.isDigit (h : Takes c old new) (hold : ∀ d ∈ old, d.isDigit = true) :
    ∀ d ∈ new, d.isDigit = true := by
  rcases h with rfl | ⟨hc, rfl | rfl⟩
  · exact hold
  · exact List.forall_mem_singleton.mpr hc
  · exact List.forall_mem_cons.mpr ⟨hc, hold⟩

theorem takes_of_step (h : n.step c = some n') :
    Takes c n.whole n'.whole ∧ Takes c n.fraction n'.fraction := by
  have hzero : ∀ c : Char, c = '0' → c.isDigit = true := by
    rintro _ rfl
    rfl
  unfold Takes
  unfold step at h
  grind

theorem IsDecimal.step (h : n.IsDecimal) (hstep : n.step c = some n') : n'.IsDecimal :=
  ⟨(takes_of_step hstep).1.isDigit h.whole, (takes_of_step hstep).2.isDigit h.fraction⟩

theorem IsDecimal.numeral (h : n.IsDecimal) : n.numeral.IsDecimal :=
  ⟨fun c hc => h.whole c (List.mem_reverse.mp hc),
    fun c hc => h.fraction c (List.mem_reverse.mp hc)⟩

end NumberState

/-- If the token is a number, its digits are decimal. -/
def Token.IsDecimal (t : Token) : Prop := ∀ n, t = .number n → n.IsDecimal

namespace Lexer

variable {l : Lexer} {tokens : List Token} {t : Token} {state : Lexing}

structure IsDecimal (l : Lexer) : Prop where
  tokens : ∀ t ∈ l.tokens, t.IsDecimal
  number : ∀ n, l.state = .number n → n.IsDecimal
  literal : ∀ rest t, l.state = .literal rest t → t.IsDecimal

/-- Most states hold nothing of a number. -/
theorem isDecimal_of_plain (h : ∀ t ∈ tokens, t.IsDecimal) (hnumber : ∀ n, state ≠ .number n)
    (hliteral : ∀ rest t, state ≠ .literal rest t) : IsDecimal ⟨tokens, state⟩ :=
  ⟨h, fun n hn => absurd hn (hnumber n), fun rest t ht => absurd ht (hliteral rest t)⟩

theorem isDecimal_number {n : NumberState} (h : ∀ t ∈ tokens, t.IsDecimal) (hn : n.IsDecimal) :
    IsDecimal ⟨tokens, .number n⟩ :=
  ⟨h, fun _ h => by cases h; exact hn, nofun⟩

theorem isDecimal_literal {rest : List Char} (h : ∀ t ∈ tokens, t.IsDecimal) (ht : t.IsDecimal) :
    IsDecimal ⟨tokens, .literal rest t⟩ :=
  ⟨h, nofun, fun _ _ h => by cases h; exact ht⟩

theorem isDecimal_cons (h : ∀ t ∈ tokens, t.IsDecimal) (ht : t.IsDecimal)
    (hnumber : ∀ n, state ≠ .number n) (hliteral : ∀ rest t, state ≠ .literal rest t) :
    IsDecimal ⟨t :: tokens, state⟩ :=
  isDecimal_of_plain (List.forall_mem_cons.mpr ⟨ht, h⟩) hnumber hliteral

theorem isDecimal_begin (h : ∀ t ∈ tokens, t.IsDecimal) (c : Char) :
    (begin tokens c).IsDecimal := by
  unfold begin
  split
  · exact isDecimal_of_plain h nofun nofun
  split
  iterate 6 exact isDecimal_cons h nofun nofun nofun
  · exact isDecimal_of_plain h nofun nofun
  iterate 3 exact isDecimal_literal h nofun
  · exact isDecimal_number h ⟨nofun, nofun⟩
  · exact isDecimal_number h ⟨List.forall_mem_singleton.mpr rfl, nofun⟩
  · split
    · rename_i hc
      exact isDecimal_number h ⟨List.forall_mem_singleton.mpr hc, nofun⟩
    · exact isDecimal_cons h nofun nofun nofun

theorem isDecimal_stepText (h : ∀ t ∈ tokens, t.IsDecimal) (t : TextState) (c : Char) :
    (stepText tokens t c).IsDecimal := by
  have hkeeps : ∀ t, IsDecimal ⟨tokens, .text t⟩ := fun t => isDecimal_of_plain h nofun nofun
  have hends : ∀ s, IsDecimal ⟨.text s :: tokens, .between⟩ :=
    fun s => isDecimal_cons h nofun nofun nofun
  have hsticks : ∀ t f, (stick tokens (TextState.stop t f)).IsDecimal :=
    fun t f => isDecimal_cons h nofun nofun nofun
  unfold stepText
  grind

theorem isDecimal_stepNumber {n : NumberState} (h : ∀ t ∈ tokens, t.IsDecimal) (hn : n.IsDecimal)
    (c : Char) : (stepNumber tokens n c).IsDecimal := by
  unfold stepNumber
  split
  · rename_i hstep
    exact isDecimal_number h (hn.step hstep)
  · split
    · exact isDecimal_cons h nofun nofun nofun
    · refine isDecimal_begin (List.forall_mem_cons.mpr ⟨?_, h⟩) c
      rintro _ ⟨⟩
      exact hn.numeral

theorem IsDecimal.step (h : l.IsDecimal) (c : Char) : (l.step c).IsDecimal := by
  obtain ⟨tokens, state⟩ := l
  obtain ⟨htokens, hnumber, hliteral⟩ := h
  dsimp only at htokens hnumber hliteral
  unfold Lexer.step
  cases state with
  | between => exact isDecimal_begin htokens c
  | text t => exact isDecimal_stepText htokens t c
  | number n => exact isDecimal_stepNumber htokens (hnumber n rfl) c
  | stuck => exact isDecimal_of_plain htokens nofun nofun
  | literal rest t =>
    have ht := hliteral rest t rfl
    cases rest with
    | nil => exact isDecimal_begin (List.forall_mem_cons.mpr ⟨ht, htokens⟩) c
    | cons d rest =>
      dsimp only
      split
      · split
        · exact isDecimal_cons htokens ht nofun nofun
        · exact isDecimal_literal htokens ht
      · exact isDecimal_cons htokens nofun nofun nofun

theorem IsDecimal.feed (h : l.IsDecimal) (cs : List Char) : (l.feed cs).IsDecimal := by
  induction cs generalizing l with
  | nil => exact h
  | cons c cs ih => exact ih (h.step c)

theorem IsDecimal.close (h : l.IsDecimal) : ∀ t ∈ l.close, t.IsDecimal := by
  obtain ⟨tokens, state⟩ := l
  obtain ⟨htokens, hnumber, -⟩ := h
  dsimp only at htokens hnumber
  have hcons : ∀ t : Token, t.IsDecimal → ∀ t' ∈ (t :: tokens).reverse, t'.IsDecimal := by
    intro t ht t' ht'
    exact List.forall_mem_cons.mpr ⟨ht, htokens⟩ t' (List.mem_reverse.mp ht')
  unfold Lexer.close
  cases state with
  | between => exact fun t ht => htokens t (List.mem_reverse.mp ht)
  | stuck => exact fun t ht => htokens t (List.mem_reverse.mp ht)
  | text t => exact hcons _ nofun
  | literal rest t => exact hcons _ nofun
  | number n =>
    dsimp only
    split
    · refine hcons _ ?_
      rintro _ ⟨⟩
      exact (hnumber n rfl).numeral
    · exact hcons _ nofun

end Lexer

theorem isDecimal_of_mem_tokens (cs : List Char) : ∀ t ∈ tokens cs, t.IsDecimal :=
  have hstart : Lexer.start.IsDecimal := Lexer.isDecimal_of_plain nofun nofun nofun
  (hstart.feed cs).close

/-! ## Documents -/

/-- The number stands somewhere in the document. -/
inductive Draft.Holds (n : Numeral) : Draft → Prop
  | here : Holds n (.number n)
  | item (items : List Draft) (stop : Option Break) (d : Draft) : d ∈ items → d.Holds n →
      Holds n (.array items stop)
  | member (members : List (Option String × Draft)) (stop : Option Break)
      (m : Option String × Draft) : m ∈ members → m.2.Holds n → Holds n (.object members stop)

def Draft.IsDecimal (d : Draft) : Prop := ∀ n, d.Holds n → n.IsDecimal

variable {d : Draft} {items : List Draft} {members : List (Option String × Draft)}
variable {stop : Option Break} {b : Break} {stack : List Frame} {n : Numeral}

theorem Draft.isDecimal_array (h : ∀ d ∈ items, d.IsDecimal) : (array items stop).IsDecimal := by
  rintro n ⟨⟩
  rename_i d hn hd
  exact h d hd n hn

theorem Draft.isDecimal_object (h : ∀ m ∈ members, m.2.IsDecimal) :
    (object members stop).IsDecimal := by
  rintro n ⟨⟩
  rename_i m hn hm
  exact h m hm n hn

def Frame.IsDecimal : Frame → Prop
  | .array items => ∀ d ∈ items, d.IsDecimal
  | .object members => ∀ m ∈ members, m.2.IsDecimal
  | .member members _ => ∀ m ∈ members, m.2.IsDecimal

namespace Parser

def IsDecimal : Parser → Prop
  | .within stack _ => ∀ f ∈ stack, f.IsDecimal
  | .done root _ => root.IsDecimal

theorem isDecimal_attach (hs : ∀ f ∈ stack, f.IsDecimal) (hd : d.IsDecimal) :
    (attach stack d).IsDecimal := by
  cases stack with
  | nil => exact hd
  | cons f rest =>
    obtain ⟨hf, hrest⟩ := List.forall_mem_cons.mp hs
    cases f with
    | array items =>
      exact List.forall_mem_cons.mpr ⟨List.forall_mem_cons.mpr ⟨hd, hf⟩, hrest⟩
    | object members => exact hs
    | member members key =>
      exact List.forall_mem_cons.mpr ⟨List.forall_mem_cons.mpr ⟨hd, hf⟩, hrest⟩

theorem isDecimal_stopOne {f : Frame} (hf : f.IsDecimal) (hd : d.IsDecimal) :
    (stopOne b d f).IsDecimal := by
  cases f with
  | array items =>
    refine Draft.isDecimal_array fun e he => ?_
    exact List.forall_mem_cons.mpr ⟨hd, hf⟩ e (List.mem_reverse.mp he)
  | object members => exact Draft.isDecimal_object fun m hm => hf m (List.mem_reverse.mp hm)
  | member members key =>
    refine Draft.isDecimal_object fun m hm => ?_
    rcases List.mem_cons.mp (List.mem_reverse.mp hm) with rfl | hm
    · exact hd
    · exact hf m hm

theorem isDecimal_stopIn (hs : ∀ f ∈ stack, f.IsDecimal) (hd : d.IsDecimal) :
    (stopIn b d stack).IsDecimal := by
  induction stack generalizing d with
  | nil => exact hd
  | cons f rest ih =>
    obtain ⟨hf, hrest⟩ := List.forall_mem_cons.mp hs
    exact ih hrest (isDecimal_stopOne hf hd)

theorem isDecimal_stopBetween (hs : ∀ f ∈ stack, f.IsDecimal) :
    (stopBetween b stack).IsDecimal := by
  cases stack with
  | nil => exact nofun
  | cons f rest =>
    obtain ⟨hf, hrest⟩ := List.forall_mem_cons.mp hs
    cases f with
    | array items =>
      exact isDecimal_stopIn hrest
        (Draft.isDecimal_array fun d hd => hf d (List.mem_reverse.mp hd))
    | object members =>
      exact isDecimal_stopIn hrest
        (Draft.isDecimal_object fun m hm => hf m (List.mem_reverse.mp hm))
    | member members key => exact isDecimal_stopIn hrest (isDecimal_stopOne hf nofun)

theorem isDecimal_takeValue {t : Token} (hs : ∀ f ∈ stack, f.IsDecimal) (ht : t.IsDecimal) :
    (takeValue stack t).IsDecimal := by
  cases t with
  | null => exact isDecimal_attach hs nofun
  | boolean b => exact isDecimal_attach hs nofun
  | text s => exact isDecimal_attach hs nofun
  | number n =>
    refine isDecimal_attach hs ?_
    rintro _ ⟨⟩
    exact ht n rfl
  | openArray => exact List.forall_mem_cons.mpr ⟨nofun, hs⟩
  | openObject => exact List.forall_mem_cons.mpr ⟨nofun, hs⟩
  | _ => exact isDecimal_stopIn hs nofun

theorem isDecimal_takeKey {t : Token} {comma : Bool} (hm : ∀ m ∈ members, m.2.IsDecimal)
    (hs : ∀ f ∈ stack, f.IsDecimal) : (takeKey members stack comma t).IsDecimal := by
  have hs' : ∀ f ∈ Frame.object members :: stack, f.IsDecimal :=
    List.forall_mem_cons.mpr ⟨hm, hs⟩
  unfold takeKey
  split
  · exact List.forall_mem_cons.mpr ⟨hm, hs⟩
  · exact isDecimal_stopBetween hs'
  · exact isDecimal_stopBetween hs'

theorem IsDecimal.step {p : Parser} {t : Token} (hp : p.IsDecimal) (ht : t.IsDecimal) :
    (p.step t).IsDecimal := by
  cases p with
  | done root trailing => exact hp
  | within stack expect =>
    have hs : ∀ f ∈ stack, f.IsDecimal := hp
    have harray : ∀ items rest, stack = .array items :: rest →
        (attach rest (.array items.reverse none)).IsDecimal := by
      rintro items rest rfl
      obtain ⟨hf, hrest⟩ := List.forall_mem_cons.mp hs
      exact isDecimal_attach hrest
        (Draft.isDecimal_array fun d hd => hf d (List.mem_reverse.mp hd))
    have hobject : ∀ members rest, stack = .object members :: rest →
        (attach rest (.object members.reverse none)).IsDecimal := by
      rintro members rest rfl
      obtain ⟨hf, hrest⟩ := List.forall_mem_cons.mp hs
      exact isDecimal_attach hrest
        (Draft.isDecimal_object fun m hm => hf m (List.mem_reverse.mp hm))
    have hkey : ∀ members rest comma, stack = .object members :: rest →
        (takeKey members rest comma t).IsDecimal := by
      rintro members rest comma rfl
      obtain ⟨hf, hrest⟩ := List.forall_mem_cons.mp hs
      exact isDecimal_takeKey hf hrest
    unfold Parser.step
    dsimp only
    split
    · exact harray _ _ rfl
    · exact isDecimal_takeValue hs ht
    · exact isDecimal_takeValue hs ht
    · exact hobject _ _ rfl
    · exact hkey _ _ _ rfl
    · exact hkey _ _ _ rfl
    · exact hs
    · exact harray _ _ rfl
    · exact hobject _ _ rfl
    · exact hs
    · exact hs
    · exact isDecimal_stopBetween hs

theorem IsDecimal.run {p : Parser} {ts : List Token} (hp : p.IsDecimal)
    (hts : ∀ t ∈ ts, t.IsDecimal) : (ts.foldl Parser.step p).IsDecimal := by
  induction ts generalizing p with
  | nil => exact hp
  | cons t ts ih =>
    obtain ⟨ht, hrest⟩ := List.forall_mem_cons.mp hts
    exact ih (hp.step ht) hrest

theorem IsDecimal.close {p : Parser} (hp : p.IsDecimal) : p.close.root.IsDecimal := by
  cases p with
  | done root trailing => exact hp
  | within stack expect =>
    unfold Parser.close
    cases expect with
    | value => exact isDecimal_stopIn hp nofun
    | _ => exact isDecimal_stopBetween hp

end Parser

/-- **All numbers in a document have decimal digits.** -/
theorem isDecimal_of_holds {cs : List Char} (h : (read cs).root.Holds n) : n.IsDecimal :=
  have hstart : Parser.start.IsDecimal := nofun
  (hstart.run (isDecimal_of_mem_tokens cs)).close n h

end StageLens.Json
