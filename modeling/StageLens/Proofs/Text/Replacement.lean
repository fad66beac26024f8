import Mathlib.Data.List.Infix
import Mathlib.Tactic.Common
import StageLens.Text.Search

/-!
# What replacement leaves

Replacement cuts a text at the occurrences of a part and puts another one there; between the cuts
there is no occurrence (`Replaced`). Where the new part can hold no piece of the old one's ends
(`Foreign`), none comes about across the cuts either, so that none is left at all and replacing
again changes nothing.
-/

namespace StageLens.Text

/-- A text with every occurrence of a part replaced: in what stands between them there is none. -/
inductive Replaced (old new : List Char) : List Char → List Char → Prop
  | free {x : List Char} : ¬ old <:+: x → Replaced old new x x
  | cut {x cs ds : List Char} : ¬ old <:+: x → Replaced old new cs ds →
      Replaced old new (x ++ (old ++ cs)) (x ++ (new ++ ds))

/-- A part in which no occurrence of another one begins or ends, and which occurs in none. -/
structure Foreign (old new : List Char) : Prop where
  nonempty : old ≠ []
  first : ∀ c, old.head? = some c → c ∉ new
  last : ∀ c, old.getLast? = some c → c ∉ new
  other : ∃ c ∈ new, c ∉ old

variable {old new cs ds x rest : List Char} {c : Char} {s part : String}

/-! ## Occurrences -/

theorem occurs_iff : occurs old cs = true ↔ old <:+: cs := by
  induction cs with
  | nil => simp [occurs]
  | cons c cs ih =>
    rw [occurs, Bool.or_eq_true, List.isPrefixOf_iff_prefix, ih, List.infix_cons_iff]

theorem contains_iff : contains s part = true ↔ part.toList <:+: s.toList := occurs_iff

theorem contains_append (h : contains s part = true) (t : String) :
    contains (s ++ t) part = true := by
  rw [contains_iff] at h ⊢
  rw [String.toList_append]
  exact h.trans (List.prefix_append _ _).isInfix

theorem contains_append_self (s part : String) : contains (s ++ part) part = true := by
  rw [contains_iff, String.toList_append]
  exact (List.suffix_append _ _).isInfix

/-! ## Replacement from the left -/

theorem replaceFrom_out (old new : List Char) (skip : Nat) (out cs : List Char) :
    replaceFrom old new skip out cs = out.reverse ++ replaceFrom old new skip [] cs := by
  induction cs generalizing skip out with
  | nil => simp [replaceFrom]
  | cons c cs ih =>
    cases skip with
    | succ skip =>
      simp only [replaceFrom]
      exact ih skip out
    | zero =>
      simp only [replaceFrom]
      split
      · rw [ih _ (new.reverse ++ out), ih _ (new.reverse ++ [])]
        simp
      · rw [ih _ (c :: out), ih _ [c]]
        simp

/-- The rest of an occurrence is passed over. -/
theorem replaceFrom_skip (old new : List Char) (cs rest : List Char) :
    replaceFrom old new cs.length [] (cs ++ rest) = replaceAll old new rest := by
  induction cs with
  | nil => rfl
  | cons c cs ih =>
    show replaceFrom old new cs.length [] (cs ++ rest) = _
    exact ih

theorem replaceAll_append (hold : old ≠ []) (rest : List Char) :
    replaceAll old new (old ++ rest) = new ++ replaceAll old new rest := by
  cases old with
  | nil => exact absurd rfl hold
  | cons c cs =>
    have hbegins : (c :: cs).isPrefixOf (c :: (cs ++ rest)) = true :=
      List.isPrefixOf_iff_prefix.mpr (List.prefix_append (c :: cs) rest)
    show replaceFrom (c :: cs) new 0 [] (c :: (cs ++ rest)) = _
    rw [replaceFrom, if_pos hbegins, replaceFrom_out]
    show (new.reverse ++ []).reverse ++ replaceFrom (c :: cs) new cs.length [] (cs ++ rest) = _
    rw [replaceFrom_skip]
    simp

theorem replaceAll_cons (hnot : ¬ old <+: c :: cs) :
    replaceAll old new (c :: cs) = c :: replaceAll old new cs := by
  show replaceFrom old new 0 [] (c :: cs) = _
  rw [replaceFrom, if_neg (by rwa [List.isPrefixOf_iff_prefix]), replaceFrom_out]
  rfl

/-- What comes before the first cut can begin with a letter more, if no occurrence begins there. -/
theorem Replaced.cons (h : Replaced old new cs ds) (hnot : ¬ old <+: c :: cs) :
    Replaced old new (c :: cs) (c :: ds) := by
  cases h with
  | free hfree =>
    refine .free fun hin => ?_
    rcases List.infix_cons_iff.mp hin with hbegins | hinfix
    · exact hnot hbegins
    · exact hfree hinfix
  | @cut x cs ds hfree hrest =>
    refine .cut (x := c :: x) (fun hin => ?_) hrest
    rcases List.infix_cons_iff.mp hin with hbegins | hinfix
    · exact hnot (hbegins.trans (List.prefix_append (c :: x) _))
    · exact hfree hinfix

/-- **Replacement replaces every occurrence.** -/
theorem replaced_replaceAll (hold : old ≠ []) (new cs : List Char) :
    Replaced old new cs (replaceAll old new cs) := by
  have hnil : ¬ old <:+: [] := by rwa [List.infix_nil]
  induction hn : cs.length using Nat.strongRecOn generalizing cs with
  | _ n ih =>
    subst hn
    by_cases hbegins : old <+: cs
    · obtain ⟨rest, rfl⟩ := hbegins
      have hlt : rest.length < (old ++ rest).length := by
        have hpos := List.length_pos_iff.mpr hold
        simp only [List.length_append]
        omega
      rw [replaceAll_append hold]
      exact .cut (x := []) hnil (ih _ hlt rest rfl)
    · cases cs with
      | nil => exact .free hnil
      | cons c rest =>
        rw [replaceAll_cons hbegins]
        exact (ih _ (Nat.lt_succ_self _) rest rfl).cons hbegins

/-- Where there is no occurrence, nothing is replaced. -/
theorem replaceAll_of_not_occurs (hnot : ¬ old <:+: cs) : replaceAll old new cs = cs := by
  induction cs with
  | nil => rfl
  | cons c cs ih =>
    rw [List.infix_cons_iff, not_or] at hnot
    rw [replaceAll_cons hnot.1, ih hnot.2]

/-! ## Occurrences that come about -/

/-- An occurrence around a foreign part is before it or behind it. -/
theorem Foreign.occurs_or_occurs (h : Foreign old new) (hin : old <:+: x ++ (new ++ rest)) :
    old <:+: x ∨ old <:+: rest := by
  obtain ⟨d, hd, hdold⟩ := h.other
  obtain ⟨before, behind, hsplit⟩ := hin
  rw [List.append_assoc] at hsplit
  rcases List.append_eq_append_iff.mp hsplit with ⟨a, rfl, ha⟩ | ⟨a, rfl, ha⟩
  · -- The occurrence begins before the new part.
    rcases List.append_eq_append_iff.mp ha with ⟨b, rfl, -⟩ | ⟨b, rfl, hb⟩
    · exact .inl ⟨before, b, List.append_assoc _ _ _⟩
    · by_cases hnil : b = []
      · subst hnil
        exact .inl ⟨before, [], by simp⟩
      · exfalso
        rcases List.append_eq_append_iff.mp hb with ⟨e, rfl, -⟩ | ⟨e, rfl, -⟩
        · exact hdold (by simp [hd])
        · have hlast : (a ++ b).getLast? = some (b.getLast hnil) := by
            rw [List.getLast?_append_of_ne_nil _ hnil, List.getLast?_eq_some_getLast hnil]
          exact h.last _ hlast (List.mem_append_left e (List.getLast_mem hnil))
  · -- It does not begin before it.
    rcases List.append_eq_append_iff.mp ha with ⟨e, rfl, rfl⟩ | ⟨e, rfl, he⟩
    · exact .inr ⟨e, behind, List.append_assoc _ _ _⟩
    · cases e with
      | nil => exact .inr ⟨[], behind, he⟩
      | cons c e =>
        exfalso
        have hfirst : old.head? = some c := by
          have hhead := congrArg List.head? he
          rwa [List.head?_append_of_ne_nil _ h.nonempty] at hhead
        exact h.first c hfirst (by simp)

/-- **Where the new part is foreign to the old one, no occurrence is left.** -/
theorem Replaced.not_occurs (hforeign : Foreign old new) (h : Replaced old new cs ds) :
    ¬ old <:+: ds := by
  induction h with
  | free hfree => exact hfree
  | cut hfree _ ih =>
    intro hin
    rcases hforeign.occurs_or_occurs hin with hbefore | hbehind
    · exact hfree hbefore
    · exact ih hbehind

/-- A text of which nothing is left was empty. -/
theorem Replaced.eq_nil (h : Replaced old new cs ds) (hnew : new ≠ []) (hds : ds = []) :
    cs = [] := by
  cases h with
  | free _ => exact hds
  | cut _ _ =>
    have hnil := List.append_eq_nil_iff.mp (List.append_eq_nil_iff.mp hds).2
    exact absurd hnil.1 hnew

/-! ## Texts -/

theorem replaced_replace (hold : part.toList ≠ []) (part' s : String) :
    Replaced part.toList part'.toList s.toList (replace s part part').toList := by
  rw [replace, String.toList_ofList]
  exact replaced_replaceAll hold _ _

theorem replace_of_not_contains (part' : String) (hnot : contains s part = false) :
    replace s part part' = s := by
  have hnone : ¬ part.toList <:+: s.toList := by
    rw [← contains_iff, hnot]
    exact Bool.false_ne_true
  rw [replace, replaceAll_of_not_occurs hnone, String.ofList_toList]

end StageLens.Text
