import Mathlib.Data.List.Infix
import Mathlib.Tactic.Common
import StageLens.Host.Tree

/-!
# Trees that change

What is at a place after something has been put or removed. In a **proper** tree everything stands
in a directory, as it does in a file system; both changes keep a tree proper, so that nothing is
below a place where nothing is.
-/

namespace StageLens.Tree

variable {t t' : Tree} {p q : Place} {n : Node} {name : Bytes}

@[simp] theorem get?_root (t : Tree) : t.get? [] = some .directory := rfl

theorem get?_of_ne (h : p ≠ []) : t.get? p = t.entries.lookup p := if_neg h

theorem lookup_putEntry (p : Place) (n : Node) (es : List (Place × Node)) (q : Place) :
    (putEntry p n es).lookup q = if q = p then some n else es.lookup q := by
  induction es with
  | nil =>
    by_cases hq : q = p
    · simp [putEntry, hq]
    · have : (q == p) = false := by simpa using hq
      simp [putEntry, hq, List.lookup_cons, this]
  | cons e es ih =>
    obtain ⟨r, m⟩ := e
    unfold putEntry
    split
    · rename_i hr
      subst hr
      by_cases hq : q = r
      · simp [hq]
      · have : (q == r) = false := by simpa using hq
        simp [hq, List.lookup_cons, this]
    · rename_i hr
      by_cases hqr : q = r
      · subst hqr
        simp [hr]
      · have : (q == r) = false := by simpa using hqr
        simp only [List.lookup_cons, this]
        exact ih

theorem get?_put (hp : p ≠ []) (q : Place) :
    (t.put p n).get? q = if q = p then some n else t.get? q := by
  by_cases hq : q = []
  · subst hq
    rw [get?_root, if_neg (Ne.symm hp), get?_root]
  · rw [get?_of_ne hq, get?_of_ne hq]
    exact lookup_putEntry p n t.entries q

theorem lookup_filter_of_true {f : Place → Bool} (es : List (Place × Node)) (hq : f q = true) :
    (es.filter fun e => f e.1).lookup q = es.lookup q := by
  induction es with
  | nil => rfl
  | cons e es ih =>
    obtain ⟨r, m⟩ := e
    by_cases hqr : q = r
    · subst hqr
      simp [hq]
    · have : (q == r) = false := by simpa using hqr
      rw [List.filter_cons]
      split
      · simp only [List.lookup_cons, this]
        exact ih
      · simp only [List.lookup_cons, this]
        exact ih

theorem lookup_filter_of_false {f : Place → Bool} (es : List (Place × Node)) (hq : f q = false) :
    (es.filter fun e => f e.1).lookup q = none := by
  rw [List.lookup_eq_none_iff]
  intro e he
  have hf := (List.mem_filter.mp he).2
  rw [bne_iff_ne]
  rintro rfl
  rw [hq] at hf
  cases hf

theorem get?_remove (hp : p ≠ []) (q : Place) :
    (t.remove p).get? q = if p <+: q then none else t.get? q := by
  by_cases hq : q = []
  · subst hq
    rw [get?_root, if_neg (by simpa using hp), get?_root]
  · rw [get?_of_ne hq]
    by_cases hpq : p <+: q
    · have hf : (!p.isPrefixOf q) = false := by simpa using hpq
      rw [if_pos hpq]
      exact lookup_filter_of_false (f := fun r => !p.isPrefixOf r) _ hf
    · have hf : (!p.isPrefixOf q) = true := by
        rw [Bool.not_eq_true', ← Bool.not_eq_true, List.isPrefixOf_iff_prefix]
        exact hpq
      rw [if_neg hpq, get?_of_ne hq]
      exact lookup_filter_of_true (f := fun r => !p.isPrefixOf r) _ hf

/-! ## Proper trees -/

/-- Everything stands in a directory. -/
def Proper (t : Tree) : Prop :=
  ∀ p name n, t.get? (p ++ [name]) = some n → t.get? p = some .directory

theorem proper_empty : empty.Proper := by
  intro p name n h
  rw [get?_of_ne (by simp)] at h
  cases h

/-- A tree is proper if the place above each entry is that of a directory. -/
theorem proper_of_entries (h : ∀ e ∈ t.entries, t.get? e.1.dropLast = some .directory) :
    t.Proper := by
  intro p name n hn
  rw [get?_of_ne (by simp)] at hn
  obtain ⟨before, after, hentries, -⟩ := List.lookup_eq_some_iff.mp hn
  have hmem : (p ++ [name], n) ∈ t.entries := by
    rw [hentries]
    simp
  simpa using h _ hmem

theorem Proper.above (ht : t.Proper) (h : t.get? (p ++ q) = some n) (hq : q ≠ []) :
    t.get? p = some .directory := by
  induction q using List.reverseRecOn generalizing n with
  | nil => exact absurd rfl hq
  | append_singleton q name ih =>
    rw [← List.append_assoc] at h
    have hlast := ht _ _ _ h
    by_cases hnil : q = []
    · rwa [hnil, List.append_nil] at hlast
    · exact ih hlast hnil

/-- Nothing is below a place where nothing is. -/
theorem Proper.get?_eq_none (ht : t.Proper) (h : t.get? p = none) (hpq : p <+: q) :
    t.get? q = none := by
  obtain ⟨rest, rfl⟩ := hpq
  by_cases hrest : rest = []
  · rwa [hrest, List.append_nil]
  · cases hq : t.get? (p ++ rest) with
    | none => rfl
    | some n =>
      rw [ht.above hq hrest] at h
      cases h

/-- The directory above a directory is there. -/
theorem Proper.dropLast (ht : t.Proper) (h : t.get? p = some n) :
    ∃ m, t.get? p.dropLast = some m := by
  rcases List.eq_nil_or_concat p with rfl | ⟨q, name, rfl⟩
  · exact ⟨_, rfl⟩
  · rw [List.concat_eq_append, List.dropLast_concat]
    rw [List.concat_eq_append] at h
    exact ⟨_, ht _ _ _ h⟩

theorem Proper.put (ht : t.Proper) (hp : t.get? p = some .directory)
    (hnew : t.get? (p ++ [name]) = none) : (t.put (p ++ [name]) n).Proper := by
  intro q other m hq
  rw [get?_put (by simp)] at hq ⊢
  split at hq
  · rename_i he
    obtain ⟨rfl, -⟩ := List.append_inj' he rfl
    rwa [if_neg (by simp)]
  · have hdir := ht _ _ _ hq
    rw [if_neg ?_]
    · exact hdir
    · rintro rfl
      rw [hnew] at hdir
      cases hdir

theorem Proper.remove (ht : t.Proper) (hp : p ≠ []) : (t.remove p).Proper := by
  intro q name n hq
  rw [get?_remove hp] at hq ⊢
  split at hq
  · cases hq
  · rename_i hnot
    rw [if_neg fun h => hnot (h.trans (List.prefix_append _ _))]
    exact ht _ _ _ hq

/-! ## Trees that keep what they have -/

/-- All that is in a tree is in the other one too. -/
def Grows (t t' : Tree) : Prop := ∀ p n, t.get? p = some n → t'.get? p = some n

theorem Grows.refl (t : Tree) : t.Grows t := fun _ _ h => h

theorem Grows.trans {u : Tree} (h : t.Grows t') (h' : t'.Grows u) : t.Grows u :=
  fun p n hp => h' p n (h p n hp)

theorem grows_put (hp : p ≠ []) (h : t.get? p = none) : t.Grows (t.put p n) := by
  intro q m hq
  rw [get?_put hp, if_neg]
  · exact hq
  · rintro rfl
    rw [h] at hq
    cases hq

/-- Where something is, a tree that has grown shows the same. -/
theorem Grows.get? (h : t.Grows t') (hp : (t.get? p).isSome) : t'.get? p = t.get? p := by
  obtain ⟨n, hn⟩ := Option.isSome_iff_exists.mp hp
  rw [hn, h p n hn]

end StageLens.Tree
