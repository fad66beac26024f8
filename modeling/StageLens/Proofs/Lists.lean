import Mathlib

/-!
# Lists

What the list library does not have: lists of which one entry is set, all the values of a map that
may fail, the greatest number that passes a test, and places in a list that are found by their
neighbours.
-/

namespace List

variable {α β : Type*} {l xs ys : List α} {a b : α} {i n : Nat}

/-! ## Setting one entry -/

/-- What a sum changes by when one entry is replaced. -/
theorem sum_map_set (f : α → Nat) (h : l[i]? = some a) :
    ((l.set i b).map f).sum + f a = (l.map f).sum + f b := by
  induction l generalizing i with
  | nil => cases h
  | cons x l ih =>
    cases i with
    | zero =>
      obtain rfl := Option.some.inj h
      simp only [set_cons_zero, map_cons, sum_cons]
      omega
    | succ i =>
      have := ih h
      simp only [set_cons_succ, map_cons, sum_cons]
      omega

theorem filterMap_set_of_eq {g : α → Option β} (h : l[i]? = some a) (hg : g b = g a) :
    (l.set i b).filterMap g = l.filterMap g := by
  induction l generalizing i with
  | nil => rfl
  | cons x l ih =>
    cases i with
    | zero =>
      obtain rfl := Option.some.inj h
      rw [set_cons_zero, filterMap_cons, filterMap_cons, hg]
    | succ i =>
      rw [set_cons_succ, filterMap_cons, filterMap_cons, ih h]

/-- An entry that is the only one with its value takes the value away with it. -/
theorem filterMap_set_of_none [DecidableEq β] {g : α → Option β} {y : β} (h : l[i]? = some a)
    (ha : g a = some y) (hb : g b = none)
    (hothers : ∀ j x, j ≠ i → l[j]? = some x → g x ≠ some y) :
    (l.set i b).filterMap g = (l.filterMap g).filter (· ≠ y) := by
  induction l generalizing i with
  | nil => cases h
  | cons x l ih =>
    cases i with
    | zero =>
      obtain rfl := Option.some.inj h
      rw [set_cons_zero, filterMap_cons_none hb, filterMap_cons_some ha,
        filter_cons_of_neg (by simp), eq_comm, filter_eq_self]
      intro z hz
      obtain ⟨d, hd, hz⟩ := mem_filterMap.mp hz
      obtain ⟨j, hj⟩ := getElem?_of_mem hd
      have hne : z ≠ y := by
        rintro rfl
        exact hothers (j + 1) d (by omega) hj hz
      simpa using hne
    | succ i =>
      have hrest := ih h fun j z hj hz => hothers (j + 1) z (by omega) hz
      have hx := hothers 0 x (by omega) rfl
      rw [set_cons_succ, filterMap_cons, filterMap_cons, hrest]
      cases hgx : g x with
      | none => rfl
      | some z =>
        have hne : z ≠ y := fun he => hx (by rw [hgx, he])
        dsimp only
        rw [filter_cons_of_pos (by simpa using hne)]

/-! ## A map that may fail -/

theorem map_of_mapM_eq_some {g : α → Option β} {rs : List β} (h : l.mapM g = some rs) :
    l.map g = rs.map some := by
  induction l generalizing rs with
  | nil =>
    obtain rfl := Option.some.inj h
    rfl
  | cons x l ih =>
    rw [mapM_cons] at h
    obtain ⟨y, hy, h⟩ := Option.bind_eq_some_iff.mp h
    obtain ⟨rest, hrest, h⟩ := Option.bind_eq_some_iff.mp h
    obtain rfl := Option.some.inj h
    rw [map_cons, map_cons, hy, ih hrest]

theorem exists_of_mapM_eq_some {g : α → Option β} {rs : List β} (h : l.mapM g = some rs)
    (ha : a ∈ l) : ∃ r, g a = some r := by
  have hmem : g a ∈ l.map g := mem_map_of_mem ha
  rw [map_of_mapM_eq_some h] at hmem
  obtain ⟨r, -, hr⟩ := mem_map.mp hmem
  exact ⟨r, hr.symm⟩

/-! ## Searching -/

/-- A search from above finds the greatest number that passes. -/
theorem find?_reverse_range_eq_some {test : Nat → Bool}
    (hfound : (range n).reverse.find? test = some i) :
    test i = true ∧ i < n ∧ ∀ j, i < j → j < n → test j = false := by
  induction n with
  | zero => cases hfound
  | succ n ih =>
    rw [range_succ, reverse_concat, find?_cons] at hfound
    split at hfound
    · rename_i hn
      obtain rfl := Option.some.inj hfound
      exact ⟨hn, Nat.lt_succ_self n, fun j hlt hle => by omega⟩
    · rename_i hn
      obtain ⟨hi, hlt, hgreatest⟩ := ih hfound
      refine ⟨hi, Nat.lt_succ_of_lt hlt, fun j hij hj => ?_⟩
      rcases Nat.lt_succ_iff_lt_or_eq.mp hj with hj | rfl
      · exact hgreatest j hij hj
      · simpa using hn

/-! ## Neighbours and order -/

/-- A pair of neighbours that comes up no more is at one place. -/
theorem eq_of_last_pair {xs' ys' : List α} (hlast : ¬ [a, b] <:+: b :: ys)
    (hlast' : ¬ [a, b] <:+: b :: ys') (h : xs ++ a :: b :: ys = xs' ++ a :: b :: ys') :
    xs = xs' ∧ ys = ys' := by
  have hno : ∀ {zs zs' : List α} (between : List α), ¬ [a, b] <:+: b :: zs →
      a :: b :: zs = between ++ a :: b :: zs' → between = [] := by
    intro zs zs' between hlast h
    cases between with
    | nil => rfl
    | cons x between =>
      obtain ⟨-, hrest⟩ := cons.inj h
      exact absurd ⟨between, zs', by rw [hrest]; simp⟩ hlast
  rcases append_eq_append_iff.mp h with ⟨between, rfl, heq⟩ | ⟨between, rfl, heq⟩
  · obtain rfl := hno between hlast heq
    exact ⟨by simp, by simpa using heq⟩
  · obtain rfl := hno between hlast' heq
    exact ⟨by simp, by simpa using heq.symm⟩

/-- What comes before `b` in a list has every other member in it that `b` is not before of. -/
theorem mem_of_not_sublist (ha : a ∈ xs ++ b :: ys) (hne : a ≠ b)
    (hb : ¬ [b, a].Sublist (xs ++ b :: ys)) : a ∈ xs := by
  rcases mem_append.mp ha with hx | hx
  · exact hx
  · have hy : a ∈ ys := (mem_cons.mp hx).resolve_left hne
    have hlater : [b, a].Sublist (b :: ys) := (singleton_sublist.mpr hy).cons_cons b
    exact absurd (hlater.trans (sublist_append_right xs _)) hb

theorem diff_self [BEq α] [LawfulBEq α] (l : List α) : l.diff l = [] := by
  induction l with
  | nil => rfl
  | cons x l ih => rw [diff_cons, erase_cons_head, ih]

end List
