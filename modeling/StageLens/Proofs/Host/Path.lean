import Mathlib.Data.List.Basic
import Mathlib.Tactic.Common
import StageLens.Host.Basic

/-!
# Paths inside directories

The parts of a path that is made by joining are those of the directory, then the name. The paths
above a path have its first parts.
-/

namespace StageLens.Path

variable {a b d name : Bytes}

/-- A name of an entry in a directory: there is one, and no slash is in it. -/
structure IsName (name : Bytes) : Prop where
  nonempty : name ≠ []
  noSlash : slash ∉ name

theorem split_ne_nil (separator : UInt8) (a : Bytes) : split separator a ≠ [] := by
  cases a with
  | nil => exact List.cons_ne_nil _ _
  | cons x a =>
    unfold split
    split
    · exact List.cons_ne_nil _ _
    · split <;> exact List.cons_ne_nil _ _

theorem split_append (separator : UInt8) (a b : Bytes) :
    split separator (a ++ separator :: b) = split separator a ++ split separator b := by
  induction a with
  | nil => simp [split]
  | cons x a ih =>
    rw [List.cons_append, split, split, ih]
    by_cases hx : x = separator
    · rw [if_pos hx, if_pos hx]
      rfl
    · rw [if_neg hx, if_neg hx]
      cases ha : split separator a with
      | nil => exact absurd ha (split_ne_nil separator a)
      | cons part parts => rfl

theorem split_of_not_mem {separator : UInt8} (h : separator ∉ a) : split separator a = [a] := by
  induction a with
  | nil => rfl
  | cons x a ih =>
    rw [List.mem_cons, not_or] at h
    rw [split, if_neg (Ne.symm h.1), ih h.2]

theorem parts_append (a b : Bytes) : parts (a ++ slash :: b) = parts a ++ parts b := by
  unfold parts
  rw [split_append, List.filter_append]

theorem parts_name (h : IsName name) : parts name = [name] := by
  unfold parts
  rw [split_of_not_mem h.noSlash]
  have : name.isEmpty = false := by simpa using h.nonempty
  simp [this]

theorem not_isAbsolute_name (h : IsName name) : isAbsolute name = false := by
  cases name with
  | nil => rfl
  | cons x name =>
    have hx : x ≠ slash := fun he => h.noSlash (he ▸ List.mem_cons_self)
    simp [isAbsolute, hx]

theorem isAbsolute_append (h : isAbsolute a = true) (b : Bytes) : isAbsolute (a ++ b) = true := by
  cases a with
  | nil => cases h
  | cons x a => exact h

/-- Joining a name to a path adds a part, whether or not the path ends with a slash. -/
theorem join_name (hd : d ≠ []) (h : IsName name) :
    ∃ front, join d name = front ++ slash :: name ∧ parts front = parts d := by
  have hempty : d.isEmpty = false := by simpa using hd
  unfold join
  rw [if_neg (by rw [not_isAbsolute_name h]; exact Bool.false_ne_true), hempty,
    if_neg Bool.false_ne_true]
  split
  · rename_i hslash
    rcases List.eq_nil_or_concat d with rfl | ⟨front, last, rfl⟩
    · exact absurd rfl hd
    · rw [List.concat_eq_append] at hslash ⊢
      have hlast : last = slash := by simpa [endsInSlash] using hslash
      subst hlast
      refine ⟨front, by simp, ?_⟩
      have hparts := parts_append front []
      rw [hparts]
      simp [parts, split]
  · exact ⟨d, rfl, rfl⟩

theorem parts_join (hd : d ≠ []) (h : IsName name) : parts (join d name) = parts d ++ [name] := by
  obtain ⟨front, hjoin, hfront⟩ := join_name hd h
  rw [hjoin, parts_append, hfront, parts_name h]

/-- A path inside a directory begins with that of the directory. -/
theorem prefix_join (d : Bytes) (h : IsName name) : d <+: join d name := by
  unfold join
  rw [if_neg (by rw [not_isAbsolute_name h]; exact Bool.false_ne_true)]
  split
  · rename_i hempty
    rw [List.isEmpty_iff.mp hempty]
    exact List.nil_prefix
  · split
    · exact List.prefix_append _ _
    · exact List.prefix_append _ _

theorem not_endsInSlash_join (hd : d ≠ []) (h : IsName name) :
    endsInSlash (join d name) = false := by
  obtain ⟨front, hjoin, -⟩ := join_name hd h
  rcases List.eq_nil_or_concat name with rfl | ⟨init, last, rfl⟩
  · exact absurd rfl h.nonempty
  · rw [List.concat_eq_append] at hjoin h
    have hlast : last ≠ slash := by
      rintro rfl
      exact h.noSlash (by simp)
    have hfull : front ++ slash :: (init ++ [last]) = (front ++ slash :: init) ++ [last] := by simp
    rw [List.concat_eq_append, hjoin, hfull, endsInSlash, List.getLast?_concat]
    simpa using hlast

theorem steps_join (hd : d ≠ []) (h : IsName name) :
    Host.steps (join d name) = parts d ++ [name] := by
  rw [Host.steps, not_endsInSlash_join hd h, parts_join hd h]
  simp

theorem isAbsolute_join (hd : isAbsolute d = true) (b : Bytes) : isAbsolute (join d b) = true := by
  unfold join
  split
  · assumption
  · split
    · rename_i hempty
      rw [List.isEmpty_iff] at hempty
      subst hempty
      cases hd
    · split
      · exact isAbsolute_append hd b
      · exact isAbsolute_append hd _

theorem isAbsolute_ofPlace (p : Place) : isAbsolute (ofPlace p) = true := by
  cases p <;> rfl

theorem ne_nil_of_isAbsolute (hd : isAbsolute d = true) : d ≠ [] := by
  rintro rfl
  cases hd

/-! ## Paths written from their parts -/

/-- The parts of a path are names. -/
theorem not_mem_of_mem_split {separator : UInt8} {part : Bytes} (h : part ∈ split separator a) :
    separator ∉ part := by
  induction a generalizing part with
  | nil =>
    rw [split, List.mem_singleton] at h
    simp [h]
  | cons x a ih =>
    rw [split] at h
    split at h
    · rcases List.mem_cons.mp h with rfl | h
      · exact List.not_mem_nil
      · exact ih h
    · rename_i hx
      cases hs : split separator a with
      | nil => exact absurd hs (split_ne_nil separator a)
      | cons first others =>
        rw [hs] at h ih
        rcases List.mem_cons.mp h with rfl | h
        · rw [List.mem_cons, not_or]
          exact ⟨Ne.symm hx, ih List.mem_cons_self⟩
        · exact ih (List.mem_cons_of_mem _ h)

theorem isName_of_mem_parts (h : name ∈ parts a) : IsName name :=
  ⟨parts_ne_nil h, not_mem_of_mem_split (List.mem_filter.mp h).1⟩

theorem endsInSlash_append (hb : b ≠ []) : endsInSlash (a ++ b) = endsInSlash b := by
  unfold endsInSlash
  rw [List.getLast?_append_of_ne_nil a hb]

theorem not_endsInSlash_name (h : IsName name) : endsInSlash name = false := by
  rcases List.eq_nil_or_concat name with rfl | ⟨front, last, rfl⟩
  · exact absurd rfl h.nonempty
  · rw [List.concat_eq_append] at h ⊢
    have hlast : last ≠ slash := by
      rintro rfl
      exact h.noSlash (by simp)
    simpa [endsInSlash] using hlast

variable {names : List Bytes}

theorem parts_slash (a : Bytes) : parts (slash :: a) = parts a := parts_append [] a

theorem parts_flatMap (h : ∀ name ∈ names, IsName name) :
    parts (names.flatMap (slash :: ·)) = names := by
  induction names with
  | nil => rfl
  | cons name names ih =>
    obtain ⟨hname, hnames⟩ := List.forall_mem_cons.mp h
    rw [List.flatMap_cons, List.cons_append, parts_slash]
    cases names with
    | nil =>
      rw [List.flatMap_nil, List.append_nil]
      exact parts_name hname
    | cons other names =>
      have htail := ih hnames
      rw [List.flatMap_cons, List.cons_append, parts_slash] at htail
      rw [List.flatMap_cons, List.cons_append, parts_append, parts_name hname, htail]
      rfl

/-- The path of a place leads down by its names. -/
theorem parts_ofPlace {p : Place} (h : ∀ name ∈ p, IsName name) : parts (ofPlace p) = p := by
  cases p with
  | nil => rfl
  | cons name p => exact parts_flatMap h

theorem not_endsInSlash_ofPlace {p : Place} (h : ∀ name ∈ p, IsName name) (hne : p ≠ []) :
    endsInSlash (ofPlace p) = false := by
  rcases List.eq_nil_or_concat p with rfl | ⟨front, last, rfl⟩
  · exact absurd rfl hne
  · rw [List.concat_eq_append] at h ⊢
    have hlast : IsName last := h last (by simp)
    have hpath : ofPlace (front ++ [last]) = (front ++ [last]).flatMap (slash :: ·) := by
      cases front <;> rfl
    rw [hpath, List.flatMap_append, List.flatMap_singleton,
      endsInSlash_append (List.cons_ne_nil _ _), ← List.singleton_append,
      endsInSlash_append hlast.nonempty, not_endsInSlash_name hlast]

theorem parts_intersperse (h : ∀ name ∈ names, IsName name) :
    parts (names.intersperse [slash]).flatten = names := by
  induction names with
  | nil => rfl
  | cons name names ih =>
    obtain ⟨hname, hnames⟩ := List.forall_mem_cons.mp h
    cases names with
    | nil =>
      rw [List.intersperse_singleton, List.flatten_cons, List.flatten_nil, List.append_nil]
      exact parts_name hname
    | cons other names =>
      rw [List.intersperse_cons_cons, List.flatten_cons, List.flatten_cons, List.singleton_append,
        parts_append, ih hnames, parts_name hname]
      rfl

theorem not_endsInSlash_intersperse (h : ∀ name ∈ names, IsName name) :
    endsInSlash (names.intersperse [slash]).flatten = false := by
  induction names with
  | nil => rfl
  | cons name names ih =>
    obtain ⟨hname, hnames⟩ := List.forall_mem_cons.mp h
    cases names with
    | nil =>
      rw [List.intersperse_singleton, List.flatten_cons, List.flatten_nil, List.append_nil]
      exact not_endsInSlash_name hname
    | cons other names =>
      have hrest : ((other :: names).intersperse [slash]).flatten ≠ [] := by
        intro hnil
        have hparts := parts_intersperse hnames
        rw [hnil] at hparts
        cases hparts
      rw [List.intersperse_cons_cons, List.flatten_cons, List.flatten_cons,
        endsInSlash_append (by simp), endsInSlash_append hrest, ih hnames]

theorem not_isAbsolute_intersperse (h : ∀ name ∈ names, IsName name) :
    isAbsolute (names.intersperse [slash]).flatten = false := by
  cases names with
  | nil => rfl
  | cons name names =>
    obtain ⟨hname, -⟩ := List.forall_mem_cons.mp h
    have hfront : ∃ rest, ((name :: names).intersperse [slash]).flatten = name ++ rest := by
      cases names with
      | nil => exact ⟨[], by simp⟩
      | cons other names => exact ⟨_, by rw [List.intersperse_cons_cons, List.flatten_cons]⟩
    obtain ⟨rest, hrest⟩ := hfront
    have hhead := not_isAbsolute_name hname
    rw [hrest]
    cases name with
    | nil => exact absurd rfl hname.nonempty
    | cons x name => exact hhead

/-- The first of the paths to a directory and those above it is that of the directory, written from
its parts. -/
theorem ancestors_eq_cons (hne : parts a ≠ []) :
    ∃ p above, ancestors a = p :: above ∧ p ≠ [] ∧ parts p = parts a ∧
      endsInSlash p = false ∧ isAbsolute p = isAbsolute a := by
  have hnames : ∀ name ∈ parts a, IsName name := fun name hname => isName_of_mem_parts hname
  obtain ⟨k, hk⟩ : ∃ k, (parts a).length = k + 1 :=
    Nat.exists_eq_succ_of_ne_zero fun h => hne (List.length_eq_zero_iff.mp h)
  have htake : (parts a).take (k + 1) = parts a := by
    rw [← hk, List.take_length]
  have hparts : ∀ p, parts p = parts a → p ≠ [] := by
    rintro p hp rfl
    exact hne hp.symm
  unfold ancestors
  dsimp only
  rw [hk, List.range_succ, List.reverse_append, List.reverse_singleton, List.singleton_append,
    List.map_cons, htake]
  refine ⟨_, _, rfl, ?_⟩
  cases ha : isAbsolute a with
  | true =>
    rw [if_pos rfl]
    exact ⟨hparts _ (parts_ofPlace hnames), parts_ofPlace hnames,
      not_endsInSlash_ofPlace hnames hne, isAbsolute_ofPlace _⟩
  | false =>
    rw [if_neg Bool.false_ne_true]
    exact ⟨hparts _ (parts_intersperse hnames), parts_intersperse hnames,
      not_endsInSlash_intersperse hnames, not_isAbsolute_intersperse hnames⟩

/-- The paths to the directories above a path are written from its parts. -/
theorem parts_of_mem_ancestors {p : Bytes} (h : p ∈ ancestors a) :
    endsInSlash p = false ∧ parts p ≠ [] ∧ parts p <+: parts a := by
  have hnames : ∀ name ∈ parts a, IsName name := fun name hname => isName_of_mem_parts hname
  unfold ancestors at h
  dsimp only at h
  obtain ⟨k, hk, rfl⟩ := List.mem_map.mp h
  have hlt : k < (parts a).length := List.mem_range.mp (List.mem_reverse.mp hk)
  have htake : ∀ name ∈ (parts a).take (k + 1), IsName name :=
    fun name hname => hnames name (List.mem_of_mem_take hname)
  have hne : (parts a).take (k + 1) ≠ [] := by
    intro hnil
    rw [List.take_eq_nil_iff] at hnil
    rcases hnil with hzero | hnil
    · omega
    · rw [hnil] at hlt
      exact absurd hlt (Nat.not_lt_zero k)
  split
  · rw [parts_ofPlace htake]
    exact ⟨not_endsInSlash_ofPlace htake hne, hne, List.take_prefix _ _⟩
  · rw [parts_intersperse htake]
    exact ⟨not_endsInSlash_intersperse htake, hne, List.take_prefix _ _⟩

/-- The paths above an absolute path are absolute, and those above a relative one are relative. -/
theorem isAbsolute_of_mem_ancestors {p : Bytes} (h : p ∈ ancestors a) :
    isAbsolute p = isAbsolute a := by
  unfold ancestors at h
  dsimp only at h
  obtain ⟨k, -, rfl⟩ := List.mem_map.mp h
  cases ha : isAbsolute a with
  | true =>
    rw [if_pos rfl]
    exact isAbsolute_ofPlace _
  | false =>
    rw [if_neg Bool.false_ne_true]
    exact not_isAbsolute_intersperse fun name hname =>
      isName_of_mem_parts (List.mem_of_mem_take hname)

/-- A relative path inside a directory adds its parts. -/
theorem parts_join_relative (hd : d ≠ []) (hslash : endsInSlash d = false)
    (ha : isAbsolute a = false) : parts (join d a) = parts d ++ parts a := by
  have hempty : d.isEmpty = false := by simpa using hd
  unfold join
  rw [ha, if_neg Bool.false_ne_true, hempty, if_neg Bool.false_ne_true, hslash,
    if_neg Bool.false_ne_true, parts_append]

/-- The parts of a path inside the directory of a place. -/
theorem parts_join_ofPlace {p : Place} (hp : ∀ name ∈ p, IsName name) (ha : isAbsolute a = false) :
    parts (join (ofPlace p) a) = p ++ parts a := by
  by_cases hne : p = []
  · subst hne
    unfold join
    rw [ha, if_neg Bool.false_ne_true]
    exact parts_append [] a
  · rw [parts_join_relative (ne_nil_of_isAbsolute (isAbsolute_ofPlace p))
      (not_endsInSlash_ofPlace hp hne) ha, parts_ofPlace hp]

end StageLens.Path
