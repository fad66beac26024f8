import StageLens.Proofs.Host.Change
import StageLens.Proofs.Host.Path

/-!
# What a directory lists

A name that is put into a directory comes last in its list, and the list without a name is that of
the directory after the name was removed. Making a directory that is there already changes nothing
(`eq_ensureChain`), so that its list stays too.
-/

namespace StageLens.Tree

variable {t : Tree} {p q : Place} {n : Node} {name : Bytes}

theorem nameIn_eq_some_iff : nameIn p q = some name ↔ q = p ++ [name] := by
  unfold nameIn
  rcases List.eq_nil_or_concat q with rfl | ⟨front, last, rfl⟩
  · simp
  · rw [List.concat_eq_append, List.getLast?_append_of_ne_nil _ (List.cons_ne_nil _ _)]
    by_cases hlast : front = p
    · simp [hlast]
    · simp [hlast]

theorem putEntry_of_lookup_eq_none {es : List (Place × Node)} (h : es.lookup p = none) :
    putEntry p n es = es ++ [(p, n)] := by
  induction es with
  | nil => rfl
  | cons e es ih =>
    obtain ⟨r, m⟩ := e
    rw [List.lookup_cons] at h
    by_cases hr : p = r
    · simp [hr] at h
    · have hbeq : (p == r) = false := by simpa using hr
      rw [hbeq] at h
      rw [putEntry, if_neg (Ne.symm hr), ih h, List.cons_append]

theorem names_put (hp : p ≠ []) (h : t.get? p = none) (directory : Place) :
    (t.put p n).names directory = t.names directory ++ (nameIn directory p).toList := by
  rw [get?_of_ne hp] at h
  unfold put names
  rw [putEntry_of_lookup_eq_none h, List.filterMap_append]
  cases hin : nameIn directory p <;> simp [hin]

/-- A new name comes last. -/
theorem names_put_child (h : t.get? (p ++ [name]) = none) :
    (t.put (p ++ [name]) n).names p = t.names p ++ [name] := by
  rw [names_put (by simp) h, nameIn_eq_some_iff.mpr rfl]
  rfl

/-- What is put further down is not listed. -/
theorem names_put_grandchild {below : Bytes} (h : t.get? (p ++ [name] ++ [below]) = none) :
    (t.put (p ++ [name] ++ [below]) n).names p = t.names p := by
  have hnone : nameIn p (p ++ [name] ++ [below]) = none := by
    rw [Option.eq_none_iff_forall_ne_some]
    intro other hother
    have hlen := congrArg List.length (nameIn_eq_some_iff.mp hother)
    simp at hlen
  rw [names_put (by simp) h, hnone, Option.toList_none, List.append_nil]

theorem names_remove_child :
    (t.remove (p ++ [name])).names p = (t.names p).filter (· ≠ name) := by
  unfold remove names
  dsimp only
  induction t.entries with
  | nil => rfl
  | cons e es ih =>
    cases hin : nameIn p e.1 with
    | none =>
      -- What is not listed makes no difference, whether it goes or stays.
      rw [List.filter_cons, List.filterMap_cons, hin]
      dsimp only
      rw [← ih]
      split
      · rw [List.filterMap_cons, hin]
      · rfl
    | some other =>
      have hplace := nameIn_eq_some_iff.mp hin
      have hgoes : (p ++ [name]).isPrefixOf e.1 = (other == name) := by
        rw [hplace, Bool.eq_iff_iff, List.isPrefixOf_iff_prefix, beq_iff_eq]
        constructor
        · intro hprefix
          have heq := hprefix.eq_of_length (by simp)
          exact (List.singleton_inj.mp (List.append_cancel_left heq)).symm
        · rintro rfl
          exact List.prefix_rfl
      rw [List.filter_cons, hgoes, List.filterMap_cons, hin]
      dsimp only
      rw [List.filter_cons, ← ih]
      by_cases hother : other = name
      · simp [hother]
      · have hbeq : (other == name) = false := by simpa using hother
        simp [hbeq, hother, hin]

/-- What is listed is there, and the other way round. -/
theorem mem_names_iff : name ∈ t.names p ↔ (t.get? (p ++ [name])).isSome := by
  rw [get?_of_ne (by simp), Option.isSome_iff_ne_none, Ne, List.lookup_eq_none_iff]
  constructor
  · intro h hnone
    obtain ⟨e, he, hin⟩ := List.mem_filterMap.mp h
    exact bne_iff_ne.mp (hnone e he) (nameIn_eq_some_iff.mp hin).symm
  · intro h
    by_contra hnot
    refine h fun e he => bne_iff_ne.mpr fun hplace => hnot ?_
    exact List.mem_filterMap.mpr ⟨e, he, nameIn_eq_some_iff.mpr hplace.symm⟩

end StageLens.Tree

namespace StageLens.Host

open StageLens.Tree (Reached)

variable {t : Tree} {h h' : Host} {p : Bytes} {place D : Place} {names : List Bytes} {hops : Nat}
variable {n : Node} {follow : Bool}

/-! ## The end of a path -/

/-- Where a path leads to something when a link at its end is followed, it leads to something when
the link is not followed. -/
theorem descend_false_of_true (r : Leg) (h : descend t true place names = r) :
    descend t false place names = r ∨
      (∃ directory target rest, r = .link directory target rest) ∧
        ∃ D n, descend t false place names = .reached (.there D n) := by
  induction names generalizing place with
  | nil =>
    subst h
    exact .inl rfl
  | cons name names ih =>
    rw [descend_cons] at h ⊢
    cases hp : pace t place name with
    | failed e =>
      rw [hp] at h
      exact .inl h
    | goes q =>
      rw [hp] at h
      exact ih h
    | absent =>
      rw [hp] at h
      exact .inl h
    | link target =>
      rw [hp] at h
      dsimp only at h ⊢
      rw [if_neg (by simp)] at h
      split
      · exact .inr ⟨⟨_, _, _, h.symm⟩, _, _, rfl⟩
      · exact .inl h

theorem exists_followFrom_false (h : followFrom t true hops place names = .ok (.there D n)) :
    ∃ D' n', followFrom t false hops place names = .ok (.there D' n') := by
  have htrip := trip_of_followFrom h
  clear h
  generalize hr : Reached.there D n = r at htrip
  induction htrip with
  | arrive hops place names r hd =>
    subst hr
    rcases descend_false_of_true _ hd with hsame | ⟨⟨_, _, _, hlink⟩, -⟩
    · exact ⟨D, n, (Trip.arrive _ _ _ _ hsame).followFrom⟩
    · cases hlink
  | hop hops place names r directory target rest hd _ ih =>
    rcases descend_false_of_true _ hd with hsame | ⟨-, D', n', hthere⟩
    · obtain ⟨D', n', hfound⟩ := ih hr
      exact ⟨D', n', (Trip.hop _ _ _ _ _ _ _ hsame (trip_of_followFrom hfound)).followFrom⟩
    · exact ⟨D', n', (Trip.arrive _ _ _ _ hthere).followFrom⟩

theorem get?_of_descend (ht : t.Proper) (hplace : (t.get? place).isSome)
    (h : descend t follow place names = .reached (.there D n)) : t.get? D = some n := by
  induction names generalizing place with
  | nil =>
    obtain ⟨m, hm⟩ := Option.isSome_iff_exists.mp hplace
    cases h
    rw [hm]
    rfl
  | cons name names ih =>
    rw [descend_cons] at h
    have hpaced := paced t place name
    generalize pace t place name = a at *
    cases hpaced with
    | barred _ => cases h
    | tooLong _ _ => cases h
    | here _ _ => exact ih hplace h
    | above hdir _ =>
      obtain ⟨m, hm⟩ := ht.dropLast hdir
      exact ih (by rw [hm]; rfl) h
    | absent _ _ _ =>
      dsimp only at h
      split at h <;> cases h
    | link target _ _ hlink =>
      dsimp only at h
      split at h
      · cases h
        exact hlink
      · cases h
    | down _ _ _ hn _ => exact ih (by rw [hn]; rfl) h

/-- What a path leads to is at the place where it leads. -/
theorem get?_of_followFrom (ht : t.Proper) (hplace : (t.get? place).isSome)
    (h : followFrom t follow hops place names = .ok (.there D n)) : t.get? D = some n := by
  have htrip := trip_of_followFrom h
  clear h
  generalize hr : Reached.there D n = r at htrip
  induction htrip with
  | arrive hops place names r hd =>
    subst hr
    exact get?_of_descend ht hplace hd
  | hop hops place names r directory target rest hd _ ih =>
    refine ih ?_ hr
    split
    · rfl
    · rw [directory_of_descend hd]
      rfl

/-- The dot at the end of a path is taken in the directory itself, which has to be one. -/
theorem followFrom_here :
    followFrom t true hops place [Path.here] = .ok (.there D n) ↔
      t.get? place = some .directory ∧ place = D ∧ n = .directory := by
  rw [followFrom]
  by_cases hdir : t.get? place = some .directory
  · simp [descend, hdir, eq_comm]
  · simp [descend, hdir]

/-- A slash at the end asks for a directory and makes no other difference. -/
theorem followFrom_steps (ht : t.Proper) (hplace : (t.get? place).isSome) :
    followFrom t true hops place (steps p) = .ok (.there D .directory) ↔
      followFrom t true hops place (Path.parts p) = .ok (.there D .directory) := by
  unfold steps
  cases hp : Path.endsInSlash p with
  | false => rw [if_neg Bool.false_ne_true, List.append_nil]
  | true =>
    rw [if_pos rfl]
    have hne : [Path.here] ≠ [] := List.cons_ne_nil _ _
    constructor
    · intro hfound
      obtain ⟨E, n, hE⟩ := exists_of_followFrom_append hne hfound
      obtain ⟨left, hleft, -⟩ := followFrom_append true hne hE
      rw [hleft] at hfound
      obtain ⟨hdir, rfl, -⟩ := followFrom_here.mp hfound
      rw [get?_of_followFrom ht hplace hE] at hdir
      rw [hE, Option.some.inj hdir]
    · intro hfound
      obtain ⟨left, hleft, -⟩ := followFrom_append true hne hfound
      rw [hleft, followFrom_here]
      exact ⟨get?_of_followFrom ht hplace hfound, rfl, rfl⟩

/-- What is listed is what the tree has under the place where the path leads. -/
theorem entries_eq_ok_iff {listed : List Bytes} (ht : h.tree.Proper)
    (hp : Path.isAbsolute p = true) :
    h.entries p = .ok listed ↔ (p.contains 0 = false ∧ p.length ≤ pathLimit) ∧
      ∃ D, followFrom h.tree true linkLimit [] (Path.parts p) = .ok (.there D .directory) ∧
        listed = h.tree.names D := by
  have hroot : (h.tree.get? []).isSome := rfl
  constructor
  · intro hlisted
    obtain ⟨r, hr, hlisted⟩ := bind_eq_ok_iff.mp hlisted
    obtain ⟨hnul, hshort, hfound⟩ := followFrom_of_locate hr
    rw [hp, if_pos rfl] at hfound
    cases r with
    | missing D name => cases hlisted
    | there D n =>
      cases n with
      | directory =>
        cases hlisted
        exact ⟨⟨hnul, hshort⟩, D, (followFrom_steps ht hroot).mp hfound, rfl⟩
      | _ => cases hlisted
  · rintro ⟨⟨hnul, hshort⟩, D, hfound, rfl⟩
    have hfind : h.find p = .ok (.there D .directory) := by
      refine locate_of_followFrom (Path.ne_nil_of_isAbsolute hp) hnul hshort ?_
      rw [hp, if_pos rfl]
      exact (followFrom_steps ht hroot).mpr hfound
    unfold entries
    rw [hfind]
    rfl

/-! ## The working directory -/

/-- The working directory is a directory at the place that its path says. -/
structure InPlace (h : Host) : Prop where
  names : ∀ name ∈ h.cwd, Path.IsName name ∧ isLookedUp name = true
  there : h.tree.get? h.cwd = some .directory

/-- The way down to a directory by its names ends there. -/
theorem descend_of_directory (ht : t.Proper) (hnames : ∀ name ∈ names, isLookedUp name = true)
    (hdir : t.get? (place ++ names) = some .directory) :
    descend t true place names = .reached (.there (place ++ names) .directory) := by
  induction names generalizing place with
  | nil =>
    rw [List.append_nil] at hdir ⊢
    rw [descend, hdir]
    rfl
  | cons name names ih =>
    obtain ⟨hname, hnames⟩ := List.forall_mem_cons.mp hnames
    have hsplit : place ++ name :: names = place ++ [name] ++ names := by simp
    rw [hsplit] at hdir ⊢
    have hnext : t.get? (place ++ [name]) = some .directory := by
      by_cases hnil : names = []
      · rwa [hnil, List.append_nil] at hdir
      · exact ht.above hdir hnil
    rw [descend_cons, pace_of_node (ht _ _ _ hnext) hname hnext (by simp)]
    exact ih hnames hdir

/-- A path leads where its absolute form leads. -/
theorem followFrom_join_cwdPath (ht : h.tree.Proper) (hin : h.InPlace) (hne : Path.parts p ≠ []) :
    followFrom h.tree true hops [] (Path.parts (Path.join h.cwdPath p)) =
      followFrom h.tree true hops (if Path.isAbsolute p then [] else h.cwd) (Path.parts p) := by
  cases hp : Path.isAbsolute p with
  | true =>
    rw [if_pos rfl, Path.join, if_pos hp]
  | false =>
    have hparts : Path.parts (Path.join h.cwdPath p) = h.cwd ++ Path.parts p :=
      Path.parts_join_ofPlace (fun name hname => (hin.names name hname).1) hp
    have hdown : descend h.tree true [] h.cwd = .reached (.there h.cwd .directory) :=
      descend_of_directory ht (fun name hname => (hin.names name hname).2) hin.there
    rw [if_neg Bool.false_ne_true, hparts]
    exact (followFrom_append_of_descend true hne hdown).1

/-! ## Making a directory that is there -/

/-- What a path leads to cannot be made a directory. -/
theorem makeDirectory_of_found {start : Place} (hne : p ≠ []) (hslash : Path.endsInSlash p = false)
    (hstart : start = if Path.isAbsolute p then [] else h.cwd)
    (hfound : followFrom h.tree true linkLimit start (Path.parts p) = .ok (.there D n)) :
    ∃ e, h.makeDirectory p = .error e ∧ e ≠ .notFound := by
  obtain ⟨D', n', hfalse⟩ := exists_followFrom_false hfound
  have hlocate : (∃ e, h.locate false p = .error e ∧ e ≠ .notFound) ∨
      h.locate false p = .ok (.there D' n') := by
    unfold locate
    rw [if_neg (by simpa using hne)]
    split
    · exact .inl ⟨_, rfl, by simp⟩
    · split
      · exact .inl ⟨_, rfl, by simp⟩
      · rw [← hstart, steps_eq_parts hslash]
        exact .inr hfalse
  have hsame : (if (Path.parts p).isEmpty then p
      else (p.reverse.dropWhile (· == Path.slash)).reverse) = p := by
    rw [dropWhile_slash_of_not_endsInSlash hslash, ite_self]
  unfold makeDirectory
  dsimp only
  rw [hsame]
  rcases hlocate with ⟨e, he, hnot⟩ | hthere
  · rw [he]
    exact ⟨e, rfl, hnot⟩
  · rw [hthere]
    exact ⟨.alreadyExists, rfl, by simp⟩

/-- **Making a directory that is there changes nothing**, nor does making those above it. -/
theorem eq_ensureChain (ht : h.tree.Proper) (hin : h.InPlace)
    (hfound : followFrom h.tree true linkLimit [] (Path.parts (Path.join h.cwdPath p)) =
      .ok (.there D .directory)) :
    (h.ensureChain (Path.ancestors p)).2 = h := by
  by_cases hparts : Path.parts p = []
  · have hnone : Path.ancestors p = [] := by simp [Path.ancestors, hparts]
    rw [hnone]
    rfl
  · obtain ⟨q, above, hq, hne, hsame, hslash, habs⟩ := Path.ancestors_eq_cons hparts
    rw [followFrom_join_cwdPath ht hin hparts, ← hsame, ← habs] at hfound
    obtain ⟨e, he, hnot⟩ := makeDirectory_of_found hne hslash rfl hfound
    rw [hq, ensureChain, he]
    -- The first directory cannot be made, and not because one above it is missing.
    cases e with
    | notFound => exact absurd rfl hnot
    | _ => rfl

end StageLens.Host
