import StageLens.Proofs.Host.Listing

/-!
# Paths that lead into a directory

To directories that are made for a path parts of that path lead (`led_of_ensureChain`), so that they
are on its way (`mem_way_of_ensureChain`). The names of a relative path may lead above the place
where it starts; `Path.inner?` follows them without a tree and says where they end if they never do.
Inside a directory that holds no links a path goes where its names say (`arrives_inside`): all that
is looked at there, made there or written there is in that directory (`inside_of_ensureChain`,
`put_of_write_inside`).
-/

namespace StageLens

/-- Where names lead that start at a place of a directory, both told from the directory: nowhere if
they lead out of it. -/
def Path.inner? (place : Place) : List Bytes → Option Place
  | [] => some place
  | name :: rest =>
    if name = Path.here then inner? place rest
    else if name = Path.above then if place = [] then none else inner? place.dropLast rest
    else inner? (place ++ [name]) rest

/-- A dot at the end leads nowhere else. -/
theorem Path.inner?_append_here (place : Place) (names : List Bytes) :
    Path.inner? place (names ++ [Path.here]) = Path.inner? place names := by
  induction names generalizing place with
  | nil => rfl
  | cons name names ih =>
    rw [List.cons_append, Path.inner?, Path.inner?]
    simp only [ih]

/-- Names that never go back lead to where they say. -/
theorem Path.inner?_of_not_mem_above (place : Place) {names : List Bytes}
    (habove : Path.above ∉ names) :
    Path.inner? place names = some (place ++ names.filter (· ≠ Path.here)) := by
  induction names generalizing place with
  | nil => simp [inner?]
  | cons name names ih =>
    rw [List.mem_cons, not_or] at habove
    rw [inner?, if_neg (Ne.symm habove.1)]
    by_cases hhere : name = Path.here
    · rw [if_pos hhere, ih place habove.2, List.filter_cons_of_neg (by simpa using hhere)]
    · rw [if_neg hhere, ih _ habove.2, List.filter_cons_of_pos (by simpa using hhere),
        List.append_assoc, List.singleton_append]

namespace Tree

variable {t : Tree} {p : Place} {n old : Node}

/-- What replaces something that is not a directory has nothing below it either. -/
theorem Proper.replace (ht : t.Proper) (hp : p ≠ []) (hold : t.get? p = some old)
    (hleaf : old ≠ .directory) : (t.put p n).Proper := by
  intro q name m hq
  rw [get?_put hp] at hq ⊢
  have hdir : t.get? q = some .directory := by
    split at hq
    · rename_i he
      exact ht q name old (by rw [he, hold])
    · exact ht q name m hq
  rw [if_neg ?_, hdir]
  rintro rfl
  rw [hold] at hdir
  exact hleaf (Option.some.inj hdir)

end Tree

namespace Host

open StageLens.Tree (Reached)

variable {t t' : Tree} {h h' h'' : Host} {p a d : Bytes} {place start base D q r : Place}
variable {names : List Bytes} {ps : List Bytes} {hops : Nat} {n : Node} {name : Bytes}

/-! ## Directories that are made are on the way -/

theorem mem_looked_of_descend (h : descend t true place names = .reached (.there D n)) :
    D ∈ looked t place names := by
  induction names generalizing place with
  | nil =>
    cases h
    exact List.mem_singleton.mpr rfl
  | cons name names ih =>
    rw [descend_cons] at h
    rw [mem_looked_cons]
    cases hp : pace t place name with
    | goes q =>
      rw [hp] at h
      exact .inr (.inr ⟨q, rfl, ih h⟩)
    | failed e => rw [hp] at h; cases h
    | absent =>
      rw [hp] at h
      dsimp only at h
      split at h <;> cases h
    | link target =>
      rw [hp] at h
      dsimp only at h
      rw [if_neg (by simp)] at h
      cases h

/-- Where a path leads is on its way. -/
theorem mem_lookedFrom_of_followFrom
    (h : followFrom t true hops place names = .ok (.there D n)) :
    D ∈ lookedFrom t true hops place names := by
  have htrip := trip_of_followFrom h
  clear h
  generalize hr : Reached.there D n = r at htrip
  induction htrip with
  | arrive hops place names r hd =>
    subst hr
    exact mem_lookedFrom.mpr (.inl (mem_looked_of_descend hd))
  | hop hops place names r directory target rest hd _ ih =>
    exact mem_lookedFrom.mpr (.inr ⟨_, _, _, _, hd, rfl, ih hr⟩)

/-- A longer path passes all places on the way of a directory that it leads through. -/
theorem lookedFrom_subset_of_prefix {names' : List Bytes} (hbegins : names <+: names')
    (h : followFrom t true hops place names = .ok (.there D n)) :
    ∀ q ∈ lookedFrom t true hops place names, q ∈ lookedFrom t true hops place names' := by
  obtain ⟨rest, rfl⟩ := hbegins
  intro q hq
  by_cases hrest : rest = []
  · rwa [hrest, List.append_nil]
  · obtain ⟨left, -, hlooked⟩ := followFrom_append true hrest h
    exact (hlooked q).mpr (.inl hq)

theorem InPlace.congr (hin : h.InPlace) (hcwd : h'.cwd = h.cwd)
    (hthere : h'.tree.get? h.cwd = h.tree.get? h.cwd) : h'.InPlace := by
  refine ⟨fun name hname => hin.names name (hcwd ▸ hname), ?_⟩
  rw [hcwd, hthere]
  exact hin.there

theorem InPlace.grown (hin : h.InPlace) (hgrown : h.Grown h') : h'.InPlace :=
  hin.congr hgrown.cwd (hgrown.tree.get? (by rw [hin.there]; rfl))

/-- A path through directories that are there leads to the same place when the tree has grown. -/
theorem followFrom_of_grows (ht : t.Proper) (hplace : (t.get? place).isSome) (hg : t.Grows t')
    (h : followFrom t true hops place names = .ok (.there D n)) :
    followFrom t' true hops place names = .ok (.there D n) ∧
      lookedFrom t' true hops place names = lookedFrom t true hops place names := by
  obtain ⟨hfollow, hlooked⟩ :=
    followFrom_congr fun q hq => hg.get? (isSome_of_followFrom ht hplace h q hq)
  exact ⟨by rw [hfollow, h], hlooked⟩

/-- What a path with a name in it leads to is there. -/
theorem get?_of_find (ht : h.tree.Proper) (hslash : Path.endsInSlash p = false)
    (hne : Path.parts p ≠ []) (hfind : h.find p = .ok (.there D n)) : h.tree.get? D = some n := by
  obtain ⟨-, -, hfollow⟩ := followFrom_of_locate hfind
  rw [steps_eq_parts hslash] at hfollow
  refine get?_of_followFrom ht ?_ hfollow
  rw [directory_of_followFrom hne hfollow]
  rfl

/-- A path that leads to a directory leads there when the host has grown. -/
theorem find_of_grown (ht : h.tree.Proper) (hgrown : h.Grown h')
    (hslash : Path.endsInSlash p = false) (hne : Path.parts p ≠ [])
    (hfind : h.find p = .ok (.there D n)) : h'.find p = .ok (.there D n) := by
  obtain ⟨hnul, hshort, hfollow⟩ := followFrom_of_locate hfind
  have hp : p ≠ [] := by
    rintro rfl
    exact hne rfl
  refine locate_of_followFrom hp hnul hshort ?_
  rw [hgrown.cwd]
  rw [steps_eq_parts hslash] at hfollow ⊢
  refine (followFrom_of_grows ht ?_ hgrown.tree hfollow).1
  rw [directory_of_followFrom hne hfollow]
  rfl

/-- The path of a directory leads to it once it is made. -/
theorem find_of_makeDirectory (ht : h.tree.Proper) (hslash : Path.endsInSlash p = false)
    (hne : Path.parts p ≠ []) (hm : h.makeDirectory p = .ok h') :
    ∃ q, h' = h.put q .directory ∧ q ≠ [] ∧ h'.find p = .ok (.there q .directory) := by
  have hgrown := grown_of_makeDirectory hm
  obtain ⟨p', D, name, hlocate, hput, hsame⟩ := put_of_makeDirectory hm
  rw [hsame hslash] at hlocate
  obtain ⟨hnul, hshort, hfollow⟩ := followFrom_of_locate hlocate
  rw [steps_eq_parts hslash] at hfollow
  have hthere := directory_of_followFrom hne hfollow
  obtain ⟨hdir, hup, -⟩ := missing_of_followFrom hfollow
  have hp : p ≠ [] := by
    rintro rfl
    exact hne rfl
  refine ⟨D ++ [name], hput, by simp, locate_of_followFrom hp hnul hshort ?_⟩
  rw [steps_eq_parts hslash, hgrown.cwd]
  generalize (if Path.isAbsolute p then [] else h.cwd) = start at *
  -- All names but the last lead to the directory in which the new one stands.
  rcases List.eq_nil_or_concat (Path.parts p) with hnil | ⟨front, last, hparts⟩
  · exact absurd hnil hne
  · rw [List.concat_eq_append] at hparts
    rw [hparts] at hfollow ⊢
    obtain ⟨E, node, hfound⟩ := exists_of_followFrom_append (List.cons_ne_nil _ _) hfollow
    obtain ⟨left, hleft, -⟩ := followFrom_append false (List.cons_ne_nil last []) hfound
    rw [hleft] at hfollow
    obtain ⟨rfl, rfl⟩ := eq_of_followFrom_singleton hfollow
    have hsome : (h.tree.get? start).isSome := by simp [hthere]
    have hnode := get?_of_followFrom ht hsome hfound
    rw [hdir] at hnode
    obtain ⟨hfound', -⟩ := followFrom_of_grows ht hsome hgrown.tree hfound
    have hmade : h'.tree.get? (D ++ [name]) = some .directory := by
      rw [hput]
      show (h.tree.put (D ++ [name]) .directory).get? _ = _
      rw [Tree.get?_put (by simp), if_pos rfl]
    exact followFrom_child true (hgrown.proper ht) hup hfound' hmade

/-- To each directory that is made one of the paths leads. -/
theorem Making.led (hm : Making ps h h') (ht : h.tree.Proper)
    (hps : ∀ p ∈ ps, Path.endsInSlash p = false ∧ Path.parts p ≠ [])
    (hnone : h.tree.get? q = none) (hsome : (h'.tree.get? q).isSome) :
    ∃ p ∈ ps, h'.find p = .ok (.there q .directory) := by
  induction hm with
  | start =>
    rw [hnone] at hsome
    cases hsome
  | @make h₁ h₂ p hbefore hp hmake ih =>
    have ht₁ := hbefore.grown.proper ht
    by_cases hq : h₁.tree.get? q = none
    · -- It is the directory that is made now, as nothing else is new.
      obtain ⟨hslash, hne⟩ := hps p hp
      obtain ⟨made, hput, hmade, hfound⟩ := find_of_makeDirectory ht₁ hslash hne hmake
      have hget : h₂.tree.get? q = if q = made then some .directory else h₁.tree.get? q := by
        rw [hput]
        exact Tree.get?_put hmade q
      rw [hget, hq] at hsome
      split at hsome
      · rename_i heq
        rw [heq]
        exact ⟨p, hp, hfound⟩
      · cases hsome
    · obtain ⟨p', hp', hfound⟩ := ih (Option.isSome_iff_ne_none.mpr hq)
      obtain ⟨hslash, hne⟩ := hps p' hp'
      exact ⟨p', hp', find_of_grown ht₁ (grown_of_makeDirectory hmake) hslash hne hfound⟩

/-- **To each directory that is made for a path a part of the path leads**, whether or not all can
be made. -/
theorem led_of_ensureChain (ht : h.tree.Proper) (hnone : h.tree.get? q = none)
    (hsome : ((h.ensureChain (Path.ancestors a)).2.tree.get? q).isSome) :
    ∃ p ∈ Path.ancestors a,
      (h.ensureChain (Path.ancestors a)).2.find p = .ok (.there q .directory) := by
  refine (making_ensureChain h (Path.ancestors a)).led ht (fun p hp => ?_) hnone hsome
  obtain ⟨hslash, hne, -⟩ := Path.parts_of_mem_ancestors hp
  exact ⟨hslash, hne⟩

/-- **Directories that are made for a path are on its way**, whether or not all can be made. -/
theorem mem_way_of_ensureChain (ht : h.tree.Proper)
    (hstart : start = if Path.isAbsolute a then [] else h.cwd)
    (hnone : h.tree.get? q = none)
    (hsome : ((h.ensureChain (Path.ancestors a)).2.tree.get? q).isSome) :
    q ∈ lookedFrom (h.ensureChain (Path.ancestors a)).2.tree true linkLimit start
      (Path.parts a) := by
  obtain ⟨p, hp, hfound⟩ := led_of_ensureChain ht hnone hsome
  obtain ⟨hslash, -, hprefix⟩ := Path.parts_of_mem_ancestors hp
  obtain ⟨-, -, hfollow⟩ := followFrom_of_locate hfound
  rw [steps_eq_parts hslash, Path.isAbsolute_of_mem_ancestors hp,
    (grown_ensureChain h (Path.ancestors a)).cwd, ← hstart] at hfollow
  exact lookedFrom_subset_of_prefix hprefix hfollow q (mem_lookedFrom_of_followFrom hfollow)

/-- The way of a path is part of the way of its absolute form. -/
theorem lookedFrom_join_cwdPath (ht : h.tree.Proper) (hin : h.InPlace) :
    ∀ q ∈ lookedFrom h.tree true hops (if Path.isAbsolute p then [] else h.cwd) (Path.parts p),
      q ∈ lookedFrom h.tree true hops [] (Path.parts (Path.join h.cwdPath p)) := by
  intro q hq
  cases hp : Path.isAbsolute p with
  | true =>
    rw [hp, if_pos rfl] at hq
    rwa [Path.join, if_pos hp]
  | false =>
    rw [hp, if_neg Bool.false_ne_true] at hq
    have hparts : Path.parts (Path.join h.cwdPath p) = h.cwd ++ Path.parts p :=
      Path.parts_join_ofPlace (fun name hname => (hin.names name hname).1) hp
    have hdown : descend h.tree true [] h.cwd = .reached (.there h.cwd .directory) :=
      descend_of_directory ht (fun name hname => (hin.names name hname).2) hin.there
    rw [hparts]
    by_cases hnil : Path.parts p = []
    · rw [hnil] at hq ⊢
      have hcwd : q = h.cwd := by
        rcases mem_lookedFrom.mp hq with hq | ⟨_, _, _, _, hlink, -⟩
        · exact List.mem_singleton.mp hq
        · cases hlink
      rw [hcwd, List.append_nil]
      exact mem_lookedFrom.mpr (.inl (mem_looked_of_descend hdown))
    · exact ((followFrom_append_of_descend true hnil hdown).2 q).mpr (.inr hq)

/-! ## Names that stay inside -/

/-- No links are at a place or below it. -/
def Unlinked (t : Tree) (base : Place) : Prop :=
  ∀ q, base <+: q → ∀ target, t.get? q ≠ some (.link target)

/-- Where the way down inside a directory may end, if its names lead to `r` there. -/
inductive EndsAt (base r : Place) : Leg → Prop
  | failed (e : HostError) : EndsAt base r (.failed e)
  | there (n : Node) : EndsAt base r (.reached (.there (base ++ r) n))
  | missing (D : Place) (name : Bytes) : D ++ [name] = base ++ r →
      EndsAt base r (.reached (.missing D name))

/-- A way down that ends where its names say and looks at nothing outside the directory. -/
structure StaysInside (t : Tree) (base r place : Place) (names : List Bytes) : Prop where
  ends : EndsAt base r (descend t true place names)
  looked : ∀ q ∈ looked t place names, base <+: q

namespace StaysInside

/-- A name that is passed inside the directory, and what comes after it. -/
theorem goes {next : Place} (hp : pace t (base ++ place) name = .goes (base ++ next))
    (hrest : StaysInside t base r (base ++ next) names) :
    StaysInside t base r (base ++ place) (name :: names) := by
  constructor
  case ends =>
    rw [descend_cons, hp]
    exact hrest.ends
  case looked =>
    intro q hq
    rcases mem_looked_cons.mp hq with rfl | ⟨-, rfl⟩ | ⟨p, hp', hq⟩
    · exact List.prefix_append _ _
    · exact (List.prefix_append _ _).trans (List.prefix_append _ _)
    · rw [hp] at hp'
      cases hp'
      exact hrest.looked q hq

/-- A name where the way ends. -/
theorem stops (hnot : ∀ p, pace t (base ++ place) name ≠ .goes p)
    (hends : EndsAt base r (descend t true (base ++ place) (name :: names))) :
    StaysInside t base r (base ++ place) (name :: names) := by
  refine ⟨hends, ?_⟩
  intro q hq
  rcases mem_looked_cons.mp hq with rfl | ⟨-, rfl⟩ | ⟨p, hp, -⟩
  · exact List.prefix_append _ _
  · exact (List.prefix_append _ _).trans (List.prefix_append _ _)
  · exact absurd hp (hnot p)

theorem fails {e : HostError} (he : pace t (base ++ place) name = .failed e) :
    StaysInside t base r (base ++ place) (name :: names) := by
  apply stops
  · intro p
    simp [he]
  · rw [descend_cons, he]
    exact .failed e

end StaysInside

/-- Inside a directory without links the way down goes where the names say. -/
theorem staysInside_of_inner? (hunlinked : Unlinked t base)
    (hinner : Path.inner? place names = some r) :
    StaysInside t base r (base ++ place) names := by
  induction names generalizing place with
  | nil =>
    obtain rfl := Option.some.inj hinner
    refine ⟨.there _, ?_⟩
    intro q hq
    rw [List.mem_singleton.mp hq]
    exact List.prefix_append _ _
  | cons name names ih =>
    rw [Path.inner?] at hinner
    by_cases hdir : t.get? (base ++ place) ≠ some .directory
    · exact .fails (if_pos hdir)
    by_cases hhere : name = Path.here
    · rw [if_pos hhere] at hinner
      exact .goes (by rw [pace, if_neg hdir, if_pos hhere]) (ih hinner)
    rw [if_neg hhere] at hinner
    by_cases habove : name = Path.above
    · rw [if_pos habove] at hinner
      split at hinner
      · cases hinner
      · rename_i hne
        -- The names have led below the directory, so that the place above is still in it.
        refine .goes ?_ (ih hinner)
        rw [pace, if_neg hdir, if_neg hhere, if_pos habove, List.dropLast_append_of_ne_nil hne]
    rw [if_neg habove] at hinner
    by_cases hlong : nameLimit < name.length
    · exact .fails (by rw [pace, if_neg hdir, if_neg hhere, if_neg habove, if_pos hlong])
    have hup := isLookedUp_of_ne hhere habove hlong
    have hdir' : t.get? (base ++ place) = some .directory := by simpa using hdir
    cases hnode : t.get? (base ++ place ++ [name]) with
    | none =>
      have hpace := pace_of_none hdir' hup hnode
      apply StaysInside.stops
      · intro p
        simp [hpace]
      · rw [descend_cons, hpace]
        cases names with
        | nil =>
          obtain rfl := Option.some.inj hinner
          exact .missing _ name (List.append_assoc _ _ _)
        | cons _ _ => exact .failed .notFound
    | some n =>
      have hlink : ∀ target, n ≠ .link target := by
        rintro target rfl
        exact hunlinked _ ((List.prefix_append _ _).trans (List.prefix_append _ _)) target hnode
      refine .goes ?_ (ih hinner)
      rw [← List.append_assoc]
      exact pace_of_node hdir' hup hnode hlink

variable {reached : Reached}

/-- Where a path goes on inside a directory without links, it leads to where its names say, if it
leads anywhere. -/
theorem arrives_inside (hunlinked : Unlinked t base) (hinner : Path.inner? [] names = some r)
    (hfollow : followFrom t true hops base names = .ok reached) :
    (∃ n, reached = .there (base ++ r) n) ∨
      ∃ D name, reached = .missing D name ∧ D ++ [name] = base ++ r := by
  have hends := (staysInside_of_inner? hunlinked hinner).ends
  rw [List.append_nil] at hends
  rw [followFrom] at hfollow
  generalize descend t true base names = leg at hfollow hends
  cases hends with
  | failed e => cases hfollow
  | there n =>
    cases hfollow
    exact .inl ⟨n, rfl⟩
  | missing D name heq =>
    cases hfollow
    exact .inr ⟨D, name, rfl, heq⟩

/-- A path that leads through a directory without links and does not go back from there ends there
or below. -/
theorem prefix_of_followFrom {rest : List Bytes} {m : Node} (hunlinked : Unlinked t base)
    (habove : Path.above ∉ rest)
    (hbase : followFrom t true hops place names = .ok (.there base m))
    (hfollow : followFrom t true hops place (names ++ rest) = .ok (.there D n)) : base <+: D := by
  by_cases hnil : rest = []
  · rw [hnil, List.append_nil, hbase] at hfollow
    cases hfollow
    exact List.prefix_rfl
  · obtain ⟨left, hleft, -⟩ := followFrom_append true hnil hbase
    rw [hleft] at hfollow
    obtain ⟨_, h⟩ | ⟨_, _, h, -⟩ :=
      arrives_inside hunlinked (Path.inner?_of_not_mem_above [] habove) hfollow
    · cases h
      exact List.prefix_append _ _
    · cases h

/-- A part of a path that does not go back leads to a directory above all that the path leads to,
if there are no links in that directory. -/
theorem prefix_of_mem_ancestors {m : Node} (hp : p ∈ Path.ancestors a)
    (habove : Path.above ∉ Path.parts a) (hunlinked : Unlinked h.tree q)
    (hq : h.find p = .ok (.there q m)) (hD : h.find a = .ok (.there D n)) : q <+: D := by
  obtain ⟨hslash, -, rest, hparts⟩ := Path.parts_of_mem_ancestors hp
  obtain ⟨-, -, hq⟩ := followFrom_of_locate hq
  obtain ⟨-, -, hD⟩ := followFrom_of_locate hD
  rw [steps_eq_parts hslash, Path.isAbsolute_of_mem_ancestors hp] at hq
  rw [steps, ← hparts, List.append_assoc] at hD
  refine prefix_of_followFrom hunlinked ?_ hq hD
  rw [← hparts, List.mem_append, not_or] at habove
  rw [List.mem_append, not_or]
  refine ⟨habove.2, ?_⟩
  split <;> decide

/-- The path of a directory without links, and names that stay inside it. -/
structure Enters (t : Tree) (d : Bytes) (base : Place) (a : Bytes) (r : Place) : Prop where
  absolute : Path.isAbsolute d = true
  noSlash : Path.endsInSlash d = false
  found : followFrom t true linkLimit [] (Path.parts d) = .ok (.there base .directory)
  unlinked : Unlinked t base
  relative : Path.isAbsolute a = false
  inner : Path.inner? [] (Path.parts a) = some r

theorem Enters.parts_join (he : Enters t d base a r) :
    Path.parts (Path.join d a) = Path.parts d ++ Path.parts a :=
  Path.parts_join_relative (Path.ne_nil_of_isAbsolute he.absolute) he.noSlash he.relative

/-- What is looked at on the way of a path inside a directory is on the way of the directory or in
it. -/
theorem Enters.lookedFrom (he : Enters t d base a r) :
    ∀ q ∈ lookedFrom t true linkLimit [] (Path.parts (Path.join d a)),
      q ∈ lookedFrom t true linkLimit [] (Path.parts d) ∨ base <+: q := by
  have hinside := staysInside_of_inner? he.unlinked he.inner
  rw [List.append_nil] at hinside
  intro q hq
  rw [he.parts_join] at hq
  by_cases hnil : Path.parts a = []
  · rw [hnil, List.append_nil] at hq
    exact .inl hq
  · obtain ⟨left, -, hlooked⟩ := followFrom_append true hnil he.found
    rcases (hlooked q).mp hq with hq | hq
    · exact .inl hq
    · refine .inr ?_
      rcases mem_lookedFrom.mp hq with hq | ⟨_, _, _, _, hlink, -⟩
      · exact hinside.looked q hq
      · have hends := hinside.ends
        rw [hlink] at hends
        cases hends

/-- A path inside a directory leads where its names say, if it leads anywhere. -/
theorem Enters.find (he : Enters h.tree d base a r)
    (hr : h.find (Path.join d a) = .ok reached) :
    (∃ n, reached = .there (base ++ r) n) ∨
      ∃ D name, reached = .missing D name ∧ D ++ [name] = base ++ r := by
  obtain ⟨-, -, hfollow⟩ := followFrom_of_locate hr
  rw [Path.isAbsolute_join he.absolute, if_pos rfl, steps, he.parts_join, List.append_assoc]
    at hfollow
  have hinner : Path.inner? [] (Path.parts a ++
      if Path.endsInSlash (Path.join d a) then [Path.here] else []) = some r := by
    split
    · rw [Path.inner?_append_here, he.inner]
    · rw [List.append_nil, he.inner]
  generalize Path.parts a ++ (if Path.endsInSlash (Path.join d a) then [Path.here] else []) = rest
    at hfollow hinner
  by_cases hnil : rest = []
  · rw [hnil, List.append_nil, he.found] at hfollow
    rw [hnil] at hinner
    cases hfollow
    cases hinner
    exact .inl ⟨.directory, by rw [List.append_nil]⟩
  · obtain ⟨left, hleft, -⟩ := followFrom_append true hnil he.found
    rw [hleft] at hfollow
    exact arrives_inside he.unlinked hinner hfollow

/-- **Directories that are made inside a directory** are new places in it. -/
theorem inside_of_ensureChain (ht : h.tree.Proper) (he : Enters h.tree d base a r)
    (hchanged : (h.ensureChain (Path.ancestors (Path.join d a))).2.tree.get? q ≠ h.tree.get? q) :
    base <+: q ∧ h.tree.get? q = none ∧
      (h.ensureChain (Path.ancestors (Path.join d a))).2.tree.get? q = some .directory := by
  have hgrown := grown_ensureChain h (Path.ancestors (Path.join d a))
  have hroot : (h.tree.get? []).isSome := rfl
  have hfurnished : Furnished (Path.parts (Path.join d a)) h
      (h.ensureChain (Path.ancestors (Path.join d a))).2 := by
    refine furnished_ensureChain h fun p hp => ?_
    obtain ⟨hslash, -, hparts⟩ := Path.parts_of_mem_ancestors hp
    exact ⟨hslash, fun name hname => hparts.subset hname⟩
  have hway := fun q => mem_way_of_ensureChain (q := q) (a := Path.join d a) ht
    (by rw [Path.isAbsolute_join he.absolute, if_pos rfl])
  generalize (h.ensureChain (Path.ancestors (Path.join d a))).2 = h' at *
  have hnone : h.tree.get? q = none := by
    by_contra hsome
    exact hchanged (hgrown.tree.get? (Option.isSome_iff_ne_none.mpr hsome))
  obtain ⟨m, hm⟩ := Option.ne_none_iff_exists'.mp (hnone ▸ hchanged)
  obtain ⟨rfl, -⟩ := hfurnished q m hnone hm
  refine ⟨?_, hnone, hm⟩
  -- The directory is as free of links as before, and its own way is the same.
  have hunlinked : Unlinked h'.tree base := by
    intro q' hq' target hlink
    by_cases hq : h.tree.get? q' = none
    · cases (hfurnished q' _ hq hlink).1
    · rw [hgrown.tree.get? (Option.isSome_iff_ne_none.mpr hq)] at hlink
      exact he.unlinked q' hq' target hlink
  obtain ⟨hfound, hsame⟩ := followFrom_of_grows ht hroot hgrown.tree he.found
  have he' : Enters h'.tree d base a r := { he with found := hfound, unlinked := hunlinked }
  rcases he'.lookedFrom q (hway q hnone (by rw [hm]; rfl)) with hq | hq
  · rw [hsame] at hq
    have := isSome_of_followFrom ht hroot he.found q hq
    rw [hnone] at this
    cases this
  · exact hq

/-- What a file that is written is put over: nothing, or another file. -/
theorem put_of_write_ok {contents : Bytes} (hw : h.write p contents = .ok h') :
    ∃ q n, h' = h.put q n ∧ n ≠ .directory ∧ (∀ target, n ≠ .link target) ∧
      ((∃ old, h.find p = .ok (.there q old) ∧ old ≠ .directory) ∨
        ∃ D name, h.find p = .ok (.missing D name) ∧ D ++ [name] = q) := by
  have hw₀ := hw
  obtain ⟨reached, hr, hw⟩ := bind_eq_ok_iff.mp hw
  cases reached with
  | missing D name =>
    exact ⟨_, _, put_of_write hr hw₀, by simp, by simp, .inr ⟨D, name, hr, rfl⟩⟩
  | there place old =>
    cases old
    case file | null =>
      obtain ⟨⟨q, n⟩, hplace, hw⟩ := bind_eq_ok_iff.mp hw
      cases hplace
      dsimp only at hw
      split at hw
      · cases hw
      · obtain rfl := Except.ok.inj hw
        exact ⟨_, _, rfl, by simp, by simp, .inl ⟨_, hr, by simp⟩⟩
    all_goals
      obtain ⟨⟨q, n⟩, hplace, -⟩ := bind_eq_ok_iff.mp hw
      cases hplace

/-- **A file that is written inside a directory** is put at the place that its names say, below
the directory, and the tree stays proper. -/
theorem put_of_write_inside {contents : Bytes} (ht : h.tree.Proper)
    (he : Enters h.tree d base a r) (hw : h.write (Path.join d a) contents = .ok h') :
    ∃ n, h' = h.put (base ++ r) n ∧ r ≠ [] ∧ (∀ target, n ≠ .link target) ∧
      h'.tree.Proper := by
  have hroot : (h.tree.get? []).isSome := rfl
  have hbase := get?_of_followFrom ht hroot he.found
  obtain ⟨q, n, rfl, hleaf, hlink, hwhere⟩ := put_of_write_ok hw
  rcases hwhere with ⟨old, hfind, hold⟩ | ⟨D, name, hfind, hq⟩
  · obtain ⟨m, hm⟩ | ⟨_, _, hm, -⟩ := he.find hfind
    · cases hm
      obtain ⟨-, -, hfollow⟩ := followFrom_of_locate hfind
      rw [Path.isAbsolute_join he.absolute, if_pos rfl] at hfollow
      have hget := get?_of_followFrom ht hroot hfollow
      have hne : r ≠ [] := by
        rintro rfl
        rw [List.append_nil, hbase] at hget
        exact hold (Option.some.inj hget).symm
      exact ⟨n, rfl, hne, hlink, ht.replace (by simp [hne]) hget hold⟩
    · cases hm
  · obtain ⟨_, hm⟩ | ⟨_, _, hm, hplace⟩ := he.find hfind
    · cases hm
    · cases hm
      obtain ⟨hdir, -, hnew⟩ := missing_of_followFrom (followFrom_of_locate hfind).2.2
      rw [← hq, hplace]
      have hne : r ≠ [] := by
        rintro rfl
        rw [hplace, List.append_nil, hbase] at hnew
        cases hnew
      refine ⟨n, rfl, hne, hlink, ?_⟩
      rw [← hplace]
      exact ht.put hdir hnew

end Host

end StageLens
