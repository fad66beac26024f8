import StageLens.Proofs.Host.Listing
import StageLens.Workspace

/-!
# Workspaces that stand

A workspace **stands** in a tree when its path leads to its place and its source is there. Nothing
that others do takes it down:

* making directories and other workspaces (`Stands.grow`),
* removing another workspace (`Stands.remove`), since no way to a workspace leads through another,
* whatever else leaves the places on the way to its source alone (`Stands.congr`).

A workspace that is made stands at a place where nothing was, and nothing that was there is lost
(`create_spec`).
-/

namespace StageLens.Workspace

open StageLens.Host (followFrom lookedFrom linkLimit isLookedUp)
open StageLens.Tree (Reached)

/-! ## Names -/

/-- The name of the source in its directory. -/
abbrev sourceName : Bytes := Text.bytes Stage.sourceName

theorem exists_digit_of_mem_toDigits {n : Nat} {c : Char} (hc : c ∈ Nat.toDigits 16 n) :
    ∃ k < 16, c = Nat.digitChar k := by
  induction n using Nat.strongRecOn with
  | _ n ih =>
    rw [Nat.toDigits_eq_if (by decide)] at hc
    split at hc
    · rename_i hlt
      exact ⟨n, hlt, List.mem_singleton.mp hc⟩
    · rw [List.mem_append, List.mem_singleton] at hc
      rcases hc with hc | hc
      · exact ih (n / 16) (by omega) hc
      · exact ⟨n % 16, by omega, hc⟩

theorem isName_nameOf (n : Nat) : Path.IsName (nameOf n) := by
  have hdigit : ∀ k : Fin 16, Path.slash ∉ String.utf8EncodeChar (Nat.digitChar k) := by
    decide +kernel
  have hprefix : Path.slash ∉ namePrefix ∧ namePrefix ≠ [] := by decide +kernel
  constructor
  · intro h
    exact hprefix.2 (List.append_eq_nil_iff.mp h).1
  · intro h
    unfold nameOf at h
    rcases List.mem_append.mp h with h | h
    · exact hprefix.1 h
    · obtain ⟨c, hc, hslash⟩ := List.mem_flatMap.mp h
      rcases List.mem_append.mp hc with hc | hc
      · rw [(List.mem_replicate.mp hc).2] at hslash
        exact hdigit 0 hslash
      · obtain ⟨k, hk, rfl⟩ := exists_digit_of_mem_toDigits hc
        exact hdigit ⟨k, hk⟩ hslash

theorem isName_sourceName : Path.IsName sourceName :=
  ⟨by decide +kernel, by decide +kernel⟩

theorem isLookedUp_sourceName : isLookedUp sourceName = true := by decide +kernel

/-! ## Standing -/

/-- A workspace under a directory: the directory's path leads to `D` without passing through the
workspace, and the workspace is there with its source. -/
structure Stands (t : Tree) (dir : Bytes) (D : Place) (w : Workspace) (source : String) : Prop where
  named : ∃ n, w.path = Path.join dir (nameOf n) ∧ w.place = D ++ [nameOf n] ∧
    isLookedUp (nameOf n) = true
  found : ∃ node, followFrom t true linkLimit [] (Path.parts dir) = .ok (.there D node)
  apart : ∀ q ∈ lookedFrom t true linkLimit [] (Path.parts dir), ¬ w.place <+: q
  made : t.get? w.place = some .directory
  source : t.get? (w.place ++ [sourceName]) = some (.file (Text.bytes source) false)
  noNul : w.sourcePath.contains 0 = false
  short : w.sourcePath.length ≤ Host.pathLimit

variable {t t' : Tree} {h h' h'' : Host} {dir root : Bytes} {D : Place} {w w' : Workspace}
variable {source source' : String} {n : Nat}

theorem Stands.place_ne_nil (hw : Stands t dir D w source) : w.place ≠ [] := by
  obtain ⟨n, -, hplace, -⟩ := hw.named
  rw [hplace]
  simp

/-- The way to a source goes down from the directory of its workspace. -/
theorem steps_sourcePath {name : Bytes} (hd : Path.isAbsolute dir = true) (hn : Path.IsName name)
    (hpath : w.path = Path.join dir name) :
    Host.steps w.sourcePath = Path.parts dir ++ [name, sourceName] ∧
      Path.isAbsolute w.sourcePath = true := by
  have hw : Path.isAbsolute w.path = true := by
    rw [hpath]
    exact Path.isAbsolute_join hd name
  constructor
  · unfold sourcePath
    rw [Path.steps_join (Path.ne_nil_of_isAbsolute hw) isName_sourceName, hpath,
      Path.parts_join (Path.ne_nil_of_isAbsolute hd) hn, List.append_assoc]
    rfl
  · exact Path.isAbsolute_join hw _

/-- The source of a workspace that stands is what is read there. -/
theorem Stands.read (hd : Path.isAbsolute dir = true) (ht : h.tree.Proper)
    (hw : Stands h.tree dir D w source) : h.read w.sourcePath = .ok (Text.bytes source) := by
  obtain ⟨n, hpath, hplace, hup⟩ := hw.named
  obtain ⟨node, hfound⟩ := hw.found
  obtain ⟨hsteps, habs⟩ := steps_sourcePath hd (isName_nameOf n) hpath
  obtain ⟨left, hfollow, -⟩ := Host.followFrom_append true
    (List.cons_ne_nil (nameOf n) [sourceName]) hfound
  have hmade := hw.made
  have hsource := hw.source
  rw [hplace] at hmade hsource
  have hdown : followFrom h.tree true left D [nameOf n, sourceName] =
      .ok (.there (D ++ [nameOf n] ++ [sourceName]) (.file (Text.bytes source) false)) := by
    rw [Host.followFrom, Host.descend_cons,
      Host.pace_of_node (ht _ _ _ hmade) hup hmade (by simp)]
    dsimp only
    rw [Host.descend_cons, Host.pace_of_node hmade isLookedUp_sourceName hsource (by simp)]
    dsimp only
    rw [Host.descend, hsource]
    rfl
  have hfind : h.find w.sourcePath =
      .ok (.there (D ++ [nameOf n] ++ [sourceName]) (.file (Text.bytes source) false)) := by
    refine Host.locate_of_followFrom (Path.ne_nil_of_isAbsolute habs) hw.noNul hw.short ?_
    rw [habs, if_pos rfl, hsteps, hfollow, hdown]
  unfold Host.read
  rw [hfind]
  rfl

/-- Where the path of the source is one that the system takes, so is that of the workspace. -/
theorem locatable_of_sourcePath (hnul : w.sourcePath.contains 0 = false)
    (hshort : w.sourcePath.length ≤ Host.pathLimit) :
    w.path.contains 0 = false ∧ w.path.length ≤ Host.pathLimit := by
  obtain ⟨rest, hrest⟩ := Path.prefix_join w.path isName_sourceName
  unfold sourcePath at hnul hshort
  rw [← hrest] at hnul hshort
  rw [List.contains_append, Bool.or_eq_false_iff] at hnul
  rw [List.length_append] at hshort
  exact ⟨hnul.1, by omega⟩

/-- The path of a workspace that stands is one that the system takes. -/
theorem Stands.path_locatable (hw : Stands t dir D w source) :
    w.path.contains 0 = false ∧ w.path.length ≤ Host.pathLimit :=
  locatable_of_sourcePath hw.noNul hw.short

/-- The path of a workspace leads to its place, whether or not a link at its end is followed. -/
theorem locate_path (follow : Bool) (hd : Path.isAbsolute dir = true) (ht : h.tree.Proper)
    {node : Node} (hpath : w.path = Path.join dir (nameOf n)) (hplace : w.place = D ++ [nameOf n])
    (hup : isLookedUp (nameOf n) = true)
    (hfound : followFrom h.tree true linkLimit [] (Path.parts dir) = .ok (.there D node))
    (hmade : h.tree.get? w.place = some .directory)
    (hok : w.path.contains 0 = false ∧ w.path.length ≤ Host.pathLimit) :
    h.locate follow w.path = .ok (.there w.place .directory) := by
  have habs : Path.isAbsolute w.path = true := by
    rw [hpath]
    exact Path.isAbsolute_join hd _
  refine Host.locate_of_followFrom (Path.ne_nil_of_isAbsolute habs) hok.1 hok.2 ?_
  rw [habs, if_pos rfl, hpath, Path.steps_join (Path.ne_nil_of_isAbsolute hd) (isName_nameOf n),
    hplace]
  rw [hplace] at hmade
  exact Host.followFrom_child follow ht hup hfound hmade

/-- A workspace that is removed changes the tree alone. -/
theorem dispose_eq_with_tree (w : Workspace) (h : Host) :
    w.dispose h = { h with tree := (w.dispose h).tree } := by
  unfold dispose Host.removeAll
  cases h.locate false w.path with
  | error e => rfl
  | ok r => rcases r with ⟨place, ⟨⟩⟩ | _ <;> rfl

@[simp] theorem named_dispose (w : Workspace) (h : Host) : (w.dispose h).named = h.named := by
  rw [dispose_eq_with_tree]

@[simp] theorem cwd_dispose (w : Workspace) (h : Host) : (w.dispose h).cwd = h.cwd := by
  rw [dispose_eq_with_tree]

/-- A workspace whose path leads to its place is removed from there. -/
theorem dispose_of_locate (hl : h.locate false w.path = .ok (.there w.place .directory)) :
    w.dispose h = h.remove w.place := by
  unfold dispose Host.removeAll
  rw [hl]
  rfl

/-- The path of a workspace that stands leads to its place. -/
theorem Stands.locate (follow : Bool) (hd : Path.isAbsolute dir = true) (ht : h.tree.Proper)
    (hw : Stands h.tree dir D w source) :
    h.locate follow w.path = .ok (.there w.place .directory) := by
  obtain ⟨n, hpath, hplace, hup⟩ := hw.named
  obtain ⟨node, hfound⟩ := hw.found
  exact locate_path follow hd ht hpath hplace hup hfound hw.made hw.path_locatable

/-- A workspace that stands is a directory. -/
theorem Stands.isDirectory (hd : Path.isAbsolute dir = true) (ht : h.tree.Proper)
    (hw : Stands h.tree dir D w source) : h.isDirectory w.path = true := by
  unfold Host.isDirectory Host.node? Host.find
  rw [hw.locate true hd ht]
  rfl

/-- A workspace that stands is removed from its place. -/
theorem Stands.dispose_eq (hd : Path.isAbsolute dir = true) (ht : h.tree.Proper)
    (hw : Stands h.tree dir D w source) : w.dispose h = h.remove w.place :=
  dispose_of_locate (hw.locate false hd ht)

/-- A workspace that stands goes with all that is at its place and below it. -/
theorem Stands.get?_dispose (hd : Path.isAbsolute dir = true) (ht : h.tree.Proper)
    (hw : Stands h.tree dir D w source) (q : Place) :
    (w.dispose h).tree.get? q = if w.place <+: q then none else h.tree.get? q := by
  rw [hw.dispose_eq hd ht]
  exact Tree.get?_remove hw.place_ne_nil q

/-- A workspace stands on where nothing changes on the way to it. -/
theorem Stands.congr (hw : Stands t dir D w source)
    (hway : ∀ q ∈ lookedFrom t true linkLimit [] (Path.parts dir), t'.get? q = t.get? q)
    (hplace : t'.get? w.place = t.get? w.place)
    (hsource : t'.get? (w.place ++ [sourceName]) = t.get? (w.place ++ [sourceName])) :
    Stands t' dir D w source := by
  obtain ⟨hfollow, hlooked⟩ := Host.followFrom_congr hway
  refine ⟨hw.named, ?_, ?_, ?_, ?_, hw.noNul, hw.short⟩
  · rw [hfollow]
    exact hw.found
  · rw [hlooked]
    exact hw.apart
  · rw [hplace]
    exact hw.made
  · rw [hsource]
    exact hw.source

/-- All places on the way to the directory of a workspace are there. -/
theorem Stands.isSome (ht : t.Proper) (hw : Stands t dir D w source) :
    ∀ q ∈ lookedFrom t true linkLimit [] (Path.parts dir), (t.get? q).isSome := by
  obtain ⟨node, hfound⟩ := hw.found
  exact Host.isSome_of_followFrom ht rfl hfound

theorem Stands.grow (hw : Stands t dir D w source) (ht : t.Proper) (hg : t.Grows t') :
    Stands t' dir D w source := by
  refine hw.congr (fun q hq => hg.get? (hw.isSome ht q hq)) (hg.get? ?_) (hg.get? ?_)
  · rw [hw.made]
    rfl
  · rw [hw.source]
    rfl

theorem Stands.eq_directory {D' : Place} (hw : Stands t dir D w source)
    (hw' : Stands t dir D' w' source') : D' = D := by
  obtain ⟨node, hfound⟩ := hw.found
  obtain ⟨node', hfound'⟩ := hw'.found
  rw [hfound] at hfound'
  cases hfound'
  rfl

theorem Stands.remove {D' : Place} (hw : Stands t dir D w source)
    (hw' : Stands t dir D' w' source') (hne : w'.place ≠ w.place) :
    Stands (t.remove w'.place) dir D w source := by
  obtain rfl := hw.eq_directory hw'
  obtain ⟨n, -, hplace, -⟩ := hw.named
  obtain ⟨n', -, hplace', -⟩ := hw'.named
  have hapart : ¬ w'.place <+: w.place := by
    intro hp
    exact hne (hp.eq_of_length (by rw [hplace, hplace']; simp))
  refine hw.congr (fun q hq => ?_) ?_ ?_
  · rw [Tree.get?_remove hw'.place_ne_nil, if_neg (hw'.apart q hq)]
  · rw [Tree.get?_remove hw'.place_ne_nil, if_neg hapart]
  · rw [Tree.get?_remove hw'.place_ne_nil, if_neg ?_]
    rw [List.prefix_concat_iff, not_or]
    refine ⟨fun he => ?_, hapart⟩
    have hlen := congrArg List.length he
    rw [hplace, hplace'] at hlen
    simp at hlen

/-- The way to the source of a workspace passes the directory and looks the workspace up there. -/
theorem way_sourcePath (hd : Path.isAbsolute dir = true) {node : Node}
    (hpath : w.path = Path.join dir (nameOf n)) (hup : isLookedUp (nameOf n) = true)
    (hfound : followFrom h.tree true linkLimit [] (Path.parts dir) = .ok (.there D node)) :
    (∀ q ∈ lookedFrom h.tree true linkLimit [] (Path.parts dir), q ∈ h.way w.sourcePath) ∧
      D ++ [nameOf n] ∈ h.way w.sourcePath ∧
      ∀ q ∈ Host.looked h.tree D [nameOf n, sourceName], q ∈ h.way w.sourcePath := by
  obtain ⟨hsteps, habs⟩ := steps_sourcePath hd (isName_nameOf n) hpath
  obtain ⟨left, -, hlooked⟩ := Host.followFrom_append true
    (List.cons_ne_nil (nameOf n) [sourceName]) hfound
  unfold Host.way
  rw [habs, if_pos rfl, hsteps]
  have hdown : ∀ q, q ∈ Host.looked h.tree D [nameOf n, sourceName] →
      q ∈ lookedFrom h.tree true linkLimit [] (Path.parts dir ++ [nameOf n, sourceName]) :=
    fun q hq => (hlooked q).mpr (.inr (Host.mem_lookedFrom.mpr (.inl hq)))
  refine ⟨fun q hq => (hlooked q).mpr (.inl hq), ?_, hdown⟩
  exact hdown _ (Host.mem_looked_cons.mpr (.inr (.inl ⟨hup, rfl⟩)))

/-- The places on the way to a source, which are all that a workspace stands on. -/
theorem Stands.way (hd : Path.isAbsolute dir = true) (ht : h.tree.Proper)
    (hw : Stands h.tree dir D w source) :
    (∀ q ∈ lookedFrom h.tree true linkLimit [] (Path.parts dir), q ∈ h.way w.sourcePath) ∧
      w.place ∈ h.way w.sourcePath ∧ w.place ++ [sourceName] ∈ h.way w.sourcePath := by
  obtain ⟨n, hpath, hplace, hup⟩ := hw.named
  obtain ⟨node, hfound⟩ := hw.found
  obtain ⟨hway, hname, hdown⟩ := way_sourcePath hd hpath hup hfound
  have hmade := hw.made
  rw [hplace] at hmade ⊢
  refine ⟨hway, hname, hdown _ (Host.mem_looked_cons.mpr (.inr (.inr ⟨D ++ [nameOf n], ?_, ?_⟩)))⟩
  · exact Host.pace_of_node (ht _ _ _ hmade) hup hmade (by simp)
  · exact Host.mem_looked_cons.mpr (.inr (.inl ⟨isLookedUp_sourceName, rfl⟩))

/-! ## Where a workspace was -/

/-- The place of a workspace that was removed: its directory is there, and it is not. -/
structure Vacant (t : Tree) (dir : Bytes) (D p : Place) : Prop where
  named : ∃ n, p = D ++ [nameOf n] ∧ isLookedUp (nameOf n) = true
  found : ∃ node, followFrom t true linkLimit [] (Path.parts dir) = .ok (.there D node)
  apart : ∀ q ∈ lookedFrom t true linkLimit [] (Path.parts dir), ¬ p <+: q
  gone : t.get? p = none

/-- Where a workspace that stood is removed, its place is vacant. -/
theorem Stands.vacant (hw : Stands t dir D w source) : Vacant (t.remove w.place) dir D w.place := by
  obtain ⟨n, -, hplace, hup⟩ := hw.named
  have hway : ∀ q ∈ lookedFrom t true linkLimit [] (Path.parts dir),
      (t.remove w.place).get? q = t.get? q := fun q hq => by
    rw [Tree.get?_remove hw.place_ne_nil, if_neg (hw.apart q hq)]
  obtain ⟨hfollow, hlooked⟩ := Host.followFrom_congr hway
  refine ⟨⟨n, hplace, hup⟩, by rw [hfollow]; exact hw.found, by rw [hlooked]; exact hw.apart, ?_⟩
  rw [Tree.get?_remove hw.place_ne_nil, if_pos List.prefix_rfl]

variable {p : Place}

theorem Vacant.congr (hp : Vacant t dir D p)
    (hway : ∀ q ∈ lookedFrom t true linkLimit [] (Path.parts dir), t'.get? q = t.get? q)
    (hplace : t'.get? p = t.get? p) : Vacant t' dir D p := by
  obtain ⟨hfollow, hlooked⟩ := Host.followFrom_congr hway
  exact ⟨hp.named, by rw [hfollow]; exact hp.found, by rw [hlooked]; exact hp.apart,
    by rw [hplace, hp.gone]⟩

/-- A place stays vacant where another workspace is removed. -/
theorem Vacant.remove {D' : Place} (hp : Vacant t dir D p) (hw : Stands t dir D' w source) :
    Vacant (t.remove w.place) dir D p := by
  refine hp.congr (fun q hq => ?_) ?_
  · rw [Tree.get?_remove hw.place_ne_nil, if_neg (hw.apart q hq)]
  · rw [Tree.get?_remove hw.place_ne_nil, hp.gone, ite_self]

/-- Whoever leaves the way to the source of every workspace alone leaves vacant places alone. -/
theorem Vacant.way (hd : Path.isAbsolute dir = true) (hp : Vacant h.tree dir D p) :
    ∃ n, (∀ q ∈ lookedFrom h.tree true linkLimit [] (Path.parts dir),
        q ∈ h.way (Path.join (Path.join dir (nameOf n)) sourceName)) ∧
      p ∈ h.way (Path.join (Path.join dir (nameOf n)) sourceName) := by
  obtain ⟨n, rfl, hup⟩ := hp.named
  obtain ⟨node, hfound⟩ := hp.found
  obtain ⟨hway, hname, -⟩ := way_sourcePath (w := ⟨Path.join dir (nameOf n), []⟩) hd rfl hup hfound
  exact ⟨n, hway, hname⟩

/-! ## Making a workspace -/

/-- The directory in which workspaces are made. -/
def scratchDirectory (h : Host) (scratchRoot : Option Bytes) : Bytes :=
  Path.join h.cwdPath (scratchRoot.getD (temporaryRoot h))

theorem isAbsolute_scratchDirectory (h : Host) (scratchRoot : Option Bytes) :
    Path.isAbsolute (scratchDirectory h scratchRoot) = true :=
  Path.isAbsolute_join (Path.isAbsolute_ofPlace h.cwd) _

theorem scratchDirectory_congr {scratchRoot : Option Bytes} (hcwd : h'.cwd = h.cwd)
    (henvironment : h'.environment = h.environment) :
    scratchDirectory h' scratchRoot = scratchDirectory h scratchRoot := by
  unfold scratchDirectory temporaryRoot Host.cwdPath Host.valueOf?
  rw [hcwd, henvironment]

theorem prepareRoot_some (h : Host) (root : Bytes) :
    (prepareRoot h (some root)).2 = (h.ensureChain (Path.ancestors root)).2 := by
  unfold prepareRoot
  dsimp only
  split
  · rename_i hm
    rw [hm]
  · rename_i hm
    rw [hm]

theorem grown_prepareRoot (h : Host) (scratchRoot : Option Bytes) :
    h.Grown (prepareRoot h scratchRoot).2 := by
  cases scratchRoot with
  | none => exact .refl h
  | some root =>
    rw [prepareRoot_some]
    exact Host.grown_ensureChain h _

theorem grown_of_prepareRoot {scratchRoot : Option Bytes}
    (hp : prepareRoot h scratchRoot = (.ok root, h')) :
    h.Grown h' ∧ scratchDirectory h scratchRoot = Path.join h'.cwdPath root := by
  have hgrown := grown_prepareRoot h scratchRoot
  rw [hp] at hgrown
  refine ⟨hgrown, ?_⟩
  have hroot : root = scratchRoot.getD (temporaryRoot h) := by
    cases scratchRoot with
    | none =>
      cases hp
      rfl
    | some r =>
      unfold prepareRoot at hp
      dsimp only at hp
      split at hp
      · cases hp
        rfl
      · cases hp
  rw [hroot]
  unfold scratchDirectory Host.cwdPath
  rw [hgrown.cwd]

/-- A directory that is made fresh is named like a workspace and stands where nothing was. -/
theorem fresh_of_makeFresh (hd : Path.isAbsolute dir = true) (hdir : dir = Path.join h.cwdPath root)
    (hm : makeFresh h root = .ok (w, h')) :
    ∃ n D node, w.path = Path.join dir (nameOf n) ∧ w.place = D ++ [nameOf n] ∧
      followFrom h.tree true linkLimit [] (Path.parts dir) = .ok (.there D node) ∧
      h.tree.get? D = some .directory ∧ isLookedUp (nameOf n) = true ∧
      h.tree.get? w.place = none ∧ h' = { h with named := h'.named }.put w.place .directory := by
  unfold makeFresh at hm
  dsimp only at hm
  rw [← hdir] at hm
  generalize freshNumber ((h.entries dir).toOption.getD []) h.named = n at hm
  split at hm
  · cases hm
  · cases hm
  · rename_i above name hlocate
    split at hm
    · cases hm
    · rename_i h₂ hmake
      cases hm
      have hne := Path.ne_nil_of_isAbsolute hd
      have hn := isName_nameOf n
      -- The path is that of the directory and one name more, so the way to it passes through the
      -- directory: where it ends, one step below, nothing is yet.
      obtain ⟨-, -, hfollow⟩ := Host.followFrom_of_locate hlocate
      rw [Path.isAbsolute_join hd, if_pos rfl, Path.steps_join hne hn] at hfollow
      obtain ⟨D, node, hfound⟩ :=
        Host.exists_of_followFrom_append (List.cons_ne_nil _ _) hfollow
      obtain ⟨left, hleft, -⟩ :=
        Host.followFrom_append false (List.cons_ne_nil (nameOf n) []) hfound
      rw [hleft] at hfollow
      obtain ⟨rfl, rfl⟩ := Host.eq_of_followFrom_singleton hfollow
      obtain ⟨hdirectory, hup, hnew⟩ := Host.missing_of_followFrom hfollow
      obtain ⟨p', D', name', hlocate', hput, hp'⟩ := Host.put_of_makeDirectory hmake
      have hsame : Host.locate h false (Path.join dir (nameOf n)) = .ok (.missing D' name') := by
        rw [hp' (Path.not_endsInSlash_join hne hn)] at hlocate'
        exact hlocate'
      rw [hlocate] at hsame
      cases hsame
      exact ⟨n, above, node, rfl, rfl, hfound, hdirectory, hup, hnew, by rw [hput]; rfl⟩

/-- The directory of a workspace, before anything is written there. -/
theorem put_place_spec (hplace : w.place = D ++ [nameOf n]) (ht : h.tree.Proper)
    (hdirectory : h.tree.get? D = some .directory) (hnew : h.tree.get? w.place = none) :
    h.Grown (h.put w.place .directory) ∧
      (h.put w.place .directory).tree.get? w.place = some .directory ∧
      (h.put w.place .directory).tree.get? (w.place ++ [sourceName]) = none := by
  have hne : w.place ≠ [] := by
    rw [hplace]
    simp
  refine ⟨?_, ?_, ?_⟩
  · rw [hplace] at hnew ⊢
    exact Host.grown_put hdirectory hnew
  · show (h.tree.put w.place .directory).get? w.place = _
    rw [Tree.get?_put hne, if_pos rfl]
  · show (h.tree.put w.place .directory).get? (w.place ++ [sourceName]) = _
    rw [Tree.get?_put hne, if_neg (by simp)]
    exact ht.get?_eq_none hnew (List.prefix_append _ _)

/-- The path of a fresh directory leads to it, so that it is removed from there again. -/
theorem dispose_of_makeFresh (ht : h.tree.Proper) (hm : makeFresh h root = .ok (w, h')) :
    w.dispose h' = h'.remove w.place := by
  have hd : Path.isAbsolute (Path.join h.cwdPath root) = true :=
    Path.isAbsolute_join (Path.isAbsolute_ofPlace h.cwd) _
  obtain ⟨n, D, node, hpath, hplace, hfound, hdirectory, hup, hnew, hput⟩ :=
    fresh_of_makeFresh hd rfl hm
  have hok : w.path.contains 0 = false ∧ w.path.length ≤ Host.pathLimit := by
    unfold makeFresh at hm
    dsimp only at hm
    split at hm
    · cases hm
    · cases hm
    · rename_i hlocate
      obtain ⟨hnul, hshort, -⟩ := Host.followFrom_of_locate hlocate
      split at hm
      · cases hm
      · cases hm
        exact ⟨hnul, hshort⟩
  obtain ⟨hgrown, hmade, -⟩ :=
    put_place_spec (h := { h with named := h'.named }) hplace ht hdirectory hnew
  rw [← hput] at hgrown hmade
  have hsome := Host.isSome_of_followFrom ht rfl hfound
  obtain ⟨hfollow, -⟩ := Host.followFrom_congr fun q hq => hgrown.tree.get? (hsome q hq)
  rw [← hfollow] at hfound
  exact dispose_of_locate
    (locate_path false hd (hgrown.proper ht) hpath hplace hup hfound hmade hok)

/-- Before its source is written, the way to it ends in the directory of the workspace. -/
theorem followFrom_sourcePath (hd : Path.isAbsolute dir = true) {node : Node}
    (hpath : w.path = Path.join dir (nameOf n)) (hplace : w.place = D ++ [nameOf n])
    (hfound : followFrom h.tree true linkLimit [] (Path.parts dir) = .ok (.there D node))
    (hdirectory : h.tree.get? D = some .directory) (hup : isLookedUp (nameOf n) = true)
    (hmade : h.tree.get? w.place = some .directory)
    (hmissing : h.tree.get? (w.place ++ [sourceName]) = none) :
    followFrom h.tree true linkLimit [] (Host.steps w.sourcePath) =
      .ok (.missing w.place sourceName) := by
  obtain ⟨hsteps, -⟩ := steps_sourcePath hd (isName_nameOf n) hpath
  obtain ⟨left, hleft, -⟩ := Host.followFrom_append true
    (List.cons_ne_nil (nameOf n) [sourceName]) hfound
  rw [hplace] at hmade hmissing ⊢
  rw [hsteps, hleft, Host.followFrom, Host.descend_cons,
    Host.pace_of_node hdirectory hup hmade (by simp)]
  dsimp only
  rw [Host.descend_cons, Host.pace_of_none hmade isLookedUp_sourceName hmissing]
  rfl

theorem find_sourcePath_of_missing (hd : Path.isAbsolute dir = true) {node : Node}
    {r : Reached} (hpath : w.path = Path.join dir (nameOf n)) (hplace : w.place = D ++ [nameOf n])
    (hfound : followFrom h.tree true linkLimit [] (Path.parts dir) = .ok (.there D node))
    (hdirectory : h.tree.get? D = some .directory) (hup : isLookedUp (nameOf n) = true)
    (hmade : h.tree.get? w.place = some .directory)
    (hmissing : h.tree.get? (w.place ++ [sourceName]) = none)
    (hr : h.find w.sourcePath = .ok r) : r = .missing w.place sourceName := by
  obtain ⟨-, habs⟩ := steps_sourcePath hd (isName_nameOf n) hpath
  obtain ⟨-, -, hr⟩ := Host.followFrom_of_locate hr
  rw [habs, if_pos rfl,
    followFrom_sourcePath hd hpath hplace hfound hdirectory hup hmade hmissing] at hr
  exact (Except.ok.inj hr).symm

/-- The source that is written to a new workspace is put into its directory. -/
theorem put_of_write_source (hd : Path.isAbsolute dir = true) {node : Node}
    (hpath : w.path = Path.join dir (nameOf n)) (hplace : w.place = D ++ [nameOf n])
    (ht : h.tree.Proper)
    (hfound : followFrom h.tree true linkLimit [] (Path.parts dir) = .ok (.there D node))
    (hdirectory : h.tree.get? D = some .directory) (hup : isLookedUp (nameOf n) = true)
    (hnew : h.tree.get? w.place = none)
    (hw : (h.put w.place .directory).write w.sourcePath (Text.bytes source) = .ok h') :
    h' = (h.put w.place .directory).put (w.place ++ [sourceName])
        (.file (Text.bytes source) false) ∧
      w.sourcePath.contains 0 = false ∧ w.sourcePath.length ≤ Host.pathLimit := by
  obtain ⟨hgrown, hmade, hmissing⟩ := put_place_spec hplace ht hdirectory hnew
  -- All places on the way to the directory are there, so that it is the same way afterwards.
  have hsome := Host.isSome_of_followFrom ht rfl hfound
  obtain ⟨hfollow, -⟩ := Host.followFrom_congr fun q hq => hgrown.tree.get? (hsome q hq)
  rw [hfound] at hfollow
  obtain ⟨r, hfind, -⟩ := bind_eq_ok_iff.mp hw
  obtain rfl := find_sourcePath_of_missing hd hpath hplace hfollow (hgrown.tree _ _ hdirectory) hup
    hmade hmissing hfind
  obtain ⟨hnul, hshort, -⟩ := Host.followFrom_of_locate hfind
  exact ⟨Host.put_of_write hfind hw, hnul, hshort⟩

/-- What a workspace is like when its source has been written. -/
theorem stands_of_write (hd : Path.isAbsolute dir = true) {node : Node}
    (hpath : w.path = Path.join dir (nameOf n)) (hplace : w.place = D ++ [nameOf n])
    (ht : h.tree.Proper)
    (hfound : followFrom h.tree true linkLimit [] (Path.parts dir) = .ok (.there D node))
    (hdirectory : h.tree.get? D = some .directory) (hup : isLookedUp (nameOf n) = true)
    (hnew : h.tree.get? w.place = none)
    (hw : (h.put w.place .directory).write w.sourcePath (Text.bytes source) = .ok h') :
    (h.put w.place .directory).Grown h' ∧ Stands h'.tree dir D w source := by
  obtain ⟨hgrown, hmade, hmissing⟩ := put_place_spec hplace ht hdirectory hnew
  obtain ⟨hput, hnul, hshort⟩ :=
    put_of_write_source hd hpath hplace ht hfound hdirectory hup hnew hw
  have hgrown' : (h.put w.place .directory).Grown h' := by
    rw [hput]
    exact Host.grown_put hmade hmissing
  have hgrows := hgrown.tree.trans hgrown'.tree
  -- The way to the directory is the same afterwards, and it does not pass through the workspace,
  -- which was not there.
  have hsome := Host.isSome_of_followFrom ht rfl hfound
  obtain ⟨hfollow, hlooked⟩ := Host.followFrom_congr fun q hq => hgrows.get? (hsome q hq)
  refine ⟨hgrown', ⟨n, hpath, hplace, hup⟩, ⟨node, ?_⟩, ?_, hgrown'.tree _ _ hmade, ?_, hnul,
    hshort⟩
  · rw [hfollow, hfound]
  · intro q hq hp
    rw [hlooked] at hq
    have := hsome q hq
    rw [ht.get?_eq_none hnew hp] at this
    cases this
  · rw [hput]
    show ((h.put w.place .directory).tree.put _ _).get? _ = _
    rw [Tree.get?_put (by simp), if_pos rfl]

theorem le_freshNumber (names : List Bytes) (n : Nat) : n ≤ freshNumber names n := by
  unfold freshNumber
  cases (List.range (names.length + 1)).find? fun k => !names.contains (nameOf (n + k)) with
  | none => exact Nat.le_refl n
  | some k => exact Nat.le_add_right n k

/-- A directory that is made fresh has a name that has not been given out before. -/
theorem number_of_makeFresh (hm : makeFresh h root = .ok (w, h')) :
    ∃ n, h.named ≤ n ∧ h'.named = n + 1 ∧
      w.path = Path.join (Path.join h.cwdPath root) (nameOf n) := by
  unfold makeFresh at hm
  dsimp only at hm
  have hle := le_freshNumber ((h.entries (Path.join h.cwdPath root)).toOption.getD []) h.named
  generalize freshNumber ((h.entries (Path.join h.cwdPath root)).toOption.getD []) h.named = n
    at hm hle
  split at hm
  · cases hm
  · cases hm
  · split at hm
    · cases hm
    · rename_i h₂ hmake
      cases hm
      obtain ⟨p', D, name, -, rfl, -⟩ := Host.put_of_makeDirectory hmake
      exact ⟨n, hle, rfl, rfl⟩

/-- What making a workspace comes to: nothing that was there is lost, and a workspace that is made
stands at a new place. -/
theorem create_spec (ht : h.tree.Proper) (scratchRoot : Option Bytes) (source : String) :
    h.Grown (create h scratchRoot source).2 ∧
      ∀ w, (create h scratchRoot source).1 = .ok w → h.tree.get? w.place = none ∧
        ∃ D, Stands (create h scratchRoot source).2.tree (scratchDirectory h scratchRoot) D w
          source := by
  have hd := isAbsolute_scratchDirectory h scratchRoot
  unfold create
  split
  · rename_i hroot
    have hgrown := grown_prepareRoot h scratchRoot
    rw [hroot] at hgrown
    exact ⟨hgrown, fun w hw => by cases hw⟩
  · rename_i root h₁ hroot
    obtain ⟨hgrown₁, hdir⟩ := grown_of_prepareRoot hroot
    split
    · exact ⟨hgrown₁, fun w hw => by cases hw⟩
    · rename_i w h₂ hfresh
      obtain ⟨n, D, node, hpath, hplace, hfound, hdirectory, hup, hnew, hput⟩ :=
        fresh_of_makeFresh hd hdir hfresh
      have ht₁ := hgrown₁.proper ht
      have hold : h.tree.get? w.place = none := by
        by_contra hne
        obtain ⟨m, hm⟩ := Option.ne_none_iff_exists'.mp hne
        rw [hgrown₁.tree _ _ hm] at hnew
        cases hnew
      have hnamed : h₁.named ≤ h₂.named := by
        obtain ⟨m, hle, hm, -⟩ := number_of_makeFresh hfresh
        omega
      have hgrown₂ : h₁.Grown h₂ := by
        have := Host.grown_put (h := { h₁ with named := h₂.named }) (n := .directory) hdirectory
          (hplace ▸ hnew)
        rw [← hplace, ← hput] at this
        exact ⟨this.tree, this.proper, this.cwd, this.environment, hnamed⟩
      split
      · rename_i h₃ hwrite
        rw [hput] at hwrite
        obtain ⟨hgrown₃, hstands⟩ := stands_of_write (h := { h₁ with named := h₂.named }) hd hpath
          hplace ht₁ hfound hdirectory hup hnew hwrite
        rw [← hput] at hgrown₃
        refine ⟨(hgrown₁.trans hgrown₂).trans hgrown₃, fun w' hw' => ?_⟩
        cases hw'
        exact ⟨hold, D, hstands⟩
      · rename_i e hwrite
        -- The directory is removed again, and below it nothing was.
        refine ⟨hgrown₁.trans ?_, fun w hw => by cases hw⟩
        rw [dispose_of_makeFresh ht₁ hfresh]
        have hne : w.place ≠ [] := by
          rw [hplace]
          simp
        refine ⟨fun q m hq => ?_, fun ht₁ => (hgrown₂.proper ht₁).remove hne, hgrown₂.cwd,
          hgrown₂.environment, hnamed⟩
        show (h₂.tree.remove w.place).get? q = some m
        rw [Tree.get?_remove hne, if_neg ?_]
        · exact hgrown₂.tree q m hq
        · intro hp
          rw [ht₁.get?_eq_none hnew hp] at hq
          cases hq

/-- A workspace that is made has a name that has not been given out before. -/
theorem number_of_create {scratchRoot : Option Bytes}
    (hcreate : create h scratchRoot source = (.ok w, h')) :
    ∃ n, h.named ≤ n ∧ n < h'.named ∧
      w.path = Path.join (scratchDirectory h scratchRoot) (nameOf n) := by
  unfold create at hcreate
  split at hcreate
  · cases hcreate
  · rename_i root h₁ hroot
    obtain ⟨hgrown₁, hdir⟩ := grown_of_prepareRoot hroot
    have hnamed := hgrown₁.named
    split at hcreate
    · cases hcreate
    · rename_i w₂ h₂ hfresh
      obtain ⟨n, hle, hnext, hpath⟩ := number_of_makeFresh hfresh
      rw [← hdir] at hpath
      split at hcreate
      · rename_i h₃ hwrite
        cases hcreate
        refine ⟨n, by omega, ?_, hpath⟩
        rw [Host.named_of_write hwrite, hnext]
        exact Nat.lt_succ_self n
      · cases hcreate

/-! ## What the directory of the workspaces lists -/

/-- The directory of a workspace that stands has a path that the system takes. -/
theorem Stands.path_ok (hw : Stands t dir D w source) :
    dir.contains 0 = false ∧ dir.length ≤ Host.pathLimit := by
  obtain ⟨n, hpath, -, -⟩ := hw.named
  obtain ⟨hnul, hshort⟩ := hw.path_locatable
  obtain ⟨rest, hrest⟩ := Path.prefix_join dir (isName_nameOf n)
  rw [hpath, ← hrest] at hnul hshort
  rw [List.contains_append, Bool.or_eq_false_iff] at hnul
  rw [List.length_append] at hshort
  exact ⟨hnul.1, by omega⟩

/-- A new directory is listed last, whether or not a source is written into it, and no more when it
is removed again. -/
theorem names_of_makeFresh {h₂ : Host} (hd : Path.isAbsolute dir = true)
    (hdir : dir = Path.join h.cwdPath root) (ht : h.tree.Proper)
    (hm : makeFresh h root = .ok (w, h₂)) :
    ∃ D n, followFrom h.tree true linkLimit [] (Path.parts dir) = .ok (.there D .directory) ∧
      w.place = D ++ [nameOf n] ∧ nameOf n ∉ h.tree.names D ∧
      (w.dispose h₂).tree.names D = h.tree.names D ∧
      ∀ source h₃, h₂.write w.sourcePath (Text.bytes source) = .ok h₃ →
        h₃.tree.names D = h.tree.names D ++ [nameOf n] := by
  obtain ⟨n, D, node, hpath, hplace, hfound, hdirectory, hup, hnew, hput⟩ :=
    fresh_of_makeFresh hd hdir hm
  have hnode : node = .directory := by
    have hget := Host.get?_of_followFrom ht rfl hfound
    rw [hdirectory] at hget
    exact (Option.some.inj hget).symm
  rw [hnode] at hfound
  have hnotin : nameOf n ∉ h.tree.names D := by
    intro hin
    have hsome := Tree.mem_names_iff.mp hin
    rw [← hplace, hnew] at hsome
    cases hsome
  have hnames : h₂.tree.names D = h.tree.names D ++ [nameOf n] := by
    rw [hput]
    show (h.tree.put w.place .directory).names D = _
    rw [hplace] at hnew ⊢
    exact Tree.names_put_child hnew
  refine ⟨D, n, hfound, hplace, hnotin, ?_, fun source h₃ hwrite => ?_⟩
  · rw [dispose_of_makeFresh ht hm]
    show (h₂.tree.remove w.place).names D = _
    rw [hplace, Tree.names_remove_child, hnames, List.filter_append, List.filter_singleton]
    have hkept : (h.tree.names D).filter (· ≠ nameOf n) = h.tree.names D := by
      rw [List.filter_eq_self]
      intro name hname
      have hne : name ≠ nameOf n := fun he => hnotin (he ▸ hname)
      simpa using hne
    rw [hkept]
    simp
  · rw [hput] at hwrite
    obtain ⟨rfl, -, -⟩ := put_of_write_source (h := { h with named := h₂.named }) hd hpath hplace ht
      hfound hdirectory hup hnew hwrite
    rw [← hput]
    obtain ⟨-, -, hmissing⟩ :=
      put_place_spec (h := { h with named := h₂.named }) hplace ht hdirectory hnew
    rw [← hput] at hmissing
    show (h₂.tree.put (w.place ++ [sourceName]) _).names D = _
    rw [hplace] at hmissing ⊢
    rw [Tree.names_put_grandchild hmissing, hnames]

/-- The directory of the workspaces stays as it is when it is made although it is there. -/
theorem eq_prepareRoot {scratchRoot : Option Bytes} (ht : h.tree.Proper) (hin : h.InPlace)
    (hfound : followFrom h.tree true linkLimit [] (Path.parts (scratchDirectory h scratchRoot)) =
      .ok (.there D .directory)) : (prepareRoot h scratchRoot).2 = h := by
  cases scratchRoot with
  | none => rfl
  | some root =>
    rw [prepareRoot_some]
    exact Host.eq_ensureChain ht hin hfound

/-- What is listed where a workspace has been made: what there was before, and the workspace. -/
theorem names_of_create {scratchRoot : Option Bytes} (ht : h.tree.Proper)
    (hcreate : create h scratchRoot source = (.ok w, h')) :
    ∃ D n base, followFrom h'.tree true linkLimit []
        (Path.parts (scratchDirectory h scratchRoot)) = .ok (.there D .directory) ∧
      w.place = D ++ [nameOf n] ∧ nameOf n ∉ base ∧ h'.tree.names D = base ++ [nameOf n] ∧
      ∀ E, followFrom h.tree true linkLimit [] (Path.parts (scratchDirectory h scratchRoot)) =
        .ok (.there E .directory) → h.InPlace → E = D ∧ base = h.tree.names D := by
  have hd := isAbsolute_scratchDirectory h scratchRoot
  have hspec := create_spec ht scratchRoot source
  rw [hcreate] at hspec
  obtain ⟨hgrown, hmade⟩ := hspec
  obtain ⟨-, D', hstands⟩ := hmade w rfl
  unfold create at hcreate
  split at hcreate
  · cases hcreate
  · rename_i root h₁ hroot
    obtain ⟨hgrown₁, hdir⟩ := grown_of_prepareRoot hroot
    split at hcreate
    · cases hcreate
    · rename_i w h₂ hfresh
      split at hcreate
      · rename_i h₃ hwrite
        cases hcreate
        obtain ⟨D, n, hfound, hplace, hnotin, -, hnames⟩ :=
          names_of_makeFresh hd hdir (hgrown₁.proper ht) hfresh
        refine ⟨D, n, _, ?_, hplace, hnotin, hnames _ _ hwrite, ?_⟩
        · obtain ⟨m, -, hplace', -⟩ := hstands.named
          obtain ⟨node, hfound'⟩ := hstands.found
          have hD : D' = D := by
            rw [hplace] at hplace'
            exact (List.append_inj' hplace' rfl).1.symm
          have hnode := Host.get?_of_followFrom (hgrown.proper ht) rfl hfound'
          have hdirectory := (hgrown.proper ht) D (nameOf n) .directory (hplace ▸ hstands.made)
          rw [hD, hdirectory] at hnode
          rw [hfound', hD, ← Option.some.inj hnode]
        · intro E hE hin
          have hsame := eq_prepareRoot ht hin hE
          rw [hroot] at hsame
          obtain rfl : h₁ = h := hsame
          rw [hfound] at hE
          cases hE
          exact ⟨rfl, rfl⟩
      · cases hcreate

/-- Where no workspace could be made, the list is what it was. -/
theorem names_of_create_error {scratchRoot : Option Bytes} {f : Failure} (ht : h.tree.Proper)
    (hin : h.InPlace)
    (hfound : followFrom h.tree true linkLimit [] (Path.parts (scratchDirectory h scratchRoot)) =
      .ok (.there D .directory))
    (hcreate : create h scratchRoot source = (.error f, h')) :
    h'.tree.names D = h.tree.names D := by
  have hd := isAbsolute_scratchDirectory h scratchRoot
  have hsame := eq_prepareRoot ht hin hfound
  unfold create at hcreate
  split at hcreate
  · rename_i hroot
    rw [hroot] at hsame
    obtain rfl : _ = h := hsame
    cases hcreate
    rfl
  · rename_i root h₁ hroot
    obtain ⟨-, hdir⟩ := grown_of_prepareRoot hroot
    rw [hroot] at hsame
    obtain rfl : h₁ = h := hsame
    split at hcreate
    · cases hcreate
      rfl
    · rename_i w h₂ hfresh
      split at hcreate
      · cases hcreate
      · cases hcreate
        obtain ⟨E, n, hE, -, -, hgone, -⟩ := names_of_makeFresh hd hdir ht hfresh
        rw [hfound] at hE
        cases hE
        exact hgone

end StageLens.Workspace
