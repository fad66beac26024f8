import StageLens.Proofs.Host.Inside
import StageLens.Proofs.Workspace

/-!
# Workspaces that cannot be made

Making a workspace may fail at the scratch directory, at the fresh directory in it or at the source.
Wherever it fails, the fresh directory is not there afterwards, and all that is left is what making
the scratch directory has left: directories that were missing on the way of its configured path.
They stand in the scratch directory itself only where that path goes back (`Undone.empty`).
-/

namespace StageLens.Workspace

variable {h h' : Host} {w : Workspace} {root : Bytes} {source : String} {f : Failure}
variable {scratchRoot : Option Bytes}

/-- The names in the path of the scratch directory. -/
def rootNames (scratchRoot : Option Bytes) : List Bytes := (scratchRoot.map Path.parts).getD []

/-- A directory that was missing, to which a part of the path of the scratch directory leads now. -/
def Scaffold (scratchRoot : Option Bytes) (h h' : Host) (q : Place) : Prop :=
  h.tree.get? q = none ∧
    ∃ root p, scratchRoot = some root ∧ p ∈ Path.ancestors root ∧
      h'.find p = .ok (.there q .directory)

/-- What is left where no workspace could be made. -/
structure Undone (scratchRoot : Option Bytes) (h h' : Host) : Prop where
  /-- Nothing that was there is lost or changed. -/
  grown : h.Grown h'
  /-- Every place is as making the scratch directory left it. -/
  prepared : ∀ q, h'.tree.get? q = (prepareRoot h scratchRoot).2.tree.get? q
  /-- That makes directories, of the names in the path of the scratch directory. -/
  furnished : Host.Furnished (rootNames scratchRoot) h h'
  /-- A directory lists what it listed before and what was missing of the scratch directory. -/
  listed : ∀ D name, name ∈ h'.tree.names D ↔
    name ∈ h.tree.names D ∨ Scaffold scratchRoot h h' (D ++ [name])
  /-- In the scratch directory nothing is new, unless its path goes back. -/
  empty : Path.above ∉ rootNames scratchRoot → ∀ D n,
    h'.find (scratchRoot.getD (temporaryRoot h)) = .ok (.there D n) →
      ∀ q, D <+: q → q ≠ D → h'.tree.get? q = h.tree.get? q

theorem furnished_prepareRoot (h : Host) (scratchRoot : Option Bytes) :
    Host.Furnished (rootNames scratchRoot) h (prepareRoot h scratchRoot).2 := by
  cases scratchRoot with
  | none => exact .refl _ h
  | some root =>
    rw [prepareRoot_some]
    refine Host.furnished_ensureChain h fun p hp => ?_
    obtain ⟨hslash, -, hparts⟩ := Path.parts_of_mem_ancestors hp
    exact ⟨hslash, fun name hname => hparts.subset hname⟩

/-- A fresh directory that is removed again leaves the tree as it was. -/
theorem get?_dispose_of_makeFresh (ht : h.tree.Proper) (hm : makeFresh h root = .ok (w, h')) :
    ∀ q, (w.dispose h').tree.get? q = h.tree.get? q := by
  have hd : Path.isAbsolute (Path.join h.cwdPath root) = true :=
    Path.isAbsolute_join (Path.isAbsolute_ofPlace h.cwd) _
  obtain ⟨n, D, node, -, hplace, -, -, -, hnew, hput⟩ := fresh_of_makeFresh hd rfl hm
  have hne : w.place ≠ [] := by
    rw [hplace]
    simp
  intro q
  rw [dispose_of_makeFresh ht hm]
  show (h'.tree.remove w.place).get? q = _
  rw [Tree.get?_remove hne]
  by_cases hq : w.place <+: q
  · rw [if_pos hq, ht.get?_eq_none hnew hq]
  · rw [if_neg hq, hput]
    show (h.tree.put w.place .directory).get? q = _
    rw [Tree.get?_put hne, if_neg]
    rintro rfl
    exact hq List.prefix_rfl

/-- Wherever making a workspace fails, what is left is what making the scratch directory left. -/
theorem get?_of_create_error (ht : h.tree.Proper)
    (hcreate : create h scratchRoot source = (.error f, h')) :
    ∀ q, h'.tree.get? q = (prepareRoot h scratchRoot).2.tree.get? q := by
  intro q
  have hgrown := grown_prepareRoot h scratchRoot
  unfold create at hcreate
  split at hcreate
  · rename_i hroot
    cases hcreate
    rw [hroot]
  · rename_i root h₁ hroot
    rw [hroot] at hgrown ⊢
    split at hcreate
    · cases hcreate
      rfl
    · rename_i w h₂ hfresh
      split at hcreate
      · cases hcreate
      · cases hcreate
        exact get?_dispose_of_makeFresh (hgrown.proper ht) hfresh q

/-- What is new was missing on the way of the scratch directory. -/
theorem scaffold_of_get? {q : Place} (ht : h.tree.Proper) (hcwd : h'.cwd = h.cwd)
    (hprepared : ∀ q, h'.tree.get? q = (prepareRoot h scratchRoot).2.tree.get? q)
    (hnone : h.tree.get? q = none) (hsome : (h'.tree.get? q).isSome) :
    Scaffold scratchRoot h h' q := by
  have hgrown := grown_prepareRoot h scratchRoot
  rw [hprepared q] at hsome
  cases scratchRoot with
  | none =>
    rw [show (prepareRoot h none).2 = h from rfl, hnone] at hsome
    cases hsome
  | some root =>
    rw [prepareRoot_some] at hsome hgrown hprepared
    obtain ⟨p, hp, hfind⟩ := Host.led_of_ensureChain ht hnone hsome
    refine ⟨hnone, root, p, rfl, hp, ?_⟩
    rw [Host.find, Host.locate_congr (hcwd.trans hgrown.cwd.symm) hprepared]
    exact hfind

/-- Where its path does not go back, what was missing of the scratch directory is above it. -/
theorem Scaffold.isPrefix {q D : Place} {n : Node} (hs : Scaffold scratchRoot h h' q)
    (ht : h.tree.Proper) (hfurnished : Host.Furnished (rootNames scratchRoot) h h')
    (habove : Path.above ∉ rootNames scratchRoot)
    (hD : h'.find (scratchRoot.getD (temporaryRoot h)) = .ok (.there D n)) : q <+: D := by
  obtain ⟨hnone, root, p, rfl, hp, hfind⟩ := hs
  -- What is new holds only what is new, so that there are no links in it.
  have hunlinked : Host.Unlinked h'.tree q := by
    intro q' hq' target hlink
    cases (hfurnished q' _ (ht.get?_eq_none hnone hq') hlink).1
  exact Host.prefix_of_mem_ancestors hp habove hunlinked hfind hD

/-- **A workspace that cannot be made leaves nothing of itself.** -/
theorem undone_of_create_error (ht : h.tree.Proper)
    (hcreate : create h scratchRoot source = (.error f, h')) : Undone scratchRoot h h' := by
  have hprepared := get?_of_create_error ht hcreate
  have hgrown := (create_spec ht scratchRoot source).1
  rw [hcreate] at hgrown
  have hscaffold := fun q => scaffold_of_get? (q := q) ht hgrown.cwd hprepared
  have hfurnished : Host.Furnished (rootNames scratchRoot) h h' := by
    intro q m hnone hsome
    rw [hprepared q] at hsome
    exact furnished_prepareRoot h scratchRoot q m hnone hsome
  refine ⟨hgrown, hprepared, hfurnished, fun D name => ?_, fun habove D n hD q hq hne => ?_⟩
  · rw [Tree.mem_names_iff, Tree.mem_names_iff]
    constructor
    · intro hsome
      by_cases hold : (h.tree.get? (D ++ [name])).isSome
      · exact .inl hold
      · exact .inr (hscaffold _ (by simpa using hold) hsome)
    · rintro (hold | ⟨-, root, p, -, hp, hfind⟩)
      · rw [hgrown.tree.get? hold]
        exact hold
      · obtain ⟨hslash, hne, -⟩ := Path.parts_of_mem_ancestors hp
        rw [Host.get?_of_find (hgrown.proper ht) hslash hne hfind]
        rfl
  · by_contra hchanged
    have hnone : h.tree.get? q = none := by
      by_contra hsome
      exact hchanged (hgrown.tree.get? (Option.isSome_iff_ne_none.mpr hsome))
    have hsome : (h'.tree.get? q).isSome := by
      rw [Option.isSome_iff_ne_none, ← hnone]
      exact hchanged
    have hback := (hscaffold q hnone hsome).isPrefix ht hfurnished habove hD
    exact hne (hq.eq_of_length_le hback.length_le).symm

end StageLens.Workspace
