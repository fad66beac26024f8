import Mathlib.Data.List.Pairwise
import StageLens.Proofs.Host.Inside
import StageLens.Proofs.Workspace.Failure
import StageLens.Proofs.Workspace.OtherNames

/-!
# A store of workspaces

Any number of workspaces are open at once, under the same scratch directory, under others or under
nested ones. A `Store` keeps the host beside what is said about it: which workspaces are open, what
has been written through each, and which directories were made because they were missing on the way
to a scratch directory. An `Operation` makes a workspace, writes into one, reads from one or
disposes of one.

The host is **sound** for what is said about it (`Sound`): an open workspace holds exactly what was
written through it, nothing else is there that was not there at first or made on the way to a
scratch directory, and no workspace is in the way of another. Every operation keeps the host sound
(`Sound.perform`), and so does every sequence of them (`sound_run`).
-/

namespace StageLens

/-- The places at which a later tree shows something else than an earlier one. -/
def Tree.changed (t t' : Tree) : List Place :=
  (t'.entries.map Prod.fst).filter fun q => t'.get? q ≠ t.get? q

theorem Tree.mem_changed {t t' : Tree} {q : Place} :
    q ∈ t.changed t' ↔ (t'.get? q).isSome ∧ t'.get? q ≠ t.get? q := by
  unfold changed
  rw [List.mem_filter, decide_eq_true_eq]
  refine and_congr_left fun hne => ?_
  have hroot : q ≠ [] := by
    rintro rfl
    exact hne rfl
  rw [Tree.get?_of_ne hroot, Option.isSome_iff_ne_none, Ne, List.lookup_eq_none_iff]
  constructor
  · intro hmem hnone
    obtain ⟨e, he, rfl⟩ := List.mem_map.mp hmem
    exact bne_iff_ne.mp (hnone e he) rfl
  · intro h
    by_contra hnot
    refine h fun e he => bne_iff_ne.mpr fun hq => hnot ?_
    exact List.mem_map.mpr ⟨e, he, hq.symm⟩

/-- What a tree that has grown shows beyond an earlier one is where nothing was. -/
theorem Tree.Grows.mem_changed {t t' : Tree} (hg : t.Grows t') {q : Place} :
    q ∈ t.changed t' ↔ t.get? q = none ∧ (t'.get? q).isSome := by
  rw [Tree.mem_changed, and_comm]
  refine and_congr_left fun hsome => ?_
  constructor
  · intro hne
    by_contra hthere
    exact hne (hg.get? (Option.isSome_iff_ne_none.mpr hthere))
  · intro hnone hsame
    rw [hsame, hnone] at hsome
    cases hsome

namespace Workspace

open StageLens.Host (followFrom lookedFrom linkLimit isLookedUp Unlinked)

/-! ## Operations on workspaces -/

/-- An open workspace. -/
structure Opened where
  workspace : Workspace
  /-- Its scratch directory as an absolute path. -/
  directory : Bytes
  /-- The source that it was made with. -/
  source : String
  /-- Whether the source has been overwritten through the workspace itself. -/
  replaced : Bool
  /-- The places at which something was made or written through the workspace. -/
  written : List Place
  deriving DecidableEq

/-- A host with open workspaces. -/
structure Store where
  host : Host
  opened : List Opened := []
  /-- The directories that were made because they were missing on the way to a scratch directory. -/
  scaffold : List Place := []

inductive Operation where
  /-- Make a workspace; the number is that of the next name that the host gives out. -/
  | create (number : Nat) (scratchRoot : Option Bytes) (source : String)
  /-- Make a directory in a workspace, and those above it that are missing. -/
  | makeDirectories (w : Workspace) (name : Bytes)
  | write (w : Workspace) (name contents : Bytes)
  | read (w : Workspace) (name : Bytes)
  | close (w : Workspace)
  | drop (w : Workspace)

/-- An open workspace after something may have been written through the workspace `w`. -/
def Opened.note (w : Workspace) (places : List Place) (replaces : Bool) (o : Opened) : Opened :=
  if o.workspace = w then
    { o with replaced := o.replaced || replaces, written := o.written ++ places }
  else o

namespace Store

/-- The store where the host has become `h` by what was written through a workspace. -/
def noted (σ : Store) (w : Workspace) (h : Host) (replaces : Bool) : Store :=
  { σ with
    host := h
    opened := σ.opened.map (.note w (σ.host.tree.changed h.tree) replaces) }

/-- The store without a workspace. -/
def without (σ : Store) (w : Workspace) : Store :=
  { σ with host := w.dispose σ.host, opened := σ.opened.filter (·.workspace ≠ w) }

def perform (σ : Store) : Operation → Store
  | .create number scratchRoot source =>
    let h := σ.host.numbered number
    let prepared := (prepareRoot h scratchRoot).2.tree
    let scaffold := σ.scaffold ++ h.tree.changed prepared
    match create h scratchRoot source with
    | (.ok w, h') =>
      let o : Opened :=
        ⟨w, scratchDirectory h scratchRoot, source, false, prepared.changed h'.tree⟩
      ⟨h', σ.opened ++ [o], scaffold⟩
    | (.error _, h') => ⟨h', σ.opened, scaffold⟩
  | .makeDirectories w name =>
    σ.noted w (σ.host.ensureChain (Path.ancestors (Path.join w.path name))).2 false
  | .write w name contents =>
    match σ.host.write (Path.join w.path name) contents with
    | .ok h => σ.noted w h (Path.inner? [] (Path.parts name) == some [sourceName])
    | .error _ => σ
  | .read _ _ => σ
  | .close w | .drop w => σ.without w

def run (σ : Store) (ops : List Operation) : Store := ops.foldl perform σ

/-- No open workspace holds the place. -/
def Outside (σ : Store) (q : Place) : Prop := ∀ o ∈ σ.opened, ¬ o.workspace.place <+: q

/-- The workspace is open. -/
def IsOpen (σ : Store) (w : Workspace) : Prop := ∃ o ∈ σ.opened, o.workspace = w

/-- The operations that are considered: on open workspaces, under scratch directories outside them,
and with names that stay inside the workspace where they are written. -/
def Allows (σ : Store) : Operation → Prop
  | .create number scratchRoot _ =>
    let h := σ.host.numbered number
    ∀ q ∈ lookedFrom (prepareRoot h scratchRoot).2.tree true linkLimit []
      (Path.parts (scratchDirectory h scratchRoot)), σ.Outside q
  | .makeDirectories w name | .write w name _ =>
    σ.IsOpen w ∧ Path.isAbsolute name = false ∧ (Path.inner? [] (Path.parts name)).isSome
  | .read w _ | .close w | .drop w => σ.IsOpen w

/-- Each of the operations is allowed when it is its turn. -/
def AllowsAll (σ : Store) : List Operation → Prop
  | [] => True
  | op :: ops => σ.Allows op ∧ (σ.perform op).AllowsAll ops

instance (σ : Store) (q : Place) : Decidable (σ.Outside q) :=
  inferInstanceAs (Decidable (∀ o ∈ σ.opened, ¬ o.workspace.place <+: q))

instance (σ : Store) (w : Workspace) : Decidable (σ.IsOpen w) :=
  inferInstanceAs (Decidable (∃ o ∈ σ.opened, o.workspace = w))

instance decidableAllows (σ : Store) : (op : Operation) → Decidable (σ.Allows op)
  | .create _ _ _ => inferInstanceAs (Decidable (∀ q ∈ _, σ.Outside q))
  | .makeDirectories _ _ | .write _ _ _ => inferInstanceAs (Decidable (_ ∧ _ ∧ _))
  | .read w _ | .close w | .drop w => inferInstanceAs (Decidable (σ.IsOpen w))

instance decidableAllowsAll : (σ : Store) → (ops : List Operation) → Decidable (σ.AllowsAll ops)
  | _, [] => inferInstanceAs (Decidable True)
  | σ, op :: ops =>
    have := decidableAllowsAll (σ.perform op) ops
    inferInstanceAs (Decidable (σ.Allows op ∧ (σ.perform op).AllowsAll ops))

end Store

variable {σ : Store} {w : Workspace} {o o' : Opened} {t t' : Tree} {h h' h₀ : Host}
variable {q : Place} {places : List Place} {replaces : Bool} {dir name : Bytes} {source : String}

@[simp] theorem Opened.workspace_note : (o.note w places replaces).workspace = o.workspace := by
  unfold note
  split <;> rfl

@[simp] theorem Opened.directory_note : (o.note w places replaces).directory = o.directory := by
  unfold note
  split <;> rfl

theorem Store.outside_noted : (σ.noted w h replaces).Outside q ↔ σ.Outside q := by
  unfold Outside noted
  simp

/-! ## Open workspaces -/

/-- The path of a workspace leads to its place under a scratch directory. -/
structure Anchored (t : Tree) (dir : Bytes) (w : Workspace) : Prop where
  absolute : Path.isAbsolute dir = true
  named : ∃ n D node, w.path = Path.join dir (nameOf n) ∧ w.place = D ++ [nameOf n] ∧
    isLookedUp (nameOf n) = true ∧
    followFrom t true linkLimit [] (Path.parts dir) = .ok (.there D node)
  noNul : w.sourcePath.contains 0 = false
  short : w.sourcePath.length ≤ Host.pathLimit

namespace Anchored

theorem place_ne_nil (ha : Anchored t dir w) : w.place ≠ [] := by
  obtain ⟨n, D, node, -, hplace, -⟩ := ha.named
  rw [hplace]
  simp

/-- All places on the way to a scratch directory are there. -/
theorem isSome_way (ht : t.Proper) (ha : Anchored t dir w) :
    ∀ q ∈ lookedFrom t true linkLimit [] (Path.parts dir), (t.get? q).isSome := by
  obtain ⟨n, D, node, -, -, -, hfound⟩ := ha.named
  exact Host.isSome_of_followFrom ht rfl hfound

theorem congr (ha : Anchored t dir w)
    (hway : ∀ q ∈ lookedFrom t true linkLimit [] (Path.parts dir), t'.get? q = t.get? q) :
    Anchored t' dir w ∧ lookedFrom t' true linkLimit [] (Path.parts dir) =
      lookedFrom t true linkLimit [] (Path.parts dir) := by
  obtain ⟨hfollow, hlooked⟩ := Host.followFrom_congr hway
  obtain ⟨n, D, node, hpath, hplace, hup, hfound⟩ := ha.named
  rw [← hfollow] at hfound
  exact ⟨⟨ha.absolute, ⟨n, D, node, hpath, hplace, hup, hfound⟩, ha.noNul, ha.short⟩, hlooked⟩

/-- Where nothing is at its place, the path of a workspace leads nowhere. -/
theorem exists?_eq_false (ha : Anchored h.tree dir w) (hgone : h.tree.get? w.place = none) :
    h.exists? w.path = false := by
  obtain ⟨n, D, node, hpath, hplace, hup, hfound⟩ := ha.named
  have habs : Path.isAbsolute w.path = true := by
    rw [hpath]
    exact Path.isAbsolute_join ha.absolute _
  obtain ⟨left, hleft, -⟩ := Host.followFrom_append true (List.cons_ne_nil (nameOf n) []) hfound
  rw [hplace] at hgone
  have hnever : ∀ E m, followFrom h.tree true linkLimit [] (Path.parts dir ++ [nameOf n]) ≠
      .ok (.there E m) := by
    intro E m hthere
    rw [hleft, followFrom, Host.descend_cons] at hthere
    by_cases hdir : h.tree.get? D = some .directory
    · rw [Host.pace_of_none hdir hup hgone] at hthere
      cases hthere
    · rw [Host.pace, if_pos hdir] at hthere
      cases hthere
  unfold Host.exists? Host.node?
  cases hfind : h.find w.path with
  | error e => rfl
  | ok r =>
    cases r with
    | missing E name => rfl
    | there E m =>
      obtain ⟨-, -, hfollow⟩ := Host.followFrom_of_locate hfind
      rw [habs, if_pos rfl, hpath,
        Path.steps_join (Path.ne_nil_of_isAbsolute ha.absolute) (isName_nameOf n)] at hfollow
      exact absurd hfollow (hnever E m)

end Anchored

/-- The places on the way to the scratch directory of a workspace. -/
def Opened.way (t : Tree) (o : Opened) : List Place :=
  lookedFrom t true linkLimit [] (Path.parts o.directory)

/-- An open workspace is a directory at its place. It holds no links, and what it holds is what was
written through it. -/
structure Lodged (t : Tree) (o : Opened) : Prop extends
    Anchored t o.directory o.workspace where
  made : t.get? o.workspace.place = some .directory
  unlinked : Unlinked t o.workspace.place
  written : ∀ q, q ∈ o.written ↔ o.workspace.place <+: q ∧ (t.get? q).isSome
  source : o.replaced = false →
    t.get? (o.workspace.place ++ [sourceName]) = some (.file (Text.bytes o.source) false)

/-- What has changed in a tree is below a place, where there is something else than a link. -/
def Fills (base : Place) (t t' : Tree) : Prop :=
  ∀ q, t'.get? q ≠ t.get? q →
    base <+: q ∧ q ≠ base ∧ ∃ n, t'.get? q = some n ∧ ∀ target, n ≠ .link target

theorem Fills.get?_of_not {base : Place} (hf : Fills base t t') (hq : ¬ base <+: q) :
    t'.get? q = t.get? q := by
  by_contra hne
  exact hq (hf q hne).1

/-- What is put below a place fills it. -/
theorem fills_put {base r : Place} {n : Node} (hne : r ≠ []) (hlink : ∀ target, n ≠ .link target) :
    Fills base t (t.put (base ++ r) n) := by
  intro q hq
  rw [Tree.get?_put (by simp [hne])] at hq ⊢
  split at hq
  · rename_i heq
    rw [if_pos heq, heq]
    exact ⟨List.prefix_append _ _, by simpa using hne, n, rfl, hlink⟩
  · exact absurd rfl hq

namespace Lodged

/-- A workspace stays as it is where nothing changes on its way and inside it. -/
theorem congr (ho : Lodged t o) (hway : ∀ q ∈ o.way t, t'.get? q = t.get? q)
    (hinside : ∀ q, o.workspace.place <+: q → t'.get? q = t.get? q) : Lodged t' o := by
  constructor
  case toAnchored => exact (ho.toAnchored.congr hway).1
  case made => rw [hinside _ List.prefix_rfl, ho.made]
  case unlinked =>
    intro q hq target
    rw [hinside q hq]
    exact ho.unlinked q hq target
  case written =>
    intro q
    rw [ho.written q]
    apply and_congr_right
    intro hq
    rw [hinside q hq]
  case source =>
    intro hkept
    rw [hinside _ (List.prefix_append _ _), ho.source hkept]

theorem way_congr (ho : Lodged t o) (hway : ∀ q ∈ o.way t, t'.get? q = t.get? q) :
    o.way t' = o.way t :=
  (ho.toAnchored.congr hway).2

/-- What is written below the place of a workspace is noted for it. -/
theorem note (ho : Lodged t o) (hway : ∀ q ∈ o.way t, t'.get? q = t.get? q)
    (hf : Fills o.workspace.place t t')
    (hsource : replaces = false → ∀ n, t.get? (o.workspace.place ++ [sourceName]) = some n →
      t'.get? (o.workspace.place ++ [sourceName]) = some n) :
    Lodged t' (o.note o.workspace (t.changed t') replaces) := by
  unfold Opened.note
  rw [if_pos rfl]
  constructor
  case toAnchored => exact (ho.toAnchored.congr hway).1
  case made =>
    show t'.get? o.workspace.place = some .directory
    by_contra hne
    rw [← ho.made] at hne
    exact (hf _ hne).2.1 rfl
  case unlinked =>
    intro q hq target hlink
    by_cases hne : t'.get? q = t.get? q
    · rw [hne] at hlink
      exact ho.unlinked q hq target hlink
    · obtain ⟨-, -, n, hn, hnot⟩ := hf q hne
      rw [hn] at hlink
      exact hnot target (Option.some.inj hlink)
  case written =>
    intro q
    show q ∈ o.written ++ t.changed t' ↔ o.workspace.place <+: q ∧ (t'.get? q).isSome
    rw [List.mem_append, ho.written, Tree.mem_changed]
    by_cases hne : t'.get? q = t.get? q
    · simp [hne]
    · obtain ⟨hq, -, n, hn, -⟩ := hf q hne
      have hthere : (t'.get? q).isSome := by simp [hn]
      exact ⟨fun _ => ⟨hq, hthere⟩, fun _ => .inr ⟨hthere, hne⟩⟩
  case source =>
    intro hreplaced
    obtain ⟨hreplaced, hreplaces⟩ := Bool.or_eq_false_iff.mp hreplaced
    exact hsource hreplaces _ (ho.source hreplaced)

/-- The path of an open workspace leads to its place. -/
theorem locate (follow : Bool) (ht : h.tree.Proper) (ho : Lodged h.tree o) :
    h.locate follow o.workspace.path = .ok (.there o.workspace.place .directory) := by
  obtain ⟨n, D, node, hpath, hplace, hup, hfound⟩ := ho.named
  exact locate_path follow ho.absolute ht hpath hplace hup hfound ho.made
    (locatable_of_sourcePath ho.noNul ho.short)

/-- Names that stay inside a workspace are entered from its path. -/
theorem enters (ht : t.Proper) (ho : Lodged t o) {r : Place} (hname : Path.isAbsolute name = false)
    (hinner : Path.inner? [] (Path.parts name) = some r) :
    Host.Enters t o.workspace.path o.workspace.place name r := by
  obtain ⟨n, D, node, hpath, hplace, hup, hfound⟩ := ho.named
  have hne := Path.ne_nil_of_isAbsolute ho.absolute
  have hmade := ho.made
  refine ⟨?_, ?_, ?_, ho.unlinked, hname, hinner⟩
  · rw [hpath]
    exact Path.isAbsolute_join ho.absolute _
  · rw [hpath]
    exact Path.not_endsInSlash_join hne (isName_nameOf n)
  · rw [hplace] at hmade ⊢
    rw [hpath, Path.parts_join hne (isName_nameOf n)]
    exact Host.followFrom_child true ht hup hfound hmade

/-- Directories that are made in a workspace fill it. -/
theorem fills_ensureChain (ht : h.tree.Proper) (ho : Lodged h.tree o) {r : Place}
    (hname : Path.isAbsolute name = false) (hinner : Path.inner? [] (Path.parts name) = some r) :
    Fills o.workspace.place h.tree
      (h.ensureChain (Path.ancestors (Path.join o.workspace.path name))).2.tree := by
  intro q hq
  obtain ⟨hin, hnone, hsome⟩ :=
    Host.inside_of_ensureChain ht (ho.enters ht hname hinner) hq
  refine ⟨hin, ?_, .directory, hsome, by simp⟩
  rintro rfl
  rw [ho.made] at hnone
  cases hnone

/-- An open workspace is removed from its place. -/
theorem host_without (ht : σ.host.tree.Proper) (ho : Lodged σ.host.tree o) :
    (σ.without o.workspace).host = σ.host.remove o.workspace.place :=
  dispose_of_locate (ho.locate false ht)

/-- A workspace goes with all that is at its place and below it. -/
theorem get?_without (ht : σ.host.tree.Proper) (ho : Lodged σ.host.tree o) (q : Place) :
    (σ.without o.workspace).host.tree.get? q =
      if o.workspace.place <+: q then none else σ.host.tree.get? q := by
  rw [ho.host_without ht]
  exact Tree.get?_remove ho.place_ne_nil q

end Lodged

/-- What making a workspace adds to a tree in which its scratch directory is there. -/
structure Adds (t t' : Tree) (dir : Bytes) (w : Workspace) (source : String) : Prop extends
    Anchored t dir w where
  vacant : t.get? w.place = none
  added : ∀ q, t'.get? q =
    if q = w.place ++ [sourceName] then some (.file (Text.bytes source) false)
    else if q = w.place then some .directory
    else t.get? q

namespace Adds

/-- Nothing changes outside the new workspace. -/
theorem get?_of_not (ha : Adds t t' dir w source) (hq : ¬ w.place <+: q) :
    t'.get? q = t.get? q := by
  rw [ha.added q, if_neg ?_, if_neg ?_]
  · rintro rfl
    exact hq List.prefix_rfl
  · rintro rfl
    exact hq (List.prefix_append _ _)

/-- What was there is not in the new workspace. -/
theorem not_of_isSome (ht : t.Proper) (ha : Adds t t' dir w source) (hq : (t.get? q).isSome) :
    ¬ w.place <+: q := by
  intro hinside
  rw [ht.get?_eq_none ha.vacant hinside] at hq
  cases hq

/-- The way to the scratch directory is the same afterwards. -/
theorem way (ht : t.Proper) (ha : Adds t t' dir w source) :
    ∀ q ∈ lookedFrom t true linkLimit [] (Path.parts dir), t'.get? q = t.get? q :=
  fun q hq => ha.get?_of_not (ha.not_of_isSome ht (ha.isSome_way ht q hq))

/-- The new workspace is lodged. -/
theorem lodged (ht : t.Proper) (ha : Adds t t' dir w source) :
    Lodged t' ⟨w, dir, source, false, t.changed t'⟩ := by
  constructor
  case toAnchored => exact (ha.toAnchored.congr (ha.way ht)).1
  case made =>
    show t'.get? w.place = some .directory
    simp [ha.added]
  case unlinked =>
    intro q hq target
    rw [ha.added, ht.get?_eq_none ha.vacant hq]
    split
    · simp
    · split <;> simp
  case written =>
    intro q
    show q ∈ t.changed t' ↔ w.place <+: q ∧ (t'.get? q).isSome
    rw [Tree.mem_changed, and_comm]
    apply and_congr_left
    intro hthere
    constructor
    · intro hne
      by_contra hnot
      exact hne (ha.get?_of_not hnot)
    · intro hinside hsame
      rw [hsame, ht.get?_eq_none ha.vacant hinside] at hthere
      cases hthere
  case source =>
    intro _
    show t'.get? (w.place ++ [sourceName]) = some (.file (Text.bytes source) false)
    simp [ha.added]

end Adds

/-! ## Soundness -/

/-- What is said in a store about open workspaces and scaffold is so on its host, which was `h₀` at
first. -/
structure Sound (h₀ : Host) (σ : Store) : Prop where
  proper : σ.host.tree.Proper
  inPlace : σ.host.InPlace
  home : σ.Outside σ.host.cwd
  lodged : ∀ o ∈ σ.opened, Lodged σ.host.tree o
  /-- No workspace is on the way to another. -/
  clear : ∀ o ∈ σ.opened, ∀ q ∈ o.way σ.host.tree, σ.Outside q
  /-- Outside the workspaces only the scaffold is new. -/
  outside : ∀ q, σ.Outside q →
    σ.host.tree.get? q = if q ∈ σ.scaffold then some .directory else h₀.tree.get? q
  fresh : ∀ o ∈ σ.opened, h₀.tree.get? o.workspace.place = none
  scaffold : ∀ q ∈ σ.scaffold, h₀.tree.get? q = none ∧ σ.Outside q
  distinct : σ.opened.Pairwise fun o o' => o.workspace.place ≠ o'.workspace.place

namespace Sound

theorem start (ht : h₀.tree.Proper) (hin : h₀.InPlace) : Sound h₀ ⟨h₀, [], []⟩ where
  proper := ht
  inPlace := hin
  home := fun o ho => by cases ho
  lodged := fun o ho => by cases ho
  clear := fun o ho => by cases ho
  outside := fun q _ => by rw [if_neg List.not_mem_nil]
  fresh := fun o ho => by cases ho
  scaffold := fun q hq => by cases hq
  distinct := .nil

/-- The scratch directory of an open workspace is outside all of them. -/
theorem outside_directory (hσ : Sound h₀ σ) (ho : o ∈ σ.opened) :
    ∃ n D, o.workspace.place = D ++ [nameOf n] ∧ σ.Outside D ∧
      followFrom σ.host.tree true linkLimit [] (Path.parts o.directory) =
        .ok (.there D .directory) := by
  obtain ⟨n, D, node, -, hplace, -, hfound⟩ := (hσ.lodged o ho).named
  have hnode := Host.get?_of_followFrom hσ.proper rfl hfound
  have hmade := (hσ.lodged o ho).made
  rw [hplace] at hmade
  rw [hσ.proper _ _ _ hmade] at hnode
  rw [← Option.some.inj hnode] at hfound
  exact ⟨n, D, hplace, hσ.clear o ho D (Host.mem_lookedFrom_of_followFrom hfound), hfound⟩

/-- Of two workspaces none is in the other. -/
theorem apart (hσ : Sound h₀ σ) (ho : o ∈ σ.opened) (ho' : o' ∈ σ.opened)
    (hne : o.workspace.place ≠ o'.workspace.place) :
    ¬ o.workspace.place <+: o'.workspace.place := by
  obtain ⟨n, D, hplace, houtside, -⟩ := hσ.outside_directory ho'
  rw [hplace, List.prefix_concat_iff, not_or, ← hplace]
  exact ⟨hne, houtside o ho⟩

/-- No place is in two workspaces. -/
theorem not_both (hσ : Sound h₀ σ) (ho : o ∈ σ.opened) (ho' : o' ∈ σ.opened)
    (hne : o.workspace.place ≠ o'.workspace.place) (hq : o.workspace.place <+: q) :
    ¬ o'.workspace.place <+: q := by
  intro hq'
  rcases List.prefix_or_prefix_of_prefix hq hq' with h | h
  · exact hσ.apart ho ho' hne h
  · exact hσ.apart ho' ho hne.symm h

theorem isSome_scaffold (hσ : Sound h₀ σ) (hq : q ∈ σ.scaffold) : (σ.host.tree.get? q).isSome := by
  rw [hσ.outside q (hσ.scaffold q hq).2, if_pos hq]
  rfl

/-- What is nowhere on the host and in no workspace was not there at first. -/
theorem absent (hσ : Sound h₀ σ) (hq : σ.Outside q) (hnone : σ.host.tree.get? q = none) :
    h₀.tree.get? q = none := by
  have hbefore := hσ.outside q hq
  rw [hnone] at hbefore
  split at hbefore
  · cases hbefore
  · exact hbefore.symm

/-- Different workspaces are at different places. -/
theorem place_ne (hσ : Sound h₀ σ) (ho : o ∈ σ.opened) (ho' : o' ∈ σ.opened)
    (hne : o.workspace ≠ o'.workspace) : o.workspace.place ≠ o'.workspace.place := by
  have : Std.Symm fun o o' : Opened => o.workspace.place ≠ o'.workspace.place :=
    ⟨fun _ _ h => h.symm⟩
  exact hσ.distinct.forall ho ho' fun he => hne (he ▸ rfl)

/-! ### Making directories on the way to a scratch directory -/

/-- Directories that are made outside the workspaces become scaffold. -/
theorem grow {scaffold : List Place} (hσ : Sound h₀ σ) (hgrown : σ.host.Grown h')
    (hnew : ∀ q, σ.host.tree.get? q = none → (h'.tree.get? q).isSome →
      h'.tree.get? q = some .directory ∧ σ.Outside q)
    (hscaffold : ∀ q, q ∈ scaffold ↔
      q ∈ σ.scaffold ∨ σ.host.tree.get? q = none ∧ (h'.tree.get? q).isSome) :
    Sound h₀ ⟨h', σ.opened, scaffold⟩ := by
  have hsame : ∀ q, ¬ (σ.host.tree.get? q = none ∧ (h'.tree.get? q).isSome) →
      h'.tree.get? q = σ.host.tree.get? q := by
    intro q hnot
    by_cases hnone : σ.host.tree.get? q = none
    · rw [hnone]
      simpa [hnone] using hnot
    · exact hgrown.tree.get? (Option.isSome_iff_ne_none.mpr hnone)
  have hway : ∀ o ∈ σ.opened, ∀ q ∈ o.way σ.host.tree, h'.tree.get? q = σ.host.tree.get? q :=
    fun o ho q hq => hgrown.tree.get? ((hσ.lodged o ho).isSome_way hσ.proper q hq)
  constructor
  case proper => exact hgrown.proper hσ.proper
  case inPlace => exact hσ.inPlace.grown hgrown
  case home =>
    show σ.Outside h'.cwd
    rw [hgrown.cwd]
    exact hσ.home
  case lodged =>
    intro o ho
    apply (hσ.lodged o ho).congr (hway o ho)
    intro q hq
    apply hsame
    rintro ⟨hnone, hsome⟩
    exact (hnew q hnone hsome).2 o ho hq
  case clear =>
    intro o ho q hq
    have hlooked := (hσ.lodged o ho).way_congr (hway o ho)
    exact hσ.clear o ho q (hlooked ▸ hq)
  case outside =>
    intro q hq
    show h'.tree.get? q = if q ∈ scaffold then some .directory else h₀.tree.get? q
    by_cases hadded : σ.host.tree.get? q = none ∧ (h'.tree.get? q).isSome
    · rw [if_pos ((hscaffold q).mpr (.inr hadded))]
      exact (hnew q hadded.1 hadded.2).1
    · -- Nothing was made here, so that it is scaffold if it was before.
      have hiff : q ∈ scaffold ↔ q ∈ σ.scaffold := by
        rw [hscaffold q]
        exact or_iff_left hadded
      rw [hsame q hadded, hσ.outside q hq]
      simp only [hiff]
  case fresh => exact hσ.fresh
  case scaffold =>
    intro q hq
    rcases (hscaffold q).mp hq with hq | ⟨hnone, hsome⟩
    · exact hσ.scaffold q hq
    · have houtside := (hnew q hnone hsome).2
      exact ⟨hσ.absent houtside hnone, houtside⟩
  case distinct => exact hσ.distinct

/-! ### Opening a workspace -/

/-- A new workspace is in no other one, as its scratch directory is in none. -/
theorem outside_of_adds (hσ : Sound h₀ σ) (ha : Adds σ.host.tree t' dir w source)
    (hway : ∀ q ∈ lookedFrom σ.host.tree true linkLimit [] (Path.parts dir), σ.Outside q) :
    σ.Outside w.place := by
  intro o ho hin
  obtain ⟨n, D, node, -, hplace, -, hfound⟩ := ha.named
  rw [hplace, List.prefix_concat_iff, ← hplace] at hin
  rcases hin with heq | hin
  · have hmade := (hσ.lodged o ho).made
    rw [heq, ha.vacant] at hmade
    cases hmade
  · exact hway D (Host.mem_lookedFrom_of_followFrom hfound) o ho hin

/-- A workspace is opened where nothing was, under a scratch directory outside the workspaces. -/
theorem lodge (hσ : Sound h₀ σ) (ha : Adds σ.host.tree h'.tree dir w source)
    (hway : ∀ q ∈ lookedFrom σ.host.tree true linkLimit [] (Path.parts dir), σ.Outside q)
    (hproper : h'.tree.Proper) (hcwd : h'.cwd = σ.host.cwd) :
    Sound h₀ ⟨h', σ.opened ++ [⟨w, dir, source, false, σ.host.tree.changed h'.tree⟩],
      σ.scaffold⟩ := by
  have ht := hσ.proper
  have hplace := hσ.outside_of_adds ha hway
  have hcwdThere : (σ.host.tree.get? σ.host.cwd).isSome := by
    rw [hσ.inPlace.there]
    rfl
  have hsame : ∀ q, (σ.host.tree.get? q).isSome → h'.tree.get? q = σ.host.tree.get? q := by
    intro q hq
    exact ha.get?_of_not (ha.not_of_isSome ht hq)
  have hold : ∀ o ∈ σ.opened, ∀ q ∈ o.way σ.host.tree, h'.tree.get? q = σ.host.tree.get? q := by
    intro o ho q hq
    exact hsame q ((hσ.lodged o ho).isSome_way ht q hq)
  -- What was there and in no workspace is not in the new one either.
  have houtside : ∀ q, (σ.host.tree.get? q).isSome → σ.Outside q →
      Store.Outside ⟨h', σ.opened ++ [⟨w, dir, source, false, σ.host.tree.changed h'.tree⟩],
        σ.scaffold⟩ q := by
    intro q hq hbefore o ho
    rcases List.mem_append.mp ho with ho | ho
    · exact hbefore o ho
    · rw [List.mem_singleton.mp ho]
      exact ha.not_of_isSome ht hq
  constructor
  case proper => exact hproper
  case inPlace => exact hσ.inPlace.congr hcwd (hsame _ hcwdThere)
  case home =>
    show Store.Outside _ h'.cwd
    rw [hcwd]
    exact houtside _ hcwdThere hσ.home
  case lodged =>
    intro o ho
    rcases List.mem_append.mp ho with ho | ho
    · apply (hσ.lodged o ho).congr (hold o ho)
      intro q hq
      apply ha.get?_of_not
      intro hq'
      -- A place in both would put one workspace into the other.
      rcases List.prefix_or_prefix_of_prefix hq hq' with hin | hin
      · exact hplace o ho hin
      · refine ha.not_of_isSome ht ?_ hin
        simp [(hσ.lodged o ho).made]
    · rw [List.mem_singleton.mp ho]
      exact ha.lodged ht
  case clear =>
    intro o ho q hq
    rcases List.mem_append.mp ho with ho | ho
    · have hlooked := (hσ.lodged o ho).way_congr (hold o ho)
      have hq' : q ∈ o.way σ.host.tree := hlooked ▸ hq
      exact houtside q ((hσ.lodged o ho).isSome_way ht q hq') (hσ.clear o ho q hq')
    · rw [List.mem_singleton.mp ho] at hq
      have hlooked := (ha.toAnchored.congr (ha.way ht)).2
      have hq' : q ∈ lookedFrom σ.host.tree true linkLimit [] (Path.parts dir) := hlooked ▸ hq
      exact houtside q (ha.isSome_way ht q hq') (hway q hq')
  case outside =>
    intro q hq
    obtain ⟨hbefore, hnot⟩ := List.forall_mem_append.mp hq
    show h'.tree.get? q = if q ∈ σ.scaffold then some .directory else h₀.tree.get? q
    rw [ha.get?_of_not (hnot _ (List.mem_singleton.mpr rfl))]
    exact hσ.outside q hbefore
  case fresh =>
    intro o ho
    rcases List.mem_append.mp ho with ho | ho
    · exact hσ.fresh o ho
    · rw [List.mem_singleton.mp ho]
      exact hσ.absent hplace ha.vacant
  case scaffold =>
    intro q hq
    obtain ⟨hnone, hbefore⟩ := hσ.scaffold q hq
    exact ⟨hnone, houtside q (hσ.isSome_scaffold hq) hbefore⟩
  case distinct =>
    refine List.pairwise_append.mpr ⟨hσ.distinct, List.pairwise_singleton _ _, ?_⟩
    intro o ho o' ho' heq
    rw [List.mem_singleton.mp ho'] at heq
    exact hplace o ho (heq ▸ List.prefix_rfl)

/-! ### Writing into a workspace -/

/-- What is written below the place of a workspace belongs to it. -/
theorem note (hσ : Sound h₀ σ) (hw : σ.IsOpen w) (hproper : h'.tree.Proper)
    (hcwd : h'.cwd = σ.host.cwd) (hf : Fills w.place σ.host.tree h'.tree)
    (hsource : replaces = false → ∀ n, σ.host.tree.get? (w.place ++ [sourceName]) = some n →
      h'.tree.get? (w.place ++ [sourceName]) = some n) :
    Sound h₀ (σ.noted w h' replaces) := by
  obtain ⟨o₀, ho₀, rfl⟩ := hw
  have hway : ∀ o ∈ σ.opened, ∀ q ∈ o.way σ.host.tree, h'.tree.get? q = σ.host.tree.get? q :=
    fun o ho q hq => hf.get?_of_not (hσ.clear o ho q hq o₀ ho₀)
  constructor
  case proper => exact hproper
  case inPlace => exact hσ.inPlace.congr hcwd (hf.get?_of_not (hσ.home o₀ ho₀))
  case home =>
    show Store.Outside _ h'.cwd
    rw [hcwd, Store.outside_noted]
    exact hσ.home
  case lodged =>
    intro o' ho'
    obtain ⟨o, ho, rfl⟩ := List.mem_map.mp ho'
    show Lodged h'.tree _
    by_cases hself : o₀.workspace = o.workspace
    · rw [hself] at hf hsource ⊢
      exact (hσ.lodged o ho).note (hway o ho) hf hsource
    · -- What is below the place of another workspace is not in this one.
      have hne := hσ.place_ne ho ho₀ (Ne.symm hself)
      rw [Opened.note, if_neg (Ne.symm hself)]
      apply (hσ.lodged o ho).congr (hway o ho)
      intro q hq
      exact hf.get?_of_not (hσ.not_both ho ho₀ hne hq)
  case clear =>
    intro o' ho' q hq
    obtain ⟨o, ho, rfl⟩ := List.mem_map.mp ho'
    have hlooked := (hσ.lodged o ho).way_congr (hway o ho)
    rw [Store.outside_noted]
    unfold Opened.way at hq
    rw [Opened.directory_note] at hq
    exact hσ.clear o ho q (hlooked ▸ hq)
  case outside =>
    intro q hq
    rw [Store.outside_noted] at hq
    show h'.tree.get? q = if q ∈ σ.scaffold then some .directory else h₀.tree.get? q
    rw [hf.get?_of_not (hq o₀ ho₀)]
    exact hσ.outside q hq
  case fresh =>
    intro o' ho'
    obtain ⟨o, ho, rfl⟩ := List.mem_map.mp ho'
    rw [Opened.workspace_note]
    exact hσ.fresh o ho
  case scaffold =>
    intro q hq
    rw [Store.outside_noted]
    exact hσ.scaffold q hq
  case distinct =>
    apply List.pairwise_map.mpr
    simpa using hσ.distinct

/-! ### Disposing of a workspace -/

theorem without (ht₀ : h₀.tree.Proper) (hσ : Sound h₀ σ) (hw : σ.IsOpen w) :
    Sound h₀ (σ.without w) := by
  obtain ⟨o₀, ho₀, rfl⟩ := hw
  have hget := (hσ.lodged o₀ ho₀).get?_without hσ.proper
  have hstay : ∀ o ∈ (σ.without o₀.workspace).opened,
      o ∈ σ.opened ∧ o.workspace.place ≠ o₀.workspace.place := by
    intro o ho
    obtain ⟨ho, hother⟩ := List.mem_filter.mp ho
    exact ⟨ho, hσ.place_ne ho ho₀ (by simpa using hother)⟩
  have houtside : ∀ q, σ.Outside q → (σ.without o₀.workspace).Outside q :=
    fun q hq o ho => hq o (hstay o ho).1
  have hway : ∀ o ∈ σ.opened, ∀ q ∈ o.way σ.host.tree,
      (σ.without o₀.workspace).host.tree.get? q = σ.host.tree.get? q :=
    fun o ho q hq => by rw [hget, if_neg (hσ.clear o ho q hq o₀ ho₀)]
  have hcwd : (σ.without o₀.workspace).host.cwd = σ.host.cwd := cwd_dispose _ _
  constructor
  case proper =>
    rw [(hσ.lodged o₀ ho₀).host_without hσ.proper]
    exact hσ.proper.remove (hσ.lodged o₀ ho₀).place_ne_nil
  case inPlace =>
    refine hσ.inPlace.congr hcwd ?_
    rw [hget, if_neg (hσ.home o₀ ho₀)]
  case home =>
    rw [hcwd]
    exact houtside _ hσ.home
  case lodged =>
    intro o ho
    obtain ⟨ho, hother⟩ := hstay o ho
    apply (hσ.lodged o ho).congr (hway o ho)
    intro q hq
    rw [hget, if_neg (hσ.not_both ho ho₀ hother hq)]
  case clear =>
    intro o ho q hq
    obtain ⟨ho, -⟩ := hstay o ho
    have hlooked := (hσ.lodged o ho).way_congr (hway o ho)
    exact houtside q (hσ.clear o ho q (hlooked ▸ hq))
  case outside =>
    intro q hq
    rw [hget]
    by_cases hin : o₀.workspace.place <+: q
    · -- Nothing was there at first, nor is scaffold in a workspace.
      have hnot : q ∉ (σ.without o₀.workspace).scaffold := by
        intro hmem
        exact (hσ.scaffold q hmem).2 o₀ ho₀ hin
      rw [if_pos hin, if_neg hnot, ht₀.get?_eq_none (hσ.fresh o₀ ho₀) hin]
    · rw [if_neg hin]
      apply hσ.outside
      intro o ho
      by_cases hself : o.workspace = o₀.workspace
      · rwa [hself]
      · exact hq o (List.mem_filter.mpr ⟨ho, by simpa using hself⟩)
  case fresh =>
    intro o ho
    exact hσ.fresh o (hstay o ho).1
  case scaffold =>
    intro q hq
    obtain ⟨hnone, hbefore⟩ := hσ.scaffold q hq
    exact ⟨hnone, houtside q hbefore⟩
  case distinct => exact hσ.distinct.filter _

end Sound

/-! ## Every operation -/

variable {scratchRoot : Option Bytes} {number : Nat}

/-- What is made for a scratch directory is on its way. -/
theorem mem_way_of_prepareRoot (ht : h.tree.Proper) (hin : h.InPlace) (hnone : h.tree.get? q = none)
    (hsome : ((prepareRoot h scratchRoot).2.tree.get? q).isSome) :
    q ∈ lookedFrom (prepareRoot h scratchRoot).2.tree true linkLimit []
      (Path.parts (scratchDirectory h scratchRoot)) := by
  have hgrown := grown_prepareRoot h scratchRoot
  cases scratchRoot with
  | none =>
    have hnone' : (prepareRoot h none).2.tree.get? q = none := hnone
    rw [hnone'] at hsome
    cases hsome
  | some root =>
    rw [prepareRoot_some] at hsome hgrown ⊢
    have hway := Host.mem_way_of_ensureChain ht rfl hnone hsome
    rw [← hgrown.cwd] at hway
    have habsolute := Host.lookedFrom_join_cwdPath (hgrown.proper ht) (hin.grown hgrown) q hway
    unfold Host.cwdPath at habsolute
    rwa [hgrown.cwd] at habsolute

/-- What making a workspace adds when its scratch directory has been made. -/
theorem adds_of_create (ht : h.tree.Proper) (hcreate : create h scratchRoot source = (.ok w, h')) :
    Adds (prepareRoot h scratchRoot).2.tree h'.tree (scratchDirectory h scratchRoot) w source := by
  have hd := isAbsolute_scratchDirectory h scratchRoot
  unfold create at hcreate
  split at hcreate
  · cases hcreate
  · rename_i root h₁ hroot
    obtain ⟨hgrown, hdir⟩ := grown_of_prepareRoot hroot
    rw [hroot]
    split at hcreate
    · cases hcreate
    · rename_i w₂ h₂ hfresh
      obtain ⟨n, D, node, hpath, hplace, hfound, hdirectory, hup, hnew, hput⟩ :=
        fresh_of_makeFresh hd hdir hfresh
      split at hcreate
      · rename_i h₃ hwrite
        cases hcreate
        have hne : w.place ≠ [] := by
          rw [hplace]
          simp
        rw [hput] at hwrite
        obtain ⟨rfl, hnul, hshort⟩ := put_of_write_source (h := { h₁ with named := h₂.named }) hd
          hpath hplace (hgrown.proper ht) hfound hdirectory hup hnew hwrite
        refine ⟨⟨hd, ⟨n, D, node, hpath, hplace, hup, hfound⟩, hnul, hshort⟩, hnew, fun q => ?_⟩
        show ((h₁.tree.put w.place .directory).put (w.place ++ [sourceName]) _).get? q = _
        rw [Tree.get?_put (by simp), Tree.get?_put hne]
      · cases hcreate

namespace Sound

/-- What is made for an allowed scratch directory are new directories outside the workspaces. -/
theorem new_of_prepareRoot (hσ : Sound h₀ σ)
    (hallows : σ.Allows (.create number scratchRoot source)) (hnone : σ.host.tree.get? q = none)
    (hsome : ((prepareRoot (σ.host.numbered number) scratchRoot).2.tree.get? q).isSome) :
    (prepareRoot (σ.host.numbered number) scratchRoot).2.tree.get? q = some .directory ∧
      σ.Outside q := by
  have hin : (σ.host.numbered number).InPlace := ⟨hσ.inPlace.names, hσ.inPlace.there⟩
  obtain ⟨m, hm⟩ := Option.isSome_iff_exists.mp hsome
  obtain ⟨rfl, -⟩ := furnished_prepareRoot (σ.host.numbered number) scratchRoot q m hnone hm
  exact ⟨hm, hallows q (mem_way_of_prepareRoot hσ.proper hin hnone hsome)⟩

/-- Making a workspace adds scaffold and, if it succeeds, the workspace. -/
theorem create (hσ : Sound h₀ σ) (hallows : σ.Allows (.create number scratchRoot source)) :
    Sound h₀ (σ.perform (.create number scratchRoot source)) := by
  have hnumbered : Sound h₀ ⟨σ.host.numbered number, σ.opened, σ.scaffold⟩ :=
    { hσ with inPlace := ⟨hσ.inPlace.names, hσ.inPlace.there⟩ }
  have hspec := (create_spec hσ.proper scratchRoot source (h := σ.host.numbered number)).1
  have hgrown := grown_prepareRoot (σ.host.numbered number) scratchRoot
  have hscaffold : ∀ q, q ∈ σ.scaffold ++ σ.host.tree.changed
        (prepareRoot (σ.host.numbered number) scratchRoot).2.tree ↔
      q ∈ σ.scaffold ∨ σ.host.tree.get? q = none ∧
        ((prepareRoot (σ.host.numbered number) scratchRoot).2.tree.get? q).isSome := by
    intro q
    rw [List.mem_append]
    exact or_congr_right hgrown.tree.mem_changed
  unfold Store.perform
  dsimp only
  rcases hcreate : Workspace.create (σ.host.numbered number) scratchRoot source with ⟨f | w, h'⟩
  · -- The tree shows what making the scratch directory left.
    rw [hcreate] at hspec
    have hprepared := get?_of_create_error (h := σ.host.numbered number) hσ.proper hcreate
    apply hnumbered.grow hspec
    · intro q hnone hsome
      rw [hprepared] at hsome ⊢
      exact hσ.new_of_prepareRoot hallows hnone hsome
    · intro q
      rw [hprepared]
      exact hscaffold q
  · rw [hcreate] at hspec
    have hready := hnumbered.grow hgrown (fun _ => hσ.new_of_prepareRoot hallows) hscaffold
    exact hready.lodge (adds_of_create (h := σ.host.numbered number) hσ.proper hcreate) hallows
      (hspec.proper hσ.proper) (hspec.cwd.trans hgrown.cwd.symm)

theorem makeDirectories (hσ : Sound h₀ σ) (hallows : σ.Allows (.makeDirectories w name)) :
    Sound h₀ (σ.perform (.makeDirectories w name)) := by
  obtain ⟨⟨o, ho, rfl⟩, hname, hinner⟩ := hallows
  obtain ⟨r, hr⟩ := Option.isSome_iff_exists.mp hinner
  have hgrown := Host.grown_ensureChain σ.host (Path.ancestors (Path.join o.workspace.path name))
  apply hσ.note ⟨o, ho, rfl⟩ (hgrown.proper hσ.proper) hgrown.cwd
  · exact (hσ.lodged o ho).fills_ensureChain hσ.proper hname hr
  · intro _ n hn
    exact hgrown.tree _ n hn

theorem write {contents : Bytes} (hσ : Sound h₀ σ) (hallows : σ.Allows (.write w name contents)) :
    Sound h₀ (σ.perform (.write w name contents)) := by
  obtain ⟨⟨o, ho, rfl⟩, hname, hinner⟩ := hallows
  obtain ⟨r, hr⟩ := Option.isSome_iff_exists.mp hinner
  unfold Store.perform
  dsimp only
  cases hwrite : σ.host.write (Path.join o.workspace.path name) contents with
  | error e => exact hσ
  | ok h' =>
    obtain ⟨n, rfl, hne, hlink, hproper⟩ :=
      Host.put_of_write_inside hσ.proper ((hσ.lodged o ho).enters hσ.proper hname hr) hwrite
    apply hσ.note ⟨o, ho, rfl⟩ hproper rfl
    · exact fills_put hne hlink
    · -- The source stays, since the name leads to another place.
      intro hkeeps m hm
      show (σ.host.tree.put (o.workspace.place ++ r) n).get? _ = some m
      rw [Tree.get?_put (by simp [hne]), if_neg ?_, hm]
      intro heq
      rw [hr, ← List.append_cancel_left heq] at hkeeps
      simp at hkeeps

/-- **Every operation keeps the host sound.** -/
theorem perform {op : Operation} (ht₀ : h₀.tree.Proper) (hσ : Sound h₀ σ)
    (hallows : σ.Allows op) : Sound h₀ (σ.perform op) := by
  cases op with
  | create number scratchRoot source => exact hσ.create hallows
  | makeDirectories w name => exact hσ.makeDirectories hallows
  | write w name contents => exact hσ.write hallows
  | read w name => exact hσ
  | close w => exact hσ.without ht₀ hallows
  | drop w => exact hσ.without ht₀ hallows

end Sound

/-- **Every sequence of operations keeps the host sound.** -/
theorem sound_run {ops : List Operation} (ht₀ : h₀.tree.Proper) (hσ : Sound h₀ σ)
    (hallows : σ.AllowsAll ops) : Sound h₀ (σ.run ops) := by
  induction ops generalizing σ with
  | nil => exact hσ
  | cons op ops ih =>
    obtain ⟨hop, hops⟩ := hallows
    exact ih (hσ.perform ht₀ hop) hops

end Workspace

end StageLens
