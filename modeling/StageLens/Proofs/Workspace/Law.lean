import StageLens.Proofs.Workspace.Store

/-!
# The law of the store

What every sequence of operations on workspaces comes to, at every point of it
(`workspace_store_law`): what a directory lists, where the open workspaces are and what they hold,
what disposing of one removes, and what a workspace that cannot be made leaves behind.

A scratch directory that is missing is made with those above it, and they stay when the workspace
is gone. Where one of them is named as workspaces are and stands in the scratch directory of
others, that one lists a name which is no workspace. A workspace is removed by its path: where that
leads through another workspace, it leads nowhere once the other is closed, and what it held stays
(`workspace_store_law_exceptions`). So no way to a scratch directory may lead through a workspace.
-/

namespace StageLens.Workspace

open StageLens.Host (followFrom linkLimit)

/-- What disposing of a workspace does to the store `σ`, which becomes `τ`. -/
structure Removes (σ : Store) (o : Opened) (τ : Store) : Prop where
  /-- What was written through the workspace goes, and nothing else does. -/
  written : ∀ q, τ.host.tree.get? q = if q ∈ o.written then none else σ.host.tree.get? q
  gone : τ.host.exists? o.workspace.path = false
  others : ∀ o', o' ∈ τ.opened ↔ o' ∈ σ.opened ∧ o'.workspace ≠ o.workspace

/-- One of the operations makes a workspace under a scratch directory whose path has the name. -/
def Roots (ops : List Operation) (name : Bytes) : Prop :=
  ∃ number root source, .create number (some root) source ∈ ops ∧ name ∈ Path.parts root

/-- What holds of a store after these operations, on a host that was `h₀` at first. -/
structure Lawful (h₀ : Host) (ops : List Operation) (σ : Store) : Prop where
  /-- A directory lists what it listed at first, what was made of scratch directories that were
  missing, and the workspaces that are open directly under it. -/
  listed : ∀ D, σ.Outside D → ∀ name, name ∈ σ.host.tree.names D ↔
    name ∈ h₀.tree.names D ∨ D ++ [name] ∈ σ.scaffold ∨
      ∃ o ∈ σ.opened, o.workspace.place = D ++ [name]
  /-- Scaffold are new directories, of the names in the paths of scratch directories. -/
  scaffold : ∀ q ∈ σ.scaffold, h₀.tree.get? q = none ∧ σ.host.tree.get? q = some .directory ∧
    ∃ name, q.getLast? = some name ∧ Roots ops name
  /-- No workspace holds what was there at first or was made for a scratch directory. -/
  outside : ∀ q, (h₀.tree.get? q).isSome ∨ q ∈ σ.scaffold → σ.Outside q
  /-- An open workspace is a directory under its scratch directory, with a name that is new. -/
  lodged : ∀ o ∈ σ.opened, ∃ n D,
    followFrom σ.host.tree true linkLimit [] (Path.parts o.directory) = .ok (.there D .directory) ∧
      σ.Outside D ∧ o.workspace.place = D ++ [nameOf n] ∧ nameOf n ∉ h₀.tree.names D ∧
      o.workspace.place ∉ σ.scaffold ∧ σ.host.isDirectory o.workspace.path = true
  distinct : σ.opened.Pairwise fun o o' =>
    o.workspace.path ≠ o'.workspace.path ∧ o.workspace.place ≠ o'.workspace.place
  /-- A source is what it was made with until the workspace itself overwrites it. -/
  sources : ∀ o ∈ σ.opened, o.replaced = false →
    σ.host.read o.workspace.sourcePath = .ok (Text.bytes o.source)
  /-- A workspace holds what was written through it. -/
  holds : ∀ o ∈ σ.opened, ∀ q,
    q ∈ o.written ↔ o.workspace.place <+: q ∧ (σ.host.tree.get? q).isSome
  /-- Everything else is as it was. -/
  unchanged : ∀ q, σ.Outside q → q ∉ σ.scaffold → σ.host.tree.get? q = h₀.tree.get? q
  removes : ∀ o ∈ σ.opened, Removes σ o (σ.perform (.close o.workspace)) ∧
    Removes σ o (σ.perform (.drop o.workspace))
  /-- A workspace that cannot be made leaves nothing but what was made of its scratch directory. -/
  undone : ∀ number scratchRoot source f h',
    create (σ.host.numbered number) scratchRoot source = (.error f, h') →
      Undone scratchRoot (σ.host.numbered number) h' ∧
      (σ.perform (.create number scratchRoot source)).host = h' ∧
      (σ.perform (.create number scratchRoot source)).opened = σ.opened

variable {σ : Store} {h₀ : Host} {o o' : Opened} {q D : Place} {name : Bytes}

namespace Sound

theorem listed (hσ : Sound h₀ σ) (hD : σ.Outside D) : name ∈ σ.host.tree.names D ↔
    name ∈ h₀.tree.names D ∨ D ++ [name] ∈ σ.scaffold ∨
      ∃ o ∈ σ.opened, o.workspace.place = D ++ [name] := by
  rw [Tree.mem_names_iff, Tree.mem_names_iff]
  by_cases hout : σ.Outside (D ++ [name])
  · have hnone : ¬ ∃ o ∈ σ.opened, o.workspace.place = D ++ [name] := by
      rintro ⟨o, ho, hplace⟩
      exact hout o ho (hplace ▸ List.prefix_rfl)
    rw [hσ.outside _ hout]
    by_cases hmem : D ++ [name] ∈ σ.scaffold
    · simp [hmem]
    · rw [if_neg hmem]
      simp only [hmem, hnone, or_false]
  · -- The place is in a workspace and its directory is not: it is that of the workspace.
    obtain ⟨o, ho, hplace⟩ : ∃ o ∈ σ.opened, o.workspace.place <+: D ++ [name] := by
      unfold Store.Outside at hout
      push Not at hout
      exact hout
    rw [List.prefix_concat_iff] at hplace
    have heq := hplace.resolve_right (hD o ho)
    have hmade := (hσ.lodged o ho).made
    rw [heq] at hmade
    rw [hmade]
    exact ⟨fun _ => .inr (.inr ⟨o, ho, heq⟩), fun _ => rfl⟩

/-- No workspace holds what was there before it. -/
theorem outside_of_isSome (ht₀ : h₀.tree.Proper) (hσ : Sound h₀ σ)
    (hq : (h₀.tree.get? q).isSome) : σ.Outside q := by
  intro o ho hprefix
  rw [ht₀.get?_eq_none (hσ.fresh o ho) hprefix] at hq
  cases hq

theorem isDirectory (hσ : Sound h₀ σ) (ho : o ∈ σ.opened) :
    σ.host.isDirectory o.workspace.path = true := by
  unfold Host.isDirectory Host.node? Host.find
  rw [(hσ.lodged o ho).locate true hσ.proper]
  rfl

/-- Workspaces at different places have different paths. -/
theorem path_ne (hσ : Sound h₀ σ) (ho : o ∈ σ.opened) (ho' : o' ∈ σ.opened)
    (hne : o.workspace.place ≠ o'.workspace.place) : o.workspace.path ≠ o'.workspace.path := by
  intro hpath
  have hplace := (hσ.lodged o ho).locate true hσ.proper
  rw [hpath, (hσ.lodged o' ho').locate true hσ.proper] at hplace
  simp only [Except.ok.injEq, Tree.Reached.there.injEq, and_true] at hplace
  exact hne hplace.symm

theorem read (hσ : Sound h₀ σ) (ho : o ∈ σ.opened) (hkept : o.replaced = false) :
    σ.host.read o.workspace.sourcePath = .ok (Text.bytes o.source) := by
  have hlodged := hσ.lodged o ho
  obtain ⟨n, D, node, hpath, hplace, hup, hfound⟩ := hlodged.named
  have hstands : Stands σ.host.tree o.directory D o.workspace o.source :=
    ⟨⟨n, hpath, hplace, hup⟩, ⟨node, hfound⟩, fun q hq => hσ.clear o ho q hq o ho, hlodged.made,
      hlodged.source hkept, hlodged.noNul, hlodged.short⟩
  exact hstands.read hlodged.absolute hσ.proper

/-- A workspace that is disposed of goes with what was written through it. -/
theorem removes (hσ : Sound h₀ σ) (ho : o ∈ σ.opened) :
    Removes σ o (σ.without o.workspace) := by
  have hlodged := hσ.lodged o ho
  have hget := hlodged.get?_without hσ.proper
  constructor
  case written =>
    intro q
    have hwritten := hlodged.written q
    rw [hget]
    by_cases hin : o.workspace.place <+: q
    · rw [if_pos hin]
      cases hq : σ.host.tree.get? q with
      | none => simp
      | some m =>
        have hmem : q ∈ o.written := hwritten.mpr ⟨hin, by simp [hq]⟩
        simp [hmem]
    · have hnot : q ∉ o.written := by
        intro hmem
        exact hin (hwritten.mp hmem).1
      simp [hin, hnot]
  case gone =>
    -- No workspace is on its own way, so that its scratch directory is found as before.
    have hway : ∀ q ∈ o.way σ.host.tree,
        (σ.without o.workspace).host.tree.get? q = σ.host.tree.get? q := by
      intro q hq
      rw [hget, if_neg (hσ.clear o ho q hq o ho)]
    apply (hlodged.toAnchored.congr hway).1.exists?_eq_false
    rw [hget, if_pos List.prefix_rfl]
  case others =>
    intro o'
    show o' ∈ σ.opened.filter (·.workspace ≠ o.workspace) ↔ _
    simp

end Sound

/-! ## Scaffold -/

variable {op : Operation} {ops : List Operation}

/-- An operation makes scaffold only if it makes a workspace, of names in its scratch directory. -/
theorem mem_scaffold_perform (hq : q ∈ (σ.perform op).scaffold) :
    q ∈ σ.scaffold ∨ ∃ name, q.getLast? = some name ∧ Roots [op] name := by
  cases op with
  | create number scratchRoot source =>
    have hmem : q ∈ σ.scaffold ++ (σ.host.numbered number).tree.changed
        (prepareRoot (σ.host.numbered number) scratchRoot).2.tree := by
      unfold Store.perform at hq
      dsimp only at hq
      split at hq <;> exact hq
    rcases List.mem_append.mp hmem with hmem | hmem
    · exact .inl hmem
    · obtain ⟨hnone, hsome⟩ :=
        (grown_prepareRoot (σ.host.numbered number) scratchRoot).tree.mem_changed.mp hmem
      obtain ⟨m, hm⟩ := Option.isSome_iff_exists.mp hsome
      obtain ⟨-, name, hname, hlast⟩ := furnished_prepareRoot _ scratchRoot q m hnone hm
      cases scratchRoot with
      | none => cases hname
      | some root =>
        exact .inr ⟨name, hlast, number, root, source, List.mem_singleton.mpr rfl, hname⟩
  | write w name contents =>
    refine .inl ?_
    unfold Store.perform at hq
    dsimp only at hq
    split at hq <;> exact hq
  | _ => exact .inl hq

theorem Roots.mono {ops' : List Operation} (hsub : ops ⊆ ops') (hroots : Roots ops name) :
    Roots ops' name := by
  obtain ⟨number, root, source, hmem, hname⟩ := hroots
  exact ⟨number, root, source, hsub hmem, hname⟩

theorem mem_scaffold_run (hq : q ∈ (σ.run ops).scaffold) :
    q ∈ σ.scaffold ∨ ∃ name, q.getLast? = some name ∧ Roots ops name := by
  induction ops generalizing σ with
  | nil => exact .inl hq
  | cons op ops ih =>
    rcases ih hq with hq | ⟨name, hlast, hroots⟩
    · rcases mem_scaffold_perform hq with hq | ⟨name, hlast, hroots⟩
      · exact .inl hq
      · exact .inr ⟨name, hlast, hroots.mono (by simp)⟩
    · exact .inr ⟨name, hlast, hroots.mono (List.subset_cons_self op ops)⟩

/-! ## The law -/

theorem lawful_of_sound (ht₀ : h₀.tree.Proper) (hσ : Sound h₀ σ)
    (hscaffold : ∀ q ∈ σ.scaffold, ∃ name, q.getLast? = some name ∧ Roots ops name) :
    Lawful h₀ ops σ where
  listed := fun D hD name => hσ.listed hD
  scaffold := by
    intro q hq
    obtain ⟨hnone, hout⟩ := hσ.scaffold q hq
    exact ⟨hnone, by rw [hσ.outside q hout, if_pos hq], hscaffold q hq⟩
  outside := fun q hq => hq.elim (hσ.outside_of_isSome ht₀) fun hmem => (hσ.scaffold q hmem).2
  lodged := by
    intro o ho
    obtain ⟨n, D, hplace, hD, hfound⟩ := hσ.outside_directory ho
    refine ⟨n, D, hfound, hD, hplace, ?_, ?_, hσ.isDirectory ho⟩
    · rw [Tree.mem_names_iff, ← hplace, hσ.fresh o ho]
      simp
    · intro hmem
      exact (hσ.scaffold _ hmem).2 o ho List.prefix_rfl
  distinct := hσ.distinct.imp_of_mem fun ho ho' hne => ⟨hσ.path_ne ho ho' hne, hne⟩
  sources := fun o ho hkept => hσ.read ho hkept
  holds := fun o ho => (hσ.lodged o ho).written
  unchanged := fun q hq hnot => by rw [hσ.outside q hq, if_neg hnot]
  removes := fun o ho => ⟨hσ.removes ho, hσ.removes ho⟩
  undone := by
    intro number scratchRoot source f h' hcreate
    refine ⟨undone_of_create_error hσ.proper hcreate, ?_, ?_⟩
    · unfold Store.perform
      dsimp only
      rw [hcreate]
    · unfold Store.perform
      dsimp only
      rw [hcreate]

/-- **The law of the store.** Whatever is done with any number of workspaces, on a host whose
working directory is in place, it holds at every point. -/
theorem workspace_store_law (ht₀ : h₀.tree.Proper) (hin : h₀.InPlace)
    (hallows : Store.AllowsAll ⟨h₀, [], []⟩ ops) :
    Lawful h₀ ops (Store.run ⟨h₀, [], []⟩ ops) := by
  apply lawful_of_sound ht₀ (sound_run ht₀ (.start ht₀ hin) hallows)
  intro q hq
  -- There is no scaffold to begin with.
  rcases mem_scaffold_run hq with hq | hnamed
  · cases hq
  · exact hnamed

/-! ## Workspaces in nested directories -/

/-- The place of a path that is written with slashes. -/
def placeOf (path : String) : Place := Path.parts (Text.bytes path)

/-- A host with a directory and a file in it, where it works. -/
def shelf : Host where
  tree := ⟨[(placeOf "/s", .directory), (placeOf "/s/notes", .file [] false)]⟩
  cwd := placeOf "/s"

/-- The workspace of that number under a scratch directory. -/
def shelved (root : String) (n : Nat) : Workspace := numbered (Text.bytes root) (placeOf root) n

/-- Two workspaces are made, one under a relative scratch directory that is missing. A third cannot
be made under a file. Both are written to, the second over its source, and one is closed. -/
def shelving : List Operation :=
  [.create 0 (some (Text.bytes "/s")) "let a = 1",
    .create 1 (some (Text.bytes "deep/root")) "let b = 1",
    .create 2 (some (Text.bytes "/s/notes/x")) "let c = 1",
    .makeDirectories (shelved "/s" 0) (Text.bytes "out"),
    .write (shelved "/s" 0) (Text.bytes "out/../out/main.o") [1],
    .write (shelved "/s/deep/root" 1) (Text.bytes "./main.swift") [2],
    .close (shelved "/s/deep/root" 1)]

theorem workspace_store_law_nested :
    (shelf.tree.Proper ∧ shelf.InPlace ∧ Store.AllowsAll ⟨shelf, [], []⟩ shelving) ∧
      Lawful shelf shelving (Store.run ⟨shelf, [], []⟩ shelving) ∧
      (Store.run ⟨shelf, [], []⟩ shelving).scaffold = [placeOf "/s/deep", placeOf "/s/deep/root"] ∧
      (Store.run ⟨shelf, [], []⟩ shelving).opened.map (·.written) =
        [[placeOf "/s/silscope-000000", placeOf "/s/silscope-000000/main.swift",
          placeOf "/s/silscope-000000/out", placeOf "/s/silscope-000000/out/main.o"]] := by
  have ht : shelf.tree.Proper := Tree.proper_of_entries (by decide +kernel)
  have hin : shelf.InPlace := by
    have hcwd : shelf.cwd = [Text.bytes "s"] := by decide +kernel
    refine ⟨fun name hname => ?_, by decide +kernel⟩
    rw [hcwd] at hname
    obtain rfl := List.mem_singleton.mp hname
    exact ⟨⟨by decide +kernel, by decide +kernel⟩, by decide +kernel⟩
  have hallows : Store.AllowsAll ⟨shelf, [], []⟩ shelving := by decide +kernel
  exact ⟨⟨ht, hin, hallows⟩, workspace_store_law ht hin hallows, by decide +kernel,
    by decide +kernel⟩

/-- A workspace is made under a scratch directory that has such a name itself and stands beside
another workspace; then it is closed. -/
def overlapping : List Operation :=
  [.create 0 (some (Text.bytes "/s")) "let a = 1",
    .create 1 (some (Text.bytes "/s/silscope-r")) "let b = 1",
    .close (shelved "/s/silscope-r" 1)]

/-- A scratch directory in one that has such a name itself and can be made, with a name that is too
long. -/
def overlong : Bytes :=
  Text.bytes "/s/silscope-r/" ++ List.replicate (Host.nameLimit + 1) 0x6E

/-- A scratch directory beside the first workspace, on a way that leads through that one. -/
def detour : Bytes := Text.bytes "/s/silscope-000000/../t"

/-- A workspace is made, and another one under a scratch directory to which the way leads through
the first. -/
def entangling : List Operation :=
  [.create 0 (some (Text.bytes "/s")) "let a = 1", .create 1 (some detour) "let b = 1"]

/-- The workspace whose path leads through the first one. -/
def entangled : Workspace := numbered detour (placeOf "/s/t") 1

/-- The scratch directory that was made for a workspace stays where it is listed beside the open
workspaces, also when the workspace could not be made. A workspace whose path leads through another
one outlives it without a path: its source is not read any more, and when it is closed as well it
stays where it is. -/
theorem workspace_store_law_exceptions :
    let listing := Store.run ⟨shelf, [], []⟩ overlapping
    let both := Store.run ⟨shelf, [], []⟩ entangling
    let later := both.perform (.close (shelved "/s" 0))
    let last := later.perform (.close entangled)
    (Store.AllowsAll ⟨shelf, [], []⟩ overlapping ∧
      listing.opened.map (·.workspace.place) = [placeOf "/s/silscope-000000"] ∧
      shelf.tree.names (placeOf "/s") = [Text.bytes "notes"] ∧
      listing.host.tree.names (placeOf "/s") =
        ["notes", "silscope-000000", "silscope-r"].map Text.bytes) ∧
    (Store.Allows ⟨shelf, [], []⟩ (.create 0 (some overlong) "let c = 1") ∧
      (create shelf (some overlong) "let c = 1").1 = .error ⟨.nameTooLong, none⟩ ∧
      (create shelf (some overlong) "let c = 1").2.tree.names (placeOf "/s") =
        ["notes", "silscope-r"].map Text.bytes) ∧
    ¬ Store.AllowsAll ⟨shelf, [], []⟩ entangling ∧
    both.opened.map (·.workspace) = [shelved "/s" 0, entangled] ∧
    both.host.find detour = .ok (.there (placeOf "/s/t") .directory) ∧
    both.Outside (placeOf "/s/t") ∧
    both.host.read entangled.sourcePath = .ok (Text.bytes "let b = 1") ∧
    later.opened.map (·.workspace) = [entangled] ∧
    later.host.read entangled.sourcePath = .error .notFound ∧
    last.opened = [] ∧
    last.host.tree.names (placeOf "/s/t") = [Text.bytes "silscope-000001"] ∧
    last.host.read (Text.bytes "/s/t/silscope-000001/main.swift") =
      .ok (Text.bytes "let b = 1") := by
  decide +kernel

end StageLens.Workspace
