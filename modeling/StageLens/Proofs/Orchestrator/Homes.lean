import StageLens.Proofs.Orchestrator.Calls
import StageLens.Proofs.Workspace

/-!
# Calls have workspaces of their own

While a call is under way its workspace stands, and no two calls share one (`State.Housed`). This
holds for every runner that leaves the workspaces alone, whatever else it does to the host: what one
call makes or removes is not on the way to the workspace of another.
-/

namespace StageLens.Orchestrator

open StageLens.Workspace (Stands Vacant scratchDirectory nameOf sourceName)

/-- The path of the source in the workspace of that number. -/
def sourceOf (dir : Bytes) (n : Nat) : Bytes := Path.join (Path.join dir (nameOf n)) sourceName

/-- A runner that leaves workspaces alone: no run changes a place on the way to the source of a
workspace or moves the directory of the workspaces, and a file system stays one. -/
structure SparesWorkspaces (scratchRoot : Option Bytes) (runner : Runner) : Prop where
  proper : ∀ i h, h.tree.Proper → (runner i h).host.tree.Proper
  directory : ∀ i h, h.tree.Proper →
    scratchDirectory (runner i h).host scratchRoot = scratchDirectory h scratchRoot
  way : ∀ i h, h.tree.Proper → ∀ n, ∀ q ∈ h.way (sourceOf (scratchDirectory h scratchRoot) n),
    (runner i h).host.tree.get? q = h.tree.get? q

/-- A runner that leaves the sources of workspaces alone: no run changes a place on the way to the
source of a workspace that stands or moves the directory of the workspaces, and a file system stays
one. Other names in that directory are its own affair. -/
structure SparesSources (scratchRoot : Option Bytes) (runner : Runner) : Prop where
  proper : ∀ i h, h.tree.Proper → (runner i h).host.tree.Proper
  directory : ∀ i h, h.tree.Proper →
    scratchDirectory (runner i h).host scratchRoot = scratchDirectory h scratchRoot
  way : ∀ i h, h.tree.Proper → ∀ D w source,
    Stands h.tree (scratchDirectory h scratchRoot) D w source →
    ∀ q ∈ h.way w.sourcePath, (runner i h).host.tree.get? q = h.tree.get? q

/-- Whoever leaves all workspaces alone leaves the sources of those that stand alone. -/
theorem SparesWorkspaces.sparesSources {scratchRoot : Option Bytes} {runner : Runner}
    (h : SparesWorkspaces scratchRoot runner) : SparesSources scratchRoot runner where
  proper := h.proper
  directory := h.directory
  way := by
    intro i host ht D w source hw q hq
    obtain ⟨n, hpath, -, -⟩ := hw.named
    refine h.way i host ht n q ?_
    rw [sourceOf, ← hpath]
    exact hq

/-- A runner that changes no file leaves workspaces alone. -/
theorem sparesWorkspaces_of_host_eq {scratchRoot : Option Bytes} {runner : Runner}
    (h : ∀ i host, (runner i host).host = host) : SparesWorkspaces scratchRoot runner where
  proper := fun i host ht => by rwa [h]
  directory := fun i host _ => by rw [h]
  way := fun i host _ n q _ => by rw [h]

/-- The calls under way have workspaces that stand, each one its own. -/
structure State.Housed (s : Settings) (dir : Bytes) (σ : State) : Prop where
  proper : σ.host.tree.Proper
  directory : scratchDirectory σ.host s.scratchRoot = dir
  stands : ∀ n c w progress, σ.Runs n c w progress →
    ∃ D, Stands σ.host.tree dir D w c.request.source
  apart : ∀ n n' c c' w w' progress progress', σ.Runs n c w progress →
    σ.Runs n' c' w' progress' → n ≠ n' → w.place ≠ w'.place

variable {s : Settings} {runner : Runner} {first σ τ : State} {m : Move} {dir : Bytes}
variable {n : Nat} {c c' : Call} {w : Workspace} {progress progress' : Stage → Progress}

theorem State.Housed.isAbsolute (hσ : σ.Housed s dir) : Path.isAbsolute dir = true := by
  rw [← hσ.directory]
  exact Workspace.isAbsolute_scratchDirectory _ _

/-! ## What a move does to the host -/

/-- What becomes of the host: nothing, more than there was, a run, or less by one workspace. -/
inductive HostChange (s : Settings) (runner : Runner) (σ : State) (m : Move) (τ : State) : Prop
  | same : τ.host = σ.host → HostChange s runner σ m τ
  | made (r : Request) : m = .submit r →
      τ.host = (Workspace.create σ.host s.scratchRoot r.source).2 → HostChange s runner σ m τ
  | ran (i : Invocation) : τ.host = (runner i σ.host).host → HostChange s runner σ m τ
  | removed (i : Nat) (c : Call) (w : Workspace) (progress : Stage → Progress) :
      σ.Runs i c w progress → τ.host = w.dispose σ.host →
      (∀ n c' w' progress', τ.Runs n c' w' progress' → n ≠ i) → HostChange s runner σ m τ

theorem hostChange_of_rule (h : Rule s runner σ m τ) : HostChange s runner σ m τ := by
  cases h with
  | submit r p _ hp _ _ _ _ =>
    generalize hhost : τ.host = host at hp
    cases hp with
    | invalid _ _ => exact .same hhost
    | homeless f _ _ hcreate => exact .made r rfl (by rw [hcreate, hhost])
    | housed w _ _ hcreate => exact .made r rfl (by rw [hcreate, hhost])
  | turn _ t c w progress launched p _ _ _ hturn _ _ _ =>
    generalize hhost : τ.host = host at hturn
    generalize τ.gate = g at hturn
    generalize progress t.stage = before at hturn
    cases hturn with
    | wait _ _ _ _ => exact .same hhost
    | reject _ _ _ _ => exact .same hhost
    | begin _ _ _ _ => exact .ran _ hhost
    | breakDown _ _ _ => exact .same hhost
    | filter _ _ _ _ => exact .ran _ hhost
    | complete _ _ _ _ => exact .same hhost
    | filtered _ _ _ _ _ => exact .same hhost
  | collect i c w progress results _ hr _ _ _ _ hhost hcalls =>
    exact .removed i c w progress hr hhost fun n c' w' progress' hr' =>
      (origin_of_end (fun _ => rfl) hr hcalls hr').1
  | drop i c w progress _ hr _ _ _ hhost hcalls =>
    exact .removed i c w progress hr hhost fun n c' w' progress' hr' =>
      (origin_of_end (fun _ => rfl) hr hcalls hr').1
  | hold _ _ _ _ _ _ hhost _ => exact .same hhost
  | release _ _ _ _ hhost _ => exact .same hhost
  | close _ _ _ _ hhost _ => exact .same hhost

/-- A file system stays one, and the directory of the workspaces stays where it is. -/
theorem proper_of_rule (hspares : SparesSources s.scratchRoot runner)
    (h : Rule s runner σ m τ) (hσ : σ.Housed s dir) :
    τ.host.tree.Proper ∧ scratchDirectory τ.host s.scratchRoot = dir := by
  cases hostChange_of_rule h with
  | same hhost =>
    rw [hhost]
    exact ⟨hσ.proper, hσ.directory⟩
  | made r _ hhost =>
    have hgrown := (Workspace.create_spec hσ.proper s.scratchRoot r.source).1
    rw [← hhost] at hgrown
    refine ⟨hgrown.proper hσ.proper, ?_⟩
    rw [Workspace.scratchDirectory_congr hgrown.cwd hgrown.environment, hσ.directory]
  | ran i hhost =>
    rw [hhost]
    refine ⟨hspares.proper i _ hσ.proper, ?_⟩
    rw [hspares.directory i _ hσ.proper, hσ.directory]
  | removed i c w progress hr hhost _ =>
    obtain ⟨D, hw⟩ := hσ.stands i c w progress hr
    rw [hhost, hw.dispose_eq hσ.isAbsolute hσ.proper]
    exact ⟨hσ.proper.remove hw.place_ne_nil, hσ.directory⟩

/-- A workspace stands on while its call is under way. -/
theorem stands_of_rule (hspares : SparesSources s.scratchRoot runner)
    (h : Rule s runner σ m τ) (hσ : σ.Housed s dir) (hr : σ.Runs n c w progress)
    (hr' : τ.Runs n c' w progress') : ∃ D, Stands τ.host.tree dir D w c.request.source := by
  obtain ⟨D, hw⟩ := hσ.stands n c w progress hr
  refine ⟨D, ?_⟩
  cases hostChange_of_rule h with
  | same hhost =>
    rw [hhost]
    exact hw
  | made r _ hhost =>
    have hgrown := (Workspace.create_spec hσ.proper s.scratchRoot r.source).1
    rw [← hhost] at hgrown
    exact hw.grow hσ.proper hgrown.tree
  | ran i hhost =>
    obtain ⟨hway, hplace, hsource⟩ := hw.way hσ.isAbsolute hσ.proper
    have hsame : ∀ q ∈ σ.host.way w.sourcePath,
        (runner i σ.host).host.tree.get? q = σ.host.tree.get? q := by
      refine hspares.way i _ hσ.proper D w c.request.source ?_
      rw [hσ.directory]
      exact hw
    rw [hhost]
    exact hw.congr (fun q hq => hsame q (hway q hq)) (hsame _ hplace) (hsame _ hsource)
  | removed i c₂ w₂ progress₂ hr₂ hhost hgone =>
    obtain ⟨D₂, hw₂⟩ := hσ.stands i c₂ w₂ progress₂ hr₂
    have hne := hgone n c' w progress' hr'
    -- What is removed lies below the place of another workspace, and nothing of this one does.
    rw [hhost, hw₂.dispose_eq hσ.isAbsolute hσ.proper]
    exact hw.remove hw₂ (hσ.apart i n c₂ c w₂ w progress₂ progress hr₂ hr (Ne.symm hne))

/-- Every move leaves the calls under way in their workspaces. -/
theorem housed_of_rule (hspares : SparesSources s.scratchRoot runner)
    (h : Rule s runner σ m τ) (hσ : σ.Housed s dir) : τ.Housed s dir := by
  obtain ⟨hproper, hdirectory⟩ := proper_of_rule hspares h hσ
  -- A new workspace stands at a place where nothing was, so it is not that of another call.
  have hnew : ∀ (w : Workspace) (source : String),
      Workspace.create σ.host s.scratchRoot source = (.ok w, τ.host) →
      σ.host.tree.get? w.place = none ∧ ∃ D, Stands τ.host.tree dir D w source := by
    intro w source hcreate
    have hspec := (Workspace.create_spec hσ.proper s.scratchRoot source).2
    rw [hcreate, hσ.directory] at hspec
    exact hspec w rfl
  have hother : ∀ (i : Nat) (c : Call) (w : Workspace) (progress : Stage → Progress),
      σ.Runs i c w progress → ∀ w' : Workspace, σ.host.tree.get? w'.place = none →
      w.place ≠ w'.place := by
    intro i c w progress hr w' hnone he
    obtain ⟨D, hw⟩ := hσ.stands i c w progress hr
    rw [← he, hw.made] at hnone
    cases hnone
  refine ⟨hproper, hdirectory, ?_, ?_⟩
  · intro n c w progress hr
    rcases (runs_of_rule h hr).before with ⟨c', before, hreq, hr'⟩ | ⟨-, hcreate⟩
    · rw [← hreq]
      exact stands_of_rule hspares h hσ hr' hr
    · exact (hnew w _ hcreate).2
  · intro n n' c c' w w' progress progress' hr hr' hne
    rcases (runs_of_rule h hr).before with ⟨c₁, before, -, hσr⟩ | ⟨hn, hcreate⟩ <;>
      rcases (runs_of_rule h hr').before with ⟨c₂, before', -, hσr'⟩ | ⟨hn', hcreate'⟩
    · exact hσ.apart n n' c₁ c₂ w w' before before' hσr hσr' hne
    · exact hother n c₁ w before hσr w' (hnew w' _ hcreate').1
    · exact Ne.symm (hother n' c₂ w' before' hσr' w (hnew w _ hcreate).1)
    · exact absurd (hn.trans hn'.symm) hne

theorem housed_of_sparesSources {h : Host} (hstart : State.start? s h = some first)
    (ht : h.tree.Proper) (hspares : SparesSources s.scratchRoot runner)
    (hσ : Reachable s runner first σ) : σ.Housed s (scratchDirectory h s.scratchRoot) := by
  induction hσ with
  | refl =>
    obtain ⟨g, -, rfl⟩ := Option.map_eq_some_iff.mp hstart
    refine ⟨ht, rfl, fun n c w progress hr => ?_, fun n n' c c' w w' progress progress' hr => ?_⟩
    · cases hr.call
    · cases hr.call
  | step _ hstep ih => exact housed_of_rule hspares (rule_of_step hstep) ih

theorem housed_of_reachable {h : Host} (hstart : State.start? s h = some first)
    (ht : h.tree.Proper) (hspares : SparesWorkspaces s.scratchRoot runner)
    (hσ : Reachable s runner first σ) : σ.Housed s (scratchDirectory h s.scratchRoot) :=
  housed_of_sparesSources hstart ht hspares.sparesSources hσ

/-! ## Where a workspace was -/

/-- Where a workspace was removed nothing comes back without a new request. -/
theorem vacant_of_rule (hspares : SparesWorkspaces s.scratchRoot runner)
    (h : Rule s runner σ m τ) (hm : ∀ r, m ≠ .submit r) (hσ : σ.Housed s dir) {D p : Place}
    (hp : Vacant σ.host.tree dir D p) : Vacant τ.host.tree dir D p := by
  cases hostChange_of_rule h with
  | same hhost =>
    rw [hhost]
    exact hp
  | made r hr _ => exact absurd hr (hm r)
  | ran i hhost =>
    obtain ⟨k, hway, hplace⟩ := hp.way hσ.isAbsolute
    have hsame := hspares.way i _ hσ.proper k
    rw [hσ.directory, sourceOf] at hsame
    rw [hhost]
    exact hp.congr (fun q hq => hsame q (hway q hq)) (hsame _ hplace)
  | removed i c₁ w₁ before hr₁ hhost _ =>
    obtain ⟨E, hw₁⟩ := hσ.stands i c₁ w₁ before hr₁
    rw [hhost, hw₁.dispose_eq hσ.isAbsolute hσ.proper]
    exact hp.remove hw₁

/-- While there are no new requests, a call that is under way stays so, or the place of its
workspace is vacant. -/
theorem runs_or_vacant_of_rule (hspares : SparesWorkspaces s.scratchRoot runner)
    (h : Rule s runner σ m τ) (hm : ∀ r, m ≠ .submit r) (hσ : σ.Housed s dir)
    (hp : (∃ c progress, σ.Runs n c w progress) ∨ ∃ D, Vacant σ.host.tree dir D w.place) :
    (∃ c progress, τ.Runs n c w progress) ∨ ∃ D, Vacant τ.host.tree dir D w.place := by
  rcases hp with ⟨c, progress, hr⟩ | ⟨D, hvacant⟩
  · obtain ⟨D, hw⟩ := hσ.stands n c w progress hr
    have hremoved := hw.dispose_eq hσ.isAbsolute hσ.proper
    cases fate_of_rule h hr with
    | stays c' progress' _ _ _ hr' => exact .inl ⟨c', progress', hr'⟩
    | collected response _ hhost _ => exact .inr ⟨D, hhost.trans hremoved ▸ hw.vacant⟩
    | dropped _ hhost _ => exact .inr ⟨D, hhost.trans hremoved ▸ hw.vacant⟩
  · exact .inr ⟨D, vacant_of_rule hspares h hm hσ hvacant⟩

end StageLens.Orchestrator
