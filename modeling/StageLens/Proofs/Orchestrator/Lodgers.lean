import StageLens.Proofs.Lists
import StageLens.Proofs.Orchestrator.Homes

/-!
# Who lodges in the directory of the workspaces

From the first workspace on, the directory lists what it has of its own, and then one name for each
call under way, in the order of the calls (`State.Lodges`): a call that comes is listed last, and a
call that has its response or whose caller has gone is listed no more. So when no call is under way
the directory lists what it did before (`listed_of_reachable`).
-/

namespace StageLens.Orchestrator

open StageLens.Workspace (Stands scratchDirectory nameOf)
open StageLens.Host (followFrom linkLimit)

/-- A runner that leaves the list of the workspaces and the working directory as they are. What it
does inside workspaces or elsewhere is its own affair. -/
structure KeepsDirectories (scratchRoot : Option Bytes) (runner : Runner) : Prop where
  listed : ∀ i h, h.tree.Proper → (runner i h).host.entries (scratchDirectory h scratchRoot) =
    h.entries (scratchDirectory h scratchRoot)
  cwd : ∀ i h, h.tree.Proper → (runner i h).host.cwd = h.cwd
  there : ∀ i h, h.tree.Proper → (runner i h).host.tree.get? h.cwd = h.tree.get? h.cwd

/-- A runner that changes no file leaves the directories as they are. -/
theorem keepsDirectories_of_host_eq {scratchRoot : Option Bytes} {runner : Runner}
    (h : ∀ i host, (runner i host).host = host) : KeepsDirectories scratchRoot runner where
  listed := fun i host _ => by rw [h]
  cwd := fun i host _ => by rw [h]
  there := fun i host _ => by rw [h]

/-- The name of the workspace of a call under way. -/
def Phase.lodger? : Phase → Option Bytes
  | .running w _ => w.place.getLast?
  | _ => none

/-- The names of the workspaces of the calls under way, in the order of the calls. -/
def State.lodgers (σ : State) : List Bytes := σ.calls.filterMap fun c => c.phase.lodger?

/-- The working directory is in place, and no workspace holds it. -/
structure State.Grounded (σ : State) : Prop where
  inPlace : σ.host.InPlace
  outside : ∀ n c w progress, σ.Runs n c w progress → ¬ w.place <+: σ.host.cwd

/-- The directory of the workspaces is `D`, which lists these names of its own and then those of the
workspaces. -/
structure State.Lodges (dir : Bytes) (D : Place) (base : List Bytes) (σ : State) : Prop where
  path : dir.contains 0 = false ∧ dir.length ≤ Host.pathLimit
  found : followFrom σ.host.tree true linkLimit [] (Path.parts dir) = .ok (.there D .directory)
  names : σ.host.tree.names D = base ++ σ.lodgers
  apart : ∀ name ∈ base, name ∉ σ.lodgers

variable {s : Settings} {runner : Runner} {first σ τ : State} {m : Move} {dir : Bytes}
variable {n : Nat} {c : Call} {w : Workspace} {progress : Stage → Progress}
variable {D : Place} {base : List Bytes} {name : Bytes}

/-! ## Lodgers -/

theorem lodgers_congr (hcalls : τ.calls = σ.calls) : τ.lodgers = σ.lodgers := by
  unfold State.lodgers
  rw [hcalls]

theorem lodgers_append {p : Phase} {r : Request} (hcalls : τ.calls = σ.calls ++ [⟨r, p⟩]) :
    τ.lodgers = σ.lodgers ++ p.lodger?.toList := by
  unfold State.lodgers
  rw [hcalls, List.filterMap_append]
  cases hp : p.lodger? <;> simp [hp]

/-- A call that goes on keeps its workspace. -/
theorem lodgers_of_running {progress' : Stage → Progress} (h : σ.Runs n c w progress)
    (hcalls : τ.calls = σ.callsWith n c (.running w progress')) : τ.lodgers = σ.lodgers := by
  unfold State.lodgers
  rw [hcalls]
  refine List.filterMap_set_of_eq h.call ?_
  rw [h.phase]
  rfl

/-- A call that ends lodges no more. -/
theorem lodgers_of_end {p : Phase} (h : σ.Runs n c w progress) (hp : p.lodger? = none)
    (hname : w.place.getLast? = some name) (hcalls : τ.calls = σ.callsWith n c p)
    (hothers : ∀ n' c' w' progress', n' ≠ n → σ.Runs n' c' w' progress' →
      w'.place.getLast? ≠ some name) : τ.lodgers = σ.lodgers.filter (· ≠ name) := by
  unfold State.lodgers
  rw [hcalls]
  refine List.filterMap_set_of_none h.call ?_ hp fun j c' hj hc' hlodger => ?_
  · rw [h.phase]
    exact hname
  · cases hphase : c'.phase with
    | running w' progress' =>
      rw [hphase] at hlodger
      exact hothers j c' w' progress' hj ⟨hc', hphase⟩ hlodger
    | returned a => rw [hphase] at hlodger; cases hlodger
    | dropped => rw [hphase] at hlodger; cases hlodger

theorem lodgers_eq_nil (h : ∀ n c w progress, ¬ σ.Runs n c w progress) : σ.lodgers = [] := by
  unfold State.lodgers
  rw [List.filterMap_eq_nil_iff]
  intro c hc
  obtain ⟨n, hn⟩ := List.getElem?_of_mem hc
  cases hphase : c.phase with
  | running w progress => exact absurd ⟨hn, hphase⟩ (h n c w progress)
  | returned a => rfl
  | dropped => rfl

/-- A call under way lodges at the place of its workspace. -/
theorem mem_lodgers (hr : σ.Runs n c w progress) (hname : w.place.getLast? = some name) :
    name ∈ σ.lodgers := by
  refine List.mem_filterMap.mpr ⟨c, List.mem_of_getElem? hr.call, ?_⟩
  rw [hr.phase]
  exact hname

theorem lodgers_ne_nil (hhoused : σ.Housed s dir) (hr : σ.Runs n c w progress) :
    σ.lodgers ≠ [] := by
  obtain ⟨E, hw⟩ := hhoused.stands n c w progress hr
  obtain ⟨k, -, hplace, -⟩ := hw.named
  have hlast : w.place.getLast? = some (nameOf k) := by
    rw [hplace, List.getLast?_concat]
  exact List.ne_nil_of_mem (mem_lodgers hr hlast)

/-! ## The working directory stays -/

theorem grounded_of_rule (hkeeps : KeepsDirectories s.scratchRoot runner) (h : Rule s runner σ m τ)
    (hhoused : σ.Housed s dir) (hσ : σ.Grounded) : τ.Grounded := by
  have hcwd : τ.host.cwd = σ.host.cwd ∧
      τ.host.tree.get? σ.host.cwd = some .directory := by
    cases hostChange_of_rule h with
    | same hhost =>
      rw [hhost]
      exact ⟨rfl, hσ.inPlace.there⟩
    | made r _ hhost =>
      have hgrown := (Workspace.create_spec hhoused.proper s.scratchRoot r.source).1
      rw [← hhost] at hgrown
      exact ⟨hgrown.cwd, hgrown.tree _ _ hσ.inPlace.there⟩
    | ran i hhost =>
      rw [hhost, hkeeps.cwd i _ hhoused.proper, hkeeps.there i _ hhoused.proper]
      exact ⟨rfl, hσ.inPlace.there⟩
    | removed i c w progress hr hhost _ =>
      obtain ⟨E, hw⟩ := hhoused.stands i c w progress hr
      rw [hhost, hw.get?_dispose hhoused.isAbsolute hhoused.proper,
        if_neg (hσ.outside i c w progress hr), hσ.inPlace.there]
      exact ⟨Workspace.cwd_dispose w σ.host, rfl⟩
  obtain ⟨hsame, hthere⟩ := hcwd
  refine ⟨⟨fun name hname => hσ.inPlace.names name (hsame ▸ hname), by rw [hsame, hthere]⟩, ?_⟩
  intro n c w progress hr hprefix
  rw [hsame] at hprefix
  rcases (runs_of_rule h hr).before with ⟨c', before, -, hr'⟩ | ⟨-, hcreate⟩
  · exact hσ.outside n c' w before hr' hprefix
  · -- A workspace is made where nothing was, and the working directory was there.
    have hspec := (Workspace.create_spec hhoused.proper s.scratchRoot c.request.source).2
    rw [hcreate] at hspec
    have hnone := hhoused.proper.get?_eq_none (hspec w rfl).1 hprefix
    rw [hσ.inPlace.there] at hnone
    cases hnone

/-! ## What a move does to the list -/

variable {c' : Call} {w' : Workspace} {progress' : Stage → Progress}

/-- The places of workspaces are in the directory that is found. -/
theorem place_eq_of_housed (hhoused : σ.Housed s dir)
    (hfound : followFrom σ.host.tree true linkLimit [] (Path.parts dir) = .ok (.there D .directory))
    (hr : σ.Runs n c w progress) : ∃ k, w.place = D ++ [nameOf k] := by
  obtain ⟨E, hw⟩ := hhoused.stands n c w progress hr
  obtain ⟨k, -, hplace, -⟩ := hw.named
  obtain ⟨node, hE⟩ := hw.found
  rw [hfound] at hE
  cases hE
  exact ⟨k, hplace⟩

theorem lodges_of_run (hspares : SparesWorkspaces s.scratchRoot runner)
    (hkeeps : KeepsDirectories s.scratchRoot runner) (hhoused : σ.Housed s dir)
    (hr : σ.Runs n c w progress) (hσ : σ.Lodges dir D base) (i : Invocation)
    (hhost : τ.host = (runner i σ.host).host) (hlodgers : τ.lodgers = σ.lodgers) :
    τ.Lodges dir D base := by
  obtain ⟨E, hw⟩ := hhoused.stands n c w progress hr
  obtain ⟨k, hpath, -, -⟩ := hw.named
  obtain ⟨hway, -, -⟩ := hw.way hhoused.isAbsolute hhoused.proper
  have hsame : ∀ q ∈ σ.host.way w.sourcePath,
      (runner i σ.host).host.tree.get? q = σ.host.tree.get? q := by
    have := hspares.way i _ hhoused.proper k
    rw [hhoused.directory, sourceOf, ← hpath] at this
    exact this
  have hfound : followFrom τ.host.tree true linkLimit [] (Path.parts dir) =
      .ok (.there D .directory) := by
    rw [hhost, (Host.followFrom_congr fun q hq => hsame q (hway q hq)).1]
    exact hσ.found
  have hproper : τ.host.tree.Proper := by
    rw [hhost]
    exact hspares.proper i _ hhoused.proper
  have hlisted : τ.host.entries dir = σ.host.entries dir := by
    rw [hhost, ← hhoused.directory]
    exact hkeeps.listed i _ hhoused.proper
  refine ⟨hσ.path, hfound, ?_, by rw [hlodgers]; exact hσ.apart⟩
  rw [(Host.entries_eq_ok_iff hhoused.proper hhoused.isAbsolute).mpr ⟨hσ.path, D, hσ.found, rfl⟩,
    Host.entries_eq_ok_iff hproper hhoused.isAbsolute] at hlisted
  obtain ⟨-, E', hE', hnames⟩ := hlisted
  rw [hfound] at hE'
  cases hE'
  rw [← hnames, hσ.names, hlodgers]

theorem lodges_of_dispose {p : Phase} (hhoused : σ.Housed s dir) (hr : σ.Runs n c w progress)
    (hσ : σ.Lodges dir D base) (hp : p.lodger? = none) (hhost : τ.host = w.dispose σ.host)
    (hcalls : τ.calls = σ.callsWith n c p) : τ.Lodges dir D base := by
  obtain ⟨E, hw⟩ := hhoused.stands n c w progress hr
  obtain ⟨k, hplace⟩ := place_eq_of_housed hhoused hσ.found hr
  have hlast : w.place.getLast? = some (nameOf k) := by
    rw [hplace, List.getLast?_concat]
  have hlodgers : τ.lodgers = σ.lodgers.filter (· ≠ nameOf k) := by
    refine lodgers_of_end hr hp hlast hcalls fun n' c' w' progress' hne hr' hlast' => ?_
    obtain ⟨k', hplace'⟩ := place_eq_of_housed hhoused hσ.found hr'
    rw [hplace', List.getLast?_concat] at hlast'
    refine hhoused.apart n' n c' c w' w progress' progress hr' hr hne ?_
    rw [hplace, hplace', Option.some.inj hlast']
  have hmem : nameOf k ∈ σ.lodgers := mem_lodgers hr hlast
  refine ⟨hσ.path, ?_, ?_, fun name hname hin => ?_⟩
  · rw [hhost, ← hσ.found]
    refine (Host.followFrom_congr fun q hq => ?_).1
    rw [hw.get?_dispose hhoused.isAbsolute hhoused.proper, if_neg (hw.apart q hq)]
  · rw [hhost, hw.dispose_eq hhoused.isAbsolute hhoused.proper, hlodgers]
    show (σ.host.tree.remove w.place).names D = _
    rw [hplace, Tree.names_remove_child, hσ.names, List.filter_append]
    congr 1
    rw [List.filter_eq_self]
    intro name hname
    have hne : name ≠ nameOf k := fun he => hσ.apart name hname (he ▸ hmem)
    simpa using hne
  · rw [hlodgers, List.mem_filter] at hin
    exact hσ.apart name hname hin.1

/-- A new call that finds a workspace is listed last, in a directory that may be new too. -/
theorem lodges_of_create {r : Request} (hhoused : σ.Housed s dir)
    (hcreate : Workspace.create σ.host s.scratchRoot r.source = (.ok w, τ.host))
    (hcalls : τ.calls = σ.calls ++ [⟨r, .running w fun _ => .fresh⟩]) :
    (σ.lodgers = [] → ∃ D base, τ.Lodges dir D base) ∧
      ∀ D base, σ.Grounded → σ.Lodges dir D base → τ.Lodges dir D base := by
  have hspec := (Workspace.create_spec hhoused.proper s.scratchRoot r.source).2
  rw [hcreate, hhoused.directory] at hspec
  obtain ⟨-, E, hw⟩ := hspec w rfl
  obtain ⟨D, k, base, hfound, hplace, hnotin, hnames, hbefore⟩ :=
    Workspace.names_of_create hhoused.proper hcreate
  rw [hhoused.directory] at hfound hbefore
  have hlodgers : τ.lodgers = σ.lodgers ++ [nameOf k] := by
    rw [lodgers_append hcalls]
    show σ.lodgers ++ w.place.getLast?.toList = _
    rw [hplace, List.getLast?_concat]
    rfl
  refine ⟨fun hnil => ?_, fun E own hgrounded hσ => ?_⟩
  · rw [hnil, List.nil_append] at hlodgers
    refine ⟨D, base, hw.path_ok, hfound, by rw [hnames, hlodgers], fun name hname hin => ?_⟩
    rw [hlodgers, List.mem_singleton] at hin
    exact hnotin (hin ▸ hname)
  · obtain ⟨rfl, hbase⟩ := hbefore E hσ.found hgrounded.inPlace
    rw [hσ.names] at hbase
    subst hbase
    refine ⟨hσ.path, hfound, by rw [hnames, hlodgers, List.append_assoc], fun name hname hin => ?_⟩
    rw [hlodgers, List.mem_append, List.mem_singleton] at hin
    rcases hin with hin | rfl
    · exact hσ.apart name hname hin
    · exact hnotin (List.mem_append_left _ hname)

/-- Every move leaves the directory with its own names and those of the calls under way. -/
theorem lodges_of_rule (hspares : SparesWorkspaces s.scratchRoot runner)
    (hkeeps : KeepsDirectories s.scratchRoot runner) (h : Rule s runner σ m τ)
    (hhoused : σ.Housed s dir) (hgrounded : σ.Grounded) (hσ : σ.Lodges dir D base) :
    τ.Lodges dir D base := by
  have hquiet : τ.host = σ.host → τ.lodgers = σ.lodgers → τ.Lodges dir D base := by
    intro hhost hlodgers
    refine ⟨hσ.path, by rw [hhost]; exact hσ.found, ?_, by rw [hlodgers]; exact hσ.apart⟩
    rw [hhost, hlodgers]
    exact hσ.names
  cases h with
  | submit r p _ hp _ _ _ hcalls =>
    generalize hhost : τ.host = host at hp
    cases hp with
    | invalid e _ =>
      refine hquiet hhost ?_
      rw [lodgers_append hcalls]
      exact List.append_nil _
    | homeless f _ _ hcreate =>
      have hgrown := (Workspace.create_spec hhoused.proper s.scratchRoot r.source).1
      rw [hcreate, ← hhost] at hgrown
      have hsome := Host.isSome_of_followFrom hhoused.proper rfl hσ.found
      have hlodgers : τ.lodgers = σ.lodgers := by
        rw [lodgers_append hcalls]
        exact List.append_nil _
      have hfound := hσ.found
      rw [← hhoused.directory] at hfound
      have hnames := Workspace.names_of_create_error hhoused.proper hgrounded.inPlace hfound hcreate
      refine ⟨hσ.path, ?_, ?_, by rw [hlodgers]; exact hσ.apart⟩
      · rw [(Host.followFrom_congr fun q hq => hgrown.tree.get? (hsome q hq)).1]
        exact hσ.found
      · rw [hhost, hnames, hlodgers]
        exact hσ.names
    | housed w _ _ hcreate =>
      rw [← hhost] at hcreate
      exact (lodges_of_create hhoused hcreate hcalls).2 D base hgrounded hσ
  | turn _ t c w progress launched p _ _ hr hturn _ _ hcalls =>
    have hlodgers : τ.lodgers = σ.lodgers := lodgers_of_running hr hcalls
    generalize hhost : τ.host = host at hturn
    generalize τ.gate = g at hturn
    generalize progress t.stage = before at hturn
    cases hturn with
    | wait _ _ _ _ => exact hquiet hhost hlodgers
    | reject _ _ _ _ => exact hquiet hhost hlodgers
    | begin _ _ _ _ => exact lodges_of_run hspares hkeeps hhoused hr hσ _ hhost hlodgers
    | breakDown _ _ _ => exact hquiet hhost hlodgers
    | filter _ _ _ _ => exact lodges_of_run hspares hkeeps hhoused hr hσ _ hhost hlodgers
    | complete _ _ _ _ => exact hquiet hhost hlodgers
    | filtered _ _ _ _ _ => exact hquiet hhost hlodgers
  | collect n c w progress results _ hr _ _ _ _ hhost hcalls =>
    exact lodges_of_dispose hhoused hr hσ rfl hhost hcalls
  | drop n c w progress _ hr _ _ _ hhost hcalls =>
    exact lodges_of_dispose hhoused hr hσ rfl hhost hcalls
  | hold _ _ _ _ _ _ hhost hcalls => exact hquiet hhost (lodgers_congr hcalls)
  | release _ _ _ _ hhost hcalls => exact hquiet hhost (lodgers_congr hcalls)
  | close _ _ _ _ hhost hcalls => exact hquiet hhost (lodgers_congr hcalls)

/-- The first call that finds a workspace is where the list begins. -/
theorem lodges_of_rule_of_nil (h : Rule s runner σ m τ) (hhoused : σ.Housed s dir)
    (hσ : σ.lodgers = []) : τ.lodgers = [] ∨ ∃ D base, τ.Lodges dir D base := by
  cases h with
  | submit r p _ hp _ _ _ hcalls =>
    generalize hhost : τ.host = host at hp
    cases hp with
    | invalid e _ =>
      left
      rw [lodgers_append hcalls, hσ]
      rfl
    | homeless f _ _ _ =>
      left
      rw [lodgers_append hcalls, hσ]
      rfl
    | housed w _ _ hcreate =>
      rw [← hhost] at hcreate
      exact .inr ((lodges_of_create hhoused hcreate hcalls).1 hσ)
  | turn _ t c w progress launched p _ _ hr _ _ _ _ =>
    exact absurd hσ (lodgers_ne_nil hhoused hr)
  | collect n c w progress results _ hr _ _ _ _ _ _ =>
    exact absurd hσ (lodgers_ne_nil hhoused hr)
  | drop n c w progress _ hr _ _ _ _ _ => exact absurd hσ (lodgers_ne_nil hhoused hr)
  | hold _ _ _ _ _ _ _ hcalls => exact .inl (by rw [lodgers_congr hcalls, hσ])
  | release _ _ _ _ _ hcalls => exact .inl (by rw [lodgers_congr hcalls, hσ])
  | close _ _ _ _ _ hcalls => exact .inl (by rw [lodgers_congr hcalls, hσ])

/-! ## What the moves lead to -/

theorem grounded_of_reachable {h : Host} (hstart : State.start? s h = some first)
    (ht : h.tree.Proper) (hin : h.InPlace) (hspares : SparesWorkspaces s.scratchRoot runner)
    (hkeeps : KeepsDirectories s.scratchRoot runner) (hσ : Reachable s runner first σ) :
    σ.Grounded := by
  induction hσ with
  | refl =>
    obtain ⟨g, -, rfl⟩ := Option.map_eq_some_iff.mp hstart
    exact ⟨hin, fun n c w progress hr => by cases hr.call⟩
  | step hσ hstep ih =>
    exact grounded_of_rule hkeeps (rule_of_step hstep)
      (housed_of_reachable hstart ht hspares hσ) ih

theorem lodges_of_reachable {h : Host} (hstart : State.start? s h = some first)
    (ht : h.tree.Proper) (hin : h.InPlace) (hspares : SparesWorkspaces s.scratchRoot runner)
    (hkeeps : KeepsDirectories s.scratchRoot runner) (hσ : Reachable s runner first σ) :
    σ.lodgers = [] ∨ ∃ D base, σ.Lodges (scratchDirectory h s.scratchRoot) D base := by
  induction hσ with
  | refl =>
    left
    unfold State.lodgers
    rw [calls_of_start hstart]
    rfl
  | step hσ hstep ih =>
    have hhoused := housed_of_reachable hstart ht hspares hσ
    rcases ih with hnil | ⟨D, base, hlodges⟩
    · exact lodges_of_rule_of_nil (rule_of_step hstep) hhoused hnil
    · have hgrounded := grounded_of_reachable hstart ht hin hspares hkeeps hσ
      exact .inr ⟨D, base, lodges_of_rule hspares hkeeps (rule_of_step hstep) hhoused hgrounded
        hlodges⟩

/-- The directory keeps its own entries, whatever moves follow. -/
theorem State.Lodges.of_reachable {h : Host} (hstart : State.start? s h = some first)
    (ht : h.tree.Proper) (hin : h.InPlace) (hspares : SparesWorkspaces s.scratchRoot runner)
    (hkeeps : KeepsDirectories s.scratchRoot runner) (hσ : Reachable s runner first σ)
    (hlodges : σ.Lodges (scratchDirectory h s.scratchRoot) D base)
    (hτ : Reachable s runner σ τ) : τ.Lodges (scratchDirectory h s.scratchRoot) D base := by
  induction hτ with
  | refl => exact hlodges
  | step hρ hstep ih =>
    have hρ' := hσ.trans hρ
    exact lodges_of_rule hspares hkeeps (rule_of_step hstep)
      (housed_of_reachable hstart ht hspares hρ')
      (grounded_of_reachable hstart ht hin hspares hkeeps hρ') ih

/-- **The directory of the workspaces keeps its own entries.** Whenever it is there, it lists its
own entries and then the workspaces of the calls under way, and whatever moves follow, its own
entries stay. -/
theorem listed_of_reachable {h : Host} (hstart : State.start? s h = some first)
    (ht : h.tree.Proper) (hin : h.InPlace) (hspares : SparesWorkspaces s.scratchRoot runner)
    (hkeeps : KeepsDirectories s.scratchRoot runner) (hσ : Reachable s runner first σ)
    {listed : List Bytes}
    (hlisted : σ.host.entries (scratchDirectory h s.scratchRoot) = .ok listed) :
    ∃ base, listed = base ++ σ.lodgers ∧ ∀ τ, Reachable s runner σ τ →
      τ.host.entries (scratchDirectory h s.scratchRoot) = .ok (base ++ τ.lodgers) := by
  have hhoused := housed_of_reachable hstart ht hspares hσ
  have habs := hhoused.isAbsolute
  obtain ⟨hpath, D, hfound, hnames⟩ :=
    (Host.entries_eq_ok_iff hhoused.proper habs).mp hlisted
  -- Before the first workspace the directory has nothing but its own entries.
  have hlodges : ∃ base, σ.Lodges (scratchDirectory h s.scratchRoot) D base := by
    rcases lodges_of_reachable hstart ht hin hspares hkeeps hσ with hnil | ⟨E, base, hE⟩
    · refine ⟨listed, hpath, hfound, by rw [hnil, List.append_nil, hnames], fun name _ hin => ?_⟩
      rw [hnil] at hin
      cases hin
    · have hsame := hE.found
      rw [hfound] at hsame
      cases hsame
      exact ⟨base, hE⟩
  obtain ⟨base, hbase⟩ := hlodges
  refine ⟨base, by rw [hnames, hbase.names], fun τ hτ => ?_⟩
  have hτlodges := hbase.of_reachable hstart ht hin hspares hkeeps hσ hτ
  have hproper := (housed_of_reachable hstart ht hspares (hσ.trans hτ)).proper
  rw [Host.entries_eq_ok_iff hproper habs]
  exact ⟨hpath, D, hτlodges.found, hτlodges.names.symm⟩

end StageLens.Orchestrator
