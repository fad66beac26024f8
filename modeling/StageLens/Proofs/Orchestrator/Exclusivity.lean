import StageLens.Proofs.Orchestrator.Invocations
import StageLens.Proofs.Workspace.Names

/-!
# Every call compiles its own source

A compiler runs in the workspace that was made for its request, and what it finds there is the
source of that request. The path of the workspace is never used for another call, neither while the
call is under way nor before or afterwards, as long as names that have been given out are not given
out again (`State.Apart`).
-/

namespace StageLens.Orchestrator

open StageLens.Workspace (scratchDirectory nameOf)

/-- No run takes back the names that have been given out. -/
def KeepsNames (runner : Runner) : Prop := ∀ i h, h.named ≤ (runner i h).host.named

/-- A call has a workspace of that path, or something has been run there for it. -/
inductive Uses (σ : State) (n : Nat) (path : Bytes) : Prop
  | runs (c : Call) (w : Workspace) (progress : Stage → Progress) : σ.Runs n c w progress →
      w.path = path → Uses σ n path
  | started (e : Start) : e ∈ σ.started → e.ticket.call = n →
      e.invocation.directory = some path → Uses σ n path

/-- The paths that calls use are those of names that have been given out, and each of them is used
for one call. -/
structure State.Apart (dir : Bytes) (σ : State) : Prop where
  named : ∀ n path, Uses σ n path → ∃ k < σ.host.named, path = Path.join dir (nameOf k)
  unshared : ∀ n n' path, Uses σ n path → Uses σ n' path → n' = n

/-- The result of a stage, once it is done. -/
def State.result? (σ : State) (t : Ticket) : Option StageResult :=
  (σ.calls[t.call]?).bind fun c => match c.phase with
    | .running _ progress => match progress t.stage with
      | .done result => some result
      | _ => none
    | .returned (.ok response) => response.get? t.stage
    | _ => none

/-- A host has a workspace with its source. -/
structure Holds (h : Host) (w : Workspace) (source : String) : Prop where
  directory : h.isDirectory w.path = true
  source : h.read w.sourcePath = .ok (Text.bytes source)

/-- A compiler runs at home: in the workspace of its own call, where it finds the source of its own
request. -/
structure AtHome (s : Settings) (runner : Runner) (first σ : State) (e : Start) (r : Request)
    (w : Workspace) : Prop where
  /-- The workspace was made for this request when its call came. -/
  lodged : ∃ ρ, Lodged s runner first σ r w e.ticket.call ρ
  directory : e.invocation.directory = some w.path
  /-- Nothing is ever run there for another call. -/
  exclusive : ∀ e' ∈ σ.started, e'.invocation.directory = some w.path →
    e'.ticket.call = e.ticket.call
  /-- No other call has a workspace of that path. -/
  unshared : ∀ n c w' progress, σ.Runs n c w' progress → w'.path = w.path → n = e.ticket.call
  /-- The source was there when the compiler was launched. -/
  launched : ∃ run υ, LaunchedAt s runner first σ r w e run υ ∧ Holds υ.host w r.source
  /-- The source is there as long as the compiler runs. -/
  active : ∀ run, σ.progress? e.ticket = some (.compiling run) → Holds σ.host w r.source
  /-- The result shows the command that was run. -/
  command : ∀ result, σ.result? e.ticket = some result →
    result.command = e.invocation.commandLine

variable {s : Settings} {runner : Runner} {first σ τ υ : State} {m : Move} {dir path : Bytes}
variable {n : Nat} {c : Call} {w : Workspace} {progress : Stage → Progress} {r : Request}
variable {e : Start}

/-! ## What a move adds to the paths in use -/

/-- What is started is the compiler of a call under way in its workspace, or a demangler. -/
theorem started_of_rule (h : Rule s runner σ m τ) (he : e ∈ τ.started) :
    e ∈ σ.started ∨ (∃ c w progress, σ.Runs e.ticket.call c w progress ∧
      e.invocation = compilation s c.request e.ticket.stage w) ∨ e.invocation.directory = none := by
  cases h with
  | turn _ t c w progress es p _ _ hr hturn _ hstarted _ =>
    rw [hstarted] at he
    rcases List.mem_append.mp he with he | he
    · right
      generalize τ.gate = g at hturn
      generalize τ.host = host at hturn
      generalize progress t.stage = before at hturn
      cases hturn with
      | begin _ _ _ _ =>
        obtain rfl := List.mem_singleton.mp he
        exact .inl ⟨c, w, progress, hr, rfl⟩
      | filter _ _ _ _ =>
        obtain rfl := List.mem_singleton.mp he
        exact .inr rfl
      | _ => cases he
    · exact .inl he
  | submit _ _ _ _ _ _ hstarted _ => exact .inl (hstarted ▸ he)
  | collect _ _ _ _ _ _ _ _ _ _ hstarted _ _ => exact .inl (hstarted ▸ he)
  | drop _ _ _ _ _ _ _ _ hstarted _ _ => exact .inl (hstarted ▸ he)
  | hold _ _ _ _ _ hstarted _ _ => exact .inl (hstarted ▸ he)
  | release _ _ _ hstarted _ _ => exact .inl (hstarted ▸ he)
  | close _ _ _ hstarted _ _ => exact .inl (hstarted ▸ he)

/-- A path comes into use only with the workspace of a new call. -/
theorem uses_of_rule (h : Rule s runner σ m τ) (hu : Uses τ n path) :
    Uses σ n path ∨ n = σ.calls.length ∧ ∃ w source, w.path = path ∧
      Workspace.create σ.host s.scratchRoot source = (.ok w, τ.host) := by
  cases hu with
  | runs c w progress hr hpath =>
    rcases (runs_of_rule h hr).before with ⟨c', before, -, hr'⟩ | ⟨hn, hcreate⟩
    · exact .inl (.runs c' w before hr' hpath)
    · exact .inr ⟨hn, w, c.request.source, hpath, hcreate⟩
  | started e he hcall hdirectory =>
    left
    rcases started_of_rule h he with he | ⟨c, w, progress, hr, hinvocation⟩ | hnone
    · exact .started e he hcall hdirectory
    · rw [hinvocation] at hdirectory
      rw [hcall] at hr
      exact .runs c w progress hr (Option.some.inj hdirectory)
    · rw [hnone] at hdirectory
      cases hdirectory

/-- Names that have been given out stay given out. -/
theorem named_le_of_rule (hkeeps : KeepsNames runner) (h : Rule s runner σ m τ)
    (hσ : σ.Housed s dir) : σ.host.named ≤ τ.host.named := by
  cases hostChange_of_rule h with
  | same hhost => rw [hhost]
  | made r _ hhost =>
    rw [hhost]
    exact (Workspace.create_spec hσ.proper s.scratchRoot r.source).1.named
  | ran i hhost =>
    rw [hhost]
    exact hkeeps i σ.host
  | removed _ _ _ _ _ hhost _ =>
    rw [hhost, Workspace.named_dispose]

theorem apart_of_rule (hkeeps : KeepsNames runner) (h : Rule s runner σ m τ)
    (hhoused : σ.Housed s dir) (hσ : σ.Apart dir) : τ.Apart dir := by
  have hle := named_le_of_rule hkeeps h hhoused
  -- The number of a new workspace is past all that are in use.
  have hnew : ∀ w source, Workspace.create σ.host s.scratchRoot source = (.ok w, τ.host) →
      ∃ k, σ.host.named ≤ k ∧ k < τ.host.named ∧ w.path = Path.join dir (nameOf k) := by
    intro w source hcreate
    obtain ⟨k, hge, hlt, hpath⟩ := Workspace.number_of_create hcreate
    rw [hhoused.directory] at hpath
    exact ⟨k, hge, hlt, hpath⟩
  have hfresh : ∀ n w source, Uses σ n w.path →
      Workspace.create σ.host s.scratchRoot source ≠ (.ok w, τ.host) := by
    intro n w source hu hcreate
    obtain ⟨k, hge, -, hpath⟩ := hnew w source hcreate
    obtain ⟨j, hlt, hpath'⟩ := hσ.named n _ hu
    rw [hpath] at hpath'
    have hsame := Workspace.join_nameOf_injective hhoused.isAbsolute hpath'
    omega
  constructor
  · intro n path hu
    rcases uses_of_rule h hu with hu | ⟨-, w, source, rfl, hcreate⟩
    · obtain ⟨k, hlt, hpath⟩ := hσ.named n path hu
      exact ⟨k, by omega, hpath⟩
    · obtain ⟨k, -, hlt, hpath⟩ := hnew w source hcreate
      exact ⟨k, hlt, hpath⟩
  · intro n n' path hu hu'
    rcases uses_of_rule h hu with hu | ⟨hn, w, source, hpath, hcreate⟩ <;>
      rcases uses_of_rule h hu' with hu' | ⟨hn', w', source', hpath', hcreate'⟩
    · exact hσ.unshared n n' path hu hu'
    · exact absurd hcreate' (hfresh n w' source' (hpath' ▸ hu))
    · exact absurd hcreate (hfresh n' w source (hpath ▸ hu'))
    · exact hn'.trans hn.symm

/-- **No two calls use one path**, in any state that moves lead to. -/
theorem apart_of_reachable {h : Host} (hstart : State.start? s h = some first)
    (ht : h.tree.Proper) (hspares : SparesSources s.scratchRoot runner)
    (hkeeps : KeepsNames runner) (hσ : Reachable s runner first σ) :
    σ.Apart (scratchDirectory h s.scratchRoot) := by
  induction hσ with
  | refl =>
    obtain ⟨g, -, rfl⟩ := Option.map_eq_some_iff.mp hstart
    have hnone : ∀ (n : Nat) (path : Bytes),
        ¬ Uses { gate := g, host := h, journal := s.report } n path := by
      intro n path hu
      cases hu with
      | runs c w progress hr _ => cases hr.call
      | started e he _ _ => cases he
    exact ⟨fun n path hu => absurd hu (hnone n path),
      fun n n' path hu _ => absurd hu (hnone n path)⟩
  | step hσ hstep ih =>
    exact apart_of_rule hkeeps (rule_of_step hstep)
      (housed_of_sparesSources hstart ht hspares hσ) ih

/-! ## What a compiler finds -/

/-- A call that is under way has its workspace with its source. -/
theorem State.Housed.holds (hσ : σ.Housed s dir) (hr : σ.Runs n c w progress) :
    Holds σ.host w c.request.source := by
  obtain ⟨D, hw⟩ := hσ.stands n c w progress hr
  exact ⟨hw.isDirectory hσ.isAbsolute hσ.proper, hw.read hσ.isAbsolute hσ.proper⟩

/-- A compiler that has been started was launched. -/
theorem Trail.launched {t : Ticket} {p : Progress} {es : List Start}
    (h : Trail s runner first σ r w t p es) (hmem : compilerStart s r w t ∈ es) :
    ∃ run, Launched s runner first σ r w (compilerStart s r w t) run := by
  cases h with
  | fresh => cases hmem
  | waiting => cases hmem
  | rejected _ => cases hmem
  | compiling run hrun => exact ⟨run, hrun⟩
  | broken run _ hrun _ => exact ⟨run, hrun⟩
  | plain run _ hrun _ _ => exact ⟨run, hrun⟩
  | demangling run _ _ hrun _ _ _ => exact ⟨run, hrun⟩
  | filtered run _ _ _ hrun _ _ _ _ => exact ⟨run, hrun⟩

/-- The results of a response are found under their stages. -/
theorem get?_of_entries {response : Response} {results : Stage → StageResult}
    (h : response.entries = Stage.all.map fun k => (k, results k)) (k : Stage) :
    response.get? k = some (results k) := by
  unfold Response.get?
  rw [h]
  cases k <;> rfl

/-- A stage that has a result has the trail to it, in a response as well. -/
theorem State.Trailed.of_result (hσ : σ.Trailed s runner first) {t : Ticket} {result : StageResult}
    (hc : σ.calls[t.call]? = some c) (hresult : σ.result? t = some result) :
    ∃ w, Trail s runner first σ c.request w t (.done result) (σ.startsOf t) := by
  have hphase := hσ.calls t.call c hc
  unfold State.result? at hresult
  rw [hc, Option.bind_some] at hresult
  cases hp : c.phase with
  | running w progress =>
    rw [hp] at hphase hresult
    dsimp only at hresult
    have htrail := hphase.trail t.stage
    split at hresult
    · rename_i hdone
      rw [hdone] at htrail
      obtain rfl := Option.some.inj hresult
      exact ⟨w, htrail⟩
    · cases hresult
  | returned a =>
    cases a with
    | ok response =>
      rw [hp] at hphase hresult
      obtain ⟨w, results, hentries, htrails⟩ := hphase
      dsimp only at hresult
      rw [get?_of_entries hentries] at hresult
      obtain rfl := Option.some.inj hresult
      exact ⟨w, htrails.trail t.stage⟩
    | error refusal =>
      rw [hp] at hresult
      cases hresult
  | dropped =>
    rw [hp] at hresult
    cases hresult

/-- The result of a stage shows the command of its compiler. -/
theorem State.Trailed.command (hσ : σ.Trailed s runner first) {t : Ticket} {result : StageResult}
    (hc : σ.calls[t.call]? = some c) (hresult : σ.result? t = some result) :
    result.command = t.stage.command c.request.options s.toolchain := by
  obtain ⟨w, htrail⟩ := hσ.of_result hc hresult
  exact htrail.shown.2

theorem Holds.of_path {h : Host} {w' : Workspace} {source : String} (hw : Holds h w' source)
    (hpath : w'.path = w.path) : Holds h w source := by
  obtain ⟨hdirectory, hread⟩ := hw
  unfold Workspace.sourcePath at hread
  rw [hpath] at hdirectory hread
  exact ⟨hdirectory, hread⟩

/-- **Every compiler runs at home.** Runs leave the sources of workspaces alone and do not take back
names that have been given out; whatever else they do, whichever order the moves come in and whoever
goes, every compiler that has been started

* runs in the workspace that was made for its own request, whose path is used for no other call;
* finds the source of its own request there, when it is launched and as long as it runs;
* is what the result of its stage shows as the command, once there is one. -/
theorem compilers_run_at_home {h : Host} (hstart : State.start? s h = some first)
    (ht : h.tree.Proper) (hspares : SparesSources s.scratchRoot runner)
    (hkeeps : KeepsNames runner) (hσ : Reachable s runner first σ) (he : e ∈ σ.started)
    (hpurpose : e.purpose = .compile) :
    ∃ c w, σ.calls[e.ticket.call]? = some c ∧ AtHome s runner first σ e c.request w := by
  have hhoused : ∀ υ, Reachable s runner first υ → υ.Housed s (scratchDirectory h s.scratchRoot) :=
    fun υ hυ => housed_of_sparesSources hstart ht hspares hυ
  have htrailed := trailed_of_reachable hstart hσ
  have hapart := apart_of_reachable hstart ht hspares hkeeps hσ
  have hmem := State.mem_startsOf he
  -- Whatever has been started has been started for some call.
  obtain ⟨c, hc⟩ : ∃ c, σ.calls[e.ticket.call]? = some c := by
    by_contra hnone
    have hge : σ.calls.length ≤ e.ticket.call := by
      rw [← List.getElem?_eq_none_iff, Option.eq_none_iff_forall_ne_some]
      exact fun c hc => hnone ⟨c, hc⟩
    rw [htrailed.others e.ticket hge] at hmem
    cases hmem
  obtain ⟨w, progress, htrails⟩ := htrailed.of_started hc he rfl
  have htrail := htrails.trail e.ticket.stage
  have hstarted : e = compilerStart s c.request w e.ticket := htrail.compilers e hmem hpurpose
  have hdirectory : e.invocation.directory = some w.path := by
    rw [hstarted]
    rfl
  have huses : Uses σ e.ticket.call w.path := .started e he rfl hdirectory
  refine ⟨c, w, hc, htrails.lodged, hdirectory, ?_, ?_, ?_, ?_, ?_⟩
  · intro e' he' hsame
    exact hapart.unshared _ _ _ huses (.started e' he' rfl hsame)
  · intro n c' w' progress' hr hpath
    exact hapart.unshared _ _ _ huses (.runs c' w' progress' hr hpath)
  · obtain ⟨run, υ, hυ⟩ := htrail.launched (hstarted ▸ hmem)
    obtain ⟨c', progress', hr, hreq⟩ := hυ.runs
    have hholds := (hhoused υ hυ.reachable).holds hr
    rw [hreq] at hholds
    rw [hstarted]
    exact ⟨run, υ, hυ, hholds⟩
  · intro run hactive
    obtain ⟨c', w', progress', hr, -⟩ := State.runs_of_progress? hactive
    obtain rfl : c' = c := Option.some.inj (hr.call.symm.trans hc)
    -- The workspace of the call is that of the compiler, as the record of the start tells.
    have hphase := htrailed.calls _ _ hr.call
    rw [hr.phase] at hphase
    have hstarted' := (hphase.trail e.ticket.stage).compilers e hmem hpurpose
    have hpath : w'.path = w.path := by
      rw [hstarted'] at hdirectory
      exact Option.some.inj hdirectory
    exact ((hhoused σ hσ).holds hr).of_path hpath
  · intro result hresult
    rw [hstarted]
    exact htrailed.command hc hresult

/-! ## A compiler whose path is no text -/

/-- Settings for two compilers at a time, with a path that is not UTF-8. -/
def Settings.unreadable : Settings :=
  { Settings.narrow with toolchain := ⟨[0x2F, 0xFF], "M"⟩, capacity := 2 }

/-- Three calls, of which the first one is dropped while its compiler runs, the second one has a
result and the third one has a compiler running. -/
theorem compilers_run_at_home_three :
    ∃ first σ e, State.start? .unreadable bareHost = some first ∧
      run? .unreadable (prompt treeless) first
        [.submit ⟨"x", {}⟩, .submit ⟨"y", {}⟩, .ask ⟨0, .ast⟩, .drop 0, .submit ⟨"z", {}⟩,
          .ask ⟨1, .ir⟩, .ask ⟨2, .parse⟩, .finish ⟨1, .ir⟩] = some σ ∧
      e ∈ σ.started ∧ e.ticket = ⟨1, .ir⟩ ∧ e.purpose = .compile ∧ σ.compilers = 1 ∧
      (σ.result? ⟨1, .ir⟩).map (·.command) = some ["/\uFFFD", "main.swift", "-emit-ir"] ∧
      ∃ c w, σ.calls[e.ticket.call]? = some c ∧
        AtHome .unreadable (prompt treeless) first σ e c.request w := by
  have hview : ((State.start? .unreadable bareHost).bind fun first =>
      run? .unreadable (prompt treeless) first
        [.submit ⟨"x", {}⟩, .submit ⟨"y", {}⟩, .ask ⟨0, .ast⟩, .drop 0, .submit ⟨"z", {}⟩,
          .ask ⟨1, .ir⟩, .ask ⟨2, .parse⟩, .finish ⟨1, .ir⟩]).map (fun σ =>
        ((σ.started.find? fun e => e.ticket = ⟨1, .ir⟩).map fun e => (e.ticket, e.purpose),
          σ.compilers, (σ.result? ⟨1, .ir⟩).map (·.command))) =
      some (some (⟨1, .ir⟩, .compile), 1, some ["/\uFFFD", "main.swift", "-emit-ir"]) := by
    decide +kernel
  obtain ⟨σ, hσ, hview⟩ := Option.map_eq_some_iff.mp hview
  obtain ⟨first, hstart, hrun⟩ := Option.bind_eq_some_iff.mp hσ
  simp only [Prod.mk.injEq, Option.map_eq_some_iff] at hview
  obtain ⟨⟨e, hfind, hticket, hpurpose⟩, hcompilers, hcommand⟩ := hview
  have he : e ∈ σ.started := List.mem_of_find?_eq_some hfind
  have ht : bareHost.tree.Proper := Tree.proper_empty.put (p := []) rfl rfl
  exact ⟨first, σ, e, hstart, hrun, he, hticket, hpurpose, hcompilers,
    Option.map_eq_some_iff.mpr hcommand,
    compilers_run_at_home hstart ht (sparesWorkspaces_of_host_eq fun _ _ => rfl).sparesSources
      (fun _ _ => Nat.le_refl _) (reachable_iff_run?.mpr ⟨_, hrun⟩) he hpurpose⟩

end StageLens.Orchestrator
