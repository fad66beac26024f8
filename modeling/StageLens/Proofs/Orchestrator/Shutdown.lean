import StageLens.Proofs.Orchestrator.Compilations
import StageLens.Proofs.Orchestrator.Independence
import StageLens.Proofs.Orchestrator.Rest

/-!
# Shutting down

The gate closes while calls are under way. Stages that run go on to their results, and all others
are turned away; so every call still returns a result for each stage, and nothing starts that could
not have started before. Which stages are turned away is all that the moment of the closing decides.
-/

namespace StageLens.Orchestrator

open StageLens.Workspace (Vacant scratchDirectory)

/-- The states that come about when requests are valid and find workspaces, and the gate is closed
at any time, or never. -/
inductive Closable (s : Settings) (runner : Runner) (first : State) : State → Prop
  | start : Closable s runner first first
  | submit {σ : State} (r : Request) (w : Workspace) (h : Host) :
      Closable s runner first σ → r.invalid? s.sourceLimit = none →
      Workspace.create σ.host s.scratchRoot r.source = (.ok w, h) →
      Closable s runner first (submit s σ r)
  | own {σ τ : State} (m : Move) : Closable s runner first σ → m.IsOwn →
      step s runner σ m = some τ → Closable s runner first τ
  | close {σ τ : State} : Closable s runner first σ → step s runner σ .close = some τ →
      Closable s runner first τ

/-- Call `n` has returned a result for each stage in the order of the catalog: the stage's own
result where its compiler was started, once, and what tells of the closed gate where it never
was. -/
def State.HasAnswered (s : Settings) (f : Task → Ending) (σ : State) (n : Nat) (c : Call) : Prop :=
  ∃ results : Stage → StageResult,
    c.phase = .returned (.ok ⟨Stage.all.map fun k => (k, results k)⟩) ∧
    ∀ k, σ.compilations ⟨n, k⟩ = 1 ∧ results k = reference s f c.request k ∨
      σ.compilations ⟨n, k⟩ = 0 ∧ σ.gate.closed = true ∧
        results k = { label := k.label, command := k.command c.request.options s.toolchain,
                      exitCode := -4, output := Gate.closedMessage }

variable {s : Settings} {f : Task → Ending} {runner : Runner} {first σ τ : State} {m : Move}
variable {n : Nat} {c : Call} {w : Workspace}

/-! ## States that may have been closed -/

theorem Closable.reachable (h : Closable s runner first σ) : Reachable s runner first σ := by
  induction h with
  | start => exact .refl
  | submit r w h _ _ _ ih => exact .step (m := .submit r) ih rfl
  | own m _ _ hstep ih => exact .step ih hstep
  | close _ hstep ih => exact .step ih hstep

theorem Closable.served {h : Host} (hstart : State.start? s h = some first)
    (hσ : Closable s runner first σ) : σ.Served := by
  induction hσ with
  | start =>
    obtain ⟨g, -, rfl⟩ := Option.map_eq_some_iff.mp hstart
    exact ⟨rfl, fun c hc => by cases hc⟩
  | submit r w h _ hvalid hcreate ih => exact served_submit ih hvalid hcreate
  | own m _ hm hstep ih => exact served_own ih hm (rule_of_step hstep)
  | close _ hstep ih =>
    obtain rfl := Option.some.inj hstep
    exact ⟨ih.held, ih.calls⟩

/-- A call is under way, or it has answered. -/
theorem answered_of_served (hσ : σ.Served) (hmetered : σ.Metered s f)
    (hc : σ.calls[n]? = some c) :
    (∃ w progress, σ.Runs n c w progress) ∨ σ.HasAnswered s f n c := by
  rcases hσ.calls c (List.mem_of_getElem? hc) with ⟨w, progress, hphase⟩ | ⟨response, hphase⟩
  · exact .inl ⟨w, progress, hc, hphase⟩
  · have hcall := hmetered.calls n c hc
    rw [hphase] at hcall
    obtain ⟨results, hentries, hresults⟩ := hcall
    exact .inr ⟨results, by rw [hphase, ← hentries], hresults⟩

/-! ## Fair runs to the end -/

variable {run : Nat → State}

theorem Closable.of_fairRun (hrun : FairRunWith s runner (· = .close) σ run)
    (hσ : Closable s runner first σ) (i : Nat) : Closable s runner first (run i) := by
  induction i with
  | zero =>
    rw [hrun.start]
    exact hσ
  | succ i ih =>
    rcases hrun.next i with hsame | ⟨m, hown | rfl, hstep⟩
    · rwa [hsame]
    · exact .own m ih hown hstep
    · exact .close ih hstep

/-! ## What becomes of the workspaces -/

/-- A call that is collected leaves nothing of its workspace. -/
theorem get?_of_collect {progress : Stage → Progress} {dir : Bytes} (hσ : σ.Housed s dir)
    (hr : σ.Runs n c w progress) (hstep : step s runner σ (.collect n) = some τ) {q : Place}
    (hq : w.place <+: q) : τ.host.tree.get? q = none := by
  obtain ⟨D, hw⟩ := hσ.stands n c w progress hr
  cases fate_of_rule (rule_of_step hstep) hr with
  | stays _ _ hne _ _ _ => exact absurd rfl hne
  | dropped he _ _ => cases he
  | collected _ _ hhost _ =>
    rw [hhost, hw.get?_dispose hσ.isAbsolute hσ.proper, if_pos hq]

/-- A call that is under way stays so over a run, or the place of its workspace is vacant. -/
theorem runs_or_vacant_of_fairRun {h : Host} (hstart : State.start? s h = some first)
    (ht : h.tree.Proper) (hspares : SparesWorkspaces s.scratchRoot runner)
    (hσ : Reachable s runner first σ) (hrun : FairRunWith s runner (· = .close) σ run)
    {progress : Stage → Progress} (hr : σ.Runs n c w progress) (i : Nat) :
    (∃ c progress, (run i).Runs n c w progress) ∨
      ∃ D, Vacant (run i).host.tree (scratchDirectory h s.scratchRoot) D w.place := by
  induction i with
  | zero =>
    rw [hrun.start]
    exact .inl ⟨c, progress, hr⟩
  | succ i ih =>
    rcases hrun.next i with hsame | ⟨m, hm, hstep⟩
    · rwa [hsame]
    · have hnew : ∀ r, m ≠ .submit r := by
        rintro r rfl
        rcases hm with hown | hclose
        · exact hown.elim
        · cases hclose
      exact runs_or_vacant_of_rule hspares (rule_of_step hstep) hnew
        (housed_of_reachable hstart ht hspares (hrun.reachable hσ i)) ih

/-! ## Closing in the middle of calls -/

/-- What an exit code tells: that of a rejection stands where the compiler was never started, if no
compiler exits with it. -/
theorem State.HasAnswered.exitCode_eq_iff (h : σ.HasAnswered s f n c)
    (hf : ∀ task o, f task = .ok o → o.exitCode ≠ -4) :
    ∀ response, c.phase = .returned (.ok response) → ∀ e ∈ response.entries,
      (e.2.exitCode = -4 ↔ σ.compilations ⟨n, e.1⟩ = 0) := by
  obtain ⟨results, hphase, hresults⟩ := h
  intro response hresponse e he
  rw [hphase] at hresponse
  cases hresponse
  obtain ⟨k, -, rfl⟩ := List.mem_map.mp he
  have hk : IsOutcome s f c.request σ.gate.closed k (σ.compilations ⟨n, k⟩) (results k) :=
    hresults k
  exact hk.exitCode_eq_iff hf

/-- **Closing in the middle of calls.** Requests are valid and find workspaces, each run ends as its
task says and leaves the workspaces alone, the gate has a permit, and it is closed at any time. Then
in every state that comes about

* each call is under way, or it has returned a result for each stage in the order of the catalog:
  the reference result, with one start of the compiler, or the rejection, with none;
* where no compiler exits with the code of a rejection, that code tells which;
* no compiler starts any more once the gate is closed;
* while a call is under way, some move takes work away, and its workspace goes with its collection.

Every fair run from there, wherever it closes the gate, comes to rest in a state where every call
has returned such results and nothing is left of the workspaces. -/
theorem closing_completes_calls {h : Host} (hstart : State.start? s h = some first)
    (hcapacity : 1 ≤ s.capacity) (ht : h.tree.Proper)
    (hspares : SparesWorkspaces s.scratchRoot runner) (hfollows : Follows f runner)
    (hends : ∀ i h, (runner i h).ending.isSome = true) (hσ : Closable s runner first σ) :
    (∀ n c, σ.calls[n]? = some c →
      (∃ w progress, σ.Runs n c w progress) ∨ σ.HasAnswered s f n c) ∧
    ((∀ task o, f task = .ok o → o.exitCode ≠ -4) →
      ∀ n c response, σ.calls[n]? = some c → c.phase = .returned (.ok response) →
        ∀ e ∈ response.entries, (e.2.exitCode = -4 ↔ σ.compilations ⟨n, e.1⟩ = 0)) ∧
    (σ.gate.closed = true → ∀ τ, Reachable s runner σ τ → τ.compilerStarts = σ.compilerStarts) ∧
    (∀ n c w progress, σ.Runs n c w progress →
      (∃ m τ, Move.IsOwn m ∧ step s runner σ m = some τ ∧ τ.work < σ.work) ∧
      ∀ τ, step s runner σ (.collect n) = some τ →
        ∀ q, w.place <+: q → τ.host.tree.get? q = none) ∧
    (∃ run, FairRunWith s runner (· = .close) σ run) ∧
    ∀ run, FairRunWith s runner (· = .close) σ run → ∃ i, (∀ j, i ≤ j → run j = run i) ∧
      (∀ n c, σ.calls[n]? = some c → ∃ c', (run i).calls[n]? = some c' ∧
        c'.request = c.request ∧ (run i).HasAnswered s f n c') ∧
      ∀ n c w progress, σ.Runs n c w progress →
        ∀ q, w.place <+: q → (run i).host.tree.get? q = none := by
  have hledger : ∀ ρ, Closable s runner first ρ → ρ.Accounted s.capacity :=
    fun ρ hρ => accounted_of_reachable hstart hρ.reachable
  have hending : ∀ ρ, Closable s runner first ρ → ρ.RunsEnd :=
    fun ρ hρ => runsEnd_of_reachable hstart hends hρ.reachable
  have hhoused : ∀ ρ, Closable s runner first ρ → ρ.Housed s (scratchDirectory h s.scratchRoot) :=
    fun ρ hρ => housed_of_reachable hstart ht hspares hρ.reachable
  have hanswered : ∀ ρ, Closable s runner first ρ → ∀ n c, ρ.calls[n]? = some c →
      (∃ w progress, ρ.Runs n c w progress) ∨ ρ.HasAnswered s f n c := by
    intro ρ hρ n c hc
    have hmetered := metered_of_reachable hstart ht hspares hfollows hρ.reachable
    exact answered_of_served (hρ.served hstart) hmetered hc
  refine ⟨hanswered σ hσ, ?_, ?_, ?_, exists_fairRunWith hstart hσ.reachable _, ?_⟩
  · intro hf n c response hc hresponse
    rcases hanswered σ hσ n c hc with ⟨w, progress, hr⟩ | hanswer
    · rw [hr.phase] at hresponse
      cases hresponse
    · exact hanswer.exitCode_eq_iff hf response hresponse
  · intro hclosed τ hτ
    exact (compilerStarts_of_closed hclosed hτ).2
  · intro n c w progress hr
    have hheld := (hσ.served hstart).held
    refine ⟨exists_lighter_of_runs (hledger σ hσ) hcapacity hheld (hending σ hσ) hr,
      fun τ hstep q hq => get?_of_collect (hhoused σ hσ) hr hstep hq⟩
  · intro run hrun
    have hclosable := Closable.of_fairRun hrun hσ
    obtain ⟨i, hrest, hstays⟩ :=
      hrun.exists_rest (fun m hm => .inl hm) fun i => hledger _ (hclosable i)
    -- All runs end and nobody else holds a permit, so that no call is stranded.
    have hover : ∀ n c w progress, ¬ (run i).Runs n c w progress := by
      intro n c w progress hr
      obtain ⟨k, hk⟩ := stranded_of_atRest (hledger _ (hclosable i)) hrest hr
      exact not_stranded_of_runsEnd hcapacity ((hclosable i).served hstart).held
        (hending _ (hclosable i)) _ hk
    refine ⟨i, hstays, fun n c hc => ?_, fun n c w progress hr q hq => ?_⟩
    · obtain ⟨c', hc', hreq⟩ := hrun.request hc i
      refine ⟨c', hc', hreq, (hanswered _ (hclosable i) n c' hc').resolve_left ?_⟩
      rintro ⟨w, progress, hr⟩
      exact hover n c' w progress hr
    · obtain ⟨D, hvacant⟩ :=
        (runs_or_vacant_of_fairRun hstart ht hspares hσ.reachable hrun hr i).resolve_left
          fun ⟨c', progress', hr'⟩ => hover n c' w progress' hr'
      exact (hhoused _ (hclosable i)).proper.get?_eq_none hvacant.gone hq

/-! ## A permit in hand when the gate closes -/

theorem Undisturbed.closable (hσ : Undisturbed s runner first σ) : Closable s runner first σ := by
  induction hσ with
  | start => exact .start
  | submit r w h _ hvalid hcreate ih => exact .submit r w h ih hvalid hcreate
  | own m _ hm hstep ih => exact .own m ih hm hstep

theorem Closable.of_run? {ms : List Move} (hσ : Closable s runner first σ)
    (hms : ∀ m ∈ ms, Move.IsOwn m ∨ m = .close) (hrun : run? s runner σ ms = some τ) :
    Closable s runner first τ := by
  induction ms generalizing σ with
  | nil =>
    obtain rfl := Option.some.inj hrun
    exact hσ
  | cons m ms ih =>
    obtain ⟨hm, hms⟩ := List.forall_mem_cons.mp hms
    obtain ⟨ρ, hstep, hrun⟩ := Option.bind_eq_some_iff.mp hrun
    refine ih ?_ hms hrun
    rcases hm with hown | rfl
    · exact .own m hσ hown hstep
    · exact .close hσ hstep

/-- Two calls and one permit: the first compiler has ended, and its permit is in the hand of the
stage of the other call that waited, when the gate closes. -/
theorem closing_completes_calls_in_hand :
    ∃ first σ, State.start? .narrow bareHost = some first ∧
      Closable .narrow (prompt treeless) first σ ∧ σ.calls.length = 2 ∧
      σ.gate.handed = [⟨1, .ir⟩] ∧ σ.gate.closed = true ∧ σ.compilerStarts.length = 1 ∧
      (∀ task o, treeless task = .ok o → o.exitCode ≠ -4) ∧
      ((∀ n c, σ.calls[n]? = some c →
        (∃ w progress, σ.Runs n c w progress) ∨ σ.HasAnswered .narrow treeless n c) ∧
      ((∀ task o, treeless task = .ok o → o.exitCode ≠ -4) →
        ∀ n c response, σ.calls[n]? = some c → c.phase = .returned (.ok response) →
          ∀ e ∈ response.entries, (e.2.exitCode = -4 ↔ σ.compilations ⟨n, e.1⟩ = 0)) ∧
      (σ.gate.closed = true → ∀ τ, Reachable .narrow (prompt treeless) σ τ →
        τ.compilerStarts = σ.compilerStarts) ∧
      (∀ n c w progress, σ.Runs n c w progress →
        (∃ m τ, Move.IsOwn m ∧ step .narrow (prompt treeless) σ m = some τ ∧ τ.work < σ.work) ∧
        ∀ τ, step .narrow (prompt treeless) σ (.collect n) = some τ →
          ∀ q, w.place <+: q → τ.host.tree.get? q = none) ∧
      (∃ run, FairRunWith .narrow (prompt treeless) (· = .close) σ run) ∧
      ∀ run, FairRunWith .narrow (prompt treeless) (· = .close) σ run →
        ∃ i, (∀ j, i ≤ j → run j = run i) ∧
          (∀ n c, σ.calls[n]? = some c → ∃ c', (run i).calls[n]? = some c' ∧
            c'.request = c.request ∧ (run i).HasAnswered .narrow treeless n c') ∧
          ∀ n c w progress, σ.Runs n c w progress →
            ∀ q, w.place <+: q → (run i).host.tree.get? q = none) := by
  let first : State := { gate := .fresh 1, host := bareHost, journal := Settings.narrow.report }
  have hstart : State.start? .narrow bareHost = some first := rfl
  have hone : Undisturbed .narrow (prompt treeless) first (submit .narrow first ⟨"x", {}⟩) :=
    .of_toBool .start (by decide +kernel) (by decide +kernel)
  have htwo : Undisturbed .narrow (prompt treeless) first
      (submit .narrow (submit .narrow first ⟨"x", {}⟩) ⟨"y", {}⟩) :=
    .of_toBool hone (by decide +kernel) (by decide +kernel)
  have hview : (run? .narrow (prompt treeless)
      (submit .narrow (submit .narrow first ⟨"x", {}⟩) ⟨"y", {}⟩)
      [.ask ⟨0, .ast⟩, .ask ⟨1, .ir⟩, .finish ⟨0, .ast⟩, .close]).map
      (fun σ => (σ.calls.length, σ.gate.handed, σ.gate.closed, σ.compilerStarts.length)) =
      some (2, [⟨1, .ir⟩], true, 1) := by
    decide +kernel
  obtain ⟨σ, hrun, hview⟩ := Option.map_eq_some_iff.mp hview
  simp only [Prod.mk.injEq] at hview
  obtain ⟨hlength, hhanded, hclosed, hstarts⟩ := hview
  have hσ := htwo.closable.of_run? (by simp [Move.IsOwn]) hrun
  have ht : bareHost.tree.Proper := Tree.proper_empty.put (p := []) rfl rfl
  have hcode : ∀ task o, treeless task = .ok o → o.exitCode ≠ -4 := by
    intro task o ho
    unfold treeless at ho
    split at ho <;> cases ho
    decide
  exact ⟨first, σ, hstart, hσ, hlength, hhanded, hclosed, hstarts, hcode,
    closing_completes_calls hstart (by decide) ht (sparesWorkspaces_of_host_eq fun _ _ => rfl)
      (fun _ _ _ he => (Option.some.inj he).symm) (fun _ _ => rfl) hσ⟩

end StageLens.Orchestrator
