import StageLens.Proofs.Orchestrator.Concurrency
import StageLens.Proofs.Orchestrator.Reference
import StageLens.Proofs.Orchestrator.Rest

/-!
# Calls do not depend on each other

Where requests are valid and find workspaces, the gate stays open and every run ends, calls return
their reference results in every schedule. The schedule decides when a call returns and no more: in
a fair run, which does not rest where a move would change something, every call returns.
-/

namespace StageLens.Orchestrator

/-- The states that come about when requests are valid and find workspaces, and nothing happens
otherwise than by the calls themselves. -/
inductive Undisturbed (s : Settings) (runner : Runner) (first : State) : State → Prop
  | start : Undisturbed s runner first first
  | submit {σ : State} (r : Request) (w : Workspace) (h : Host) :
      Undisturbed s runner first σ → r.invalid? s.sourceLimit = none →
      Workspace.create σ.host s.scratchRoot r.source = (.ok w, h) →
      Undisturbed s runner first (submit s σ r)
  | own {σ τ : State} (m : Move) : Undisturbed s runner first σ → m.IsOwn →
      step s runner σ m = some τ → Undisturbed s runner first τ

/-- A run of own moves that does not rest for ever in a state that one of them would change. -/
structure FairRun (s : Settings) (runner : Runner) (σ : State) (run : Nat → State) : Prop where
  start : run 0 = σ
  next : ∀ i, run (i + 1) = run i ∨
    ∃ m : Move, m.IsOwn ∧ step s runner (run i) m = some (run (i + 1))
  fair : ∀ i, (∃ m τ, Move.IsOwn m ∧ step s runner (run i) m = some τ ∧ τ ≠ run i) →
    ∃ j, i < j ∧ run j ≠ run i

/-- The response that a request has by itself. -/
def referenceResponse (s : Settings) (f : Task → Ending) (r : Request) : Response :=
  ⟨Stage.all.map fun k => (k, reference s f r k)⟩

variable {s : Settings} {f : Task → Ending} {runner : Runner} {first σ τ : State} {m : Move}
variable {n : Nat} {w : Workspace}

/-! ## Undisturbed states -/

theorem Undisturbed.reachable (h : Undisturbed s runner first σ) : Reachable s runner first σ := by
  induction h with
  | start => exact .refl
  | submit r w h _ _ _ ih => exact .step (m := .submit r) ih rfl
  | own m _ _ hstep ih => exact .step ih hstep

theorem calm_submit {r : Request} {h : Host} (hσ : σ.Calm)
    (hvalid : r.invalid? s.sourceLimit = none)
    (hcreate : Workspace.create σ.host s.scratchRoot r.source = (.ok w, h)) :
    (submit s σ r).Calm := by
  have hτ := served_submit hσ.served hvalid hcreate
  refine ⟨?_, hτ.held, hτ.calls⟩
  unfold submit
  rw [hvalid, hcreate]
  exact hσ.isOpen

theorem Undisturbed.calm {h : Host} (hstart : State.start? s h = some first)
    (hσ : Undisturbed s runner first σ) : σ.Calm := by
  induction hσ with
  | start =>
    obtain ⟨g, hg, rfl⟩ := Option.map_eq_some_iff.mp hstart
    obtain rfl := Gate.eq_fresh_of_ofCapacity? hg
    exact ⟨rfl, rfl, fun c hc => by cases hc⟩
  | submit r w h _ hvalid hcreate ih => exact calm_submit ih hvalid hcreate
  | own m _ hm hstep ih => exact calm_own ih hm (rule_of_step hstep)

/-! ## Fair runs -/

variable {run : Nat → State}

theorem FairRun.undisturbed (h : FairRun s runner σ run) (hσ : Undisturbed s runner first σ)
    (i : Nat) : Undisturbed s runner first (run i) := by
  induction i with
  | zero =>
    rw [h.start]
    exact hσ
  | succ i ih =>
    rcases h.next i with hsame | ⟨m, hm, hstep⟩
    · rwa [hsame]
    · exact .own m ih hm hstep

/-- A fair run of own moves is one in which nothing else happens. -/
theorem fairRun_iff : FairRun s runner σ run ↔ FairRunWith s runner (fun _ => False) σ run := by
  constructor
  · intro h
    refine ⟨h.start, fun i => ?_, h.fair⟩
    exact (h.next i).imp_right fun ⟨m, hm, hstep⟩ => ⟨m, .inl hm, hstep⟩
  · intro h
    refine ⟨h.start, fun i => ?_, h.fair⟩
    exact (h.next i).imp_right fun ⟨m, hm, hstep⟩ => ⟨m, hm.resolve_right id, hstep⟩

/-- A fair run comes to a state without work. -/
theorem FairRun.exists_done {capacity : Nat} (h : FairRun s runner σ run)
    (hledger : ∀ i, (run i).Accounted capacity) (hcapacity : 1 ≤ capacity)
    (hcalm : ∀ i, (run i).Calm) (hending : ∀ i, (run i).RunsEnd) : ∃ i, (run i).work = 0 := by
  obtain ⟨i, hrest, -⟩ := (fairRun_iff.mp h).exists_rest (fun _ hm => hm.elim) hledger
  refine ⟨i, ?_⟩
  by_contra hne
  obtain ⟨m, τ, hm, hstep, hlt⟩ := exists_lighter s runner (hledger i) hcapacity (hcalm i)
    (hending i) (Nat.pos_of_ne_zero hne)
  rw [hrest m τ hm hstep] at hlt
  exact Nat.lt_irrefl _ hlt

theorem FairRun.request {c : Call} (h : FairRun s runner σ run) (hn : σ.calls[n]? = some c)
    (i : Nat) : ∃ c', (run i).calls[n]? = some c' ∧ c'.request = c.request :=
  (fairRun_iff.mp h).request hn i

/-- From every undisturbed state there is a fair run. -/
theorem exists_fairRun {h : Host} (hstart : State.start? s h = some first)
    (hσ : Undisturbed s runner first σ) : ∃ run, FairRun s runner σ run := by
  obtain ⟨run, hrun⟩ := exists_fairRunWith hstart hσ.reachable fun _ => False
  exact ⟨run, fairRun_iff.mpr hrun⟩

/-- While the gate is open, responses are reference responses. -/
theorem eq_referenceResponse {c : Call} {response : Response} (hopen : σ.gate.closed = false)
    (hanswers : σ.Answers s f) (hc : c ∈ σ.calls) (hresponse : c.phase = .returned (.ok response)) :
    response = referenceResponse s f c.request := by
  obtain ⟨results, hentries, hresults⟩ := hanswers c hc response hresponse
  have hreference : results = reference s f c.request := by
    funext k
    rcases hresults k with hk | ⟨hclosed, -⟩
    · exact hk
    · rw [hopen] at hclosed
      cases hclosed
  rw [referenceResponse, ← hreference, ← hentries]

/-- Calls that are not under way have returned their reference responses. -/
theorem returned_of_calm {c : Call} (hσ : σ.Calm) (hanswers : σ.Answers s f) (hc : c ∈ σ.calls) :
    (∃ w progress, c.phase = .running w progress) ∨
      c.phase = .returned (.ok (referenceResponse s f c.request)) := by
  rcases hσ.calls c hc with hrunning | ⟨response, hresponse⟩
  · exact .inl hrunning
  · obtain rfl := eq_referenceResponse hσ.isOpen hanswers hc hresponse
    exact .inr hresponse

/-- **Schedule independence.** Requests are valid and find workspaces, each run ends as its task
says and leaves the workspaces alone, and the gate is open and has a permit. Then in every state
that any order of moves leads to, each call is under way or has returned the results that its stages
have by themselves, one for each stage in the order of the catalog. While a call is under way some
move takes work away, no move adds any, and in every fair run from there every call returns. -/
theorem calls_are_schedule_independent {h : Host} (hstart : State.start? s h = some first)
    (hcapacity : 1 ≤ s.capacity) (ht : h.tree.Proper)
    (hspares : SparesWorkspaces s.scratchRoot runner) (hfollows : Follows f runner)
    (hends : ∀ i h, (runner i h).ending.isSome = true) (hσ : Undisturbed s runner first σ) :
    (∀ c ∈ σ.calls, (∃ w progress, c.phase = .running w progress) ∨
      c.phase = .returned (.ok (referenceResponse s f c.request))) ∧
    (∀ n c w progress, σ.Runs n c w progress →
      ∃ m τ, Move.IsOwn m ∧ step s runner σ m = some τ ∧ τ.work < σ.work) ∧
    (∀ m τ, Move.IsOwn m → step s runner σ m = some τ → τ = σ ∨ τ.work < σ.work) ∧
    (∃ run, FairRun s runner σ run) ∧
    ∀ run : Nat → State, FairRun s runner σ run → ∀ (n : Nat) (c : Call),
      σ.calls[n]? = some c → ∃ i, (run i).calls[n]? =
        some ⟨c.request, .returned (.ok (referenceResponse s f c.request))⟩ := by
  have hledger : ∀ ρ, Undisturbed s runner first ρ → ρ.Accounted s.capacity :=
    fun ρ hρ => accounted_of_reachable hstart hρ.reachable
  have hcalm : ∀ ρ, Undisturbed s runner first ρ → ρ.Calm := fun ρ hρ => hρ.calm hstart
  have hending : ∀ ρ, Undisturbed s runner first ρ → ρ.RunsEnd :=
    fun ρ hρ => runsEnd_of_reachable hstart hends hρ.reachable
  have hreturned : ∀ ρ, Undisturbed s runner first ρ → ∀ c ∈ ρ.calls,
      (∃ w progress, c.phase = .running w progress) ∨
        c.phase = .returned (.ok (referenceResponse s f c.request)) := by
    intro ρ hρ c hc
    have hanswers := (faithful_of_reachable hstart ht hspares hfollows hρ.reachable).2
    exact returned_of_calm (hcalm ρ hρ) hanswers hc
  refine ⟨hreturned σ hσ, ?_, ?_, exists_fairRun hstart hσ, ?_⟩
  · intro n c w progress hr
    exact exists_lighter s runner (hledger σ hσ) hcapacity (hcalm σ hσ) (hending σ hσ)
      (work_pos_iff.mpr ⟨n, c, w, progress, hr⟩)
  · intro m τ hm hstep
    exact eq_or_lighter_of_own (hledger σ hσ) hm hstep
  · intro run hrun n c hn
    have hundisturbed := hrun.undisturbed hσ
    obtain ⟨i, hi⟩ := hrun.exists_done (fun i => hledger _ (hundisturbed i)) hcapacity
      (fun i => hcalm _ (hundisturbed i)) fun i => hending _ (hundisturbed i)
    obtain ⟨⟨request, phase⟩, hc', hreq⟩ := hrun.request hn i
    refine ⟨i, ?_⟩
    rcases hreturned _ (hundisturbed i) _ (List.mem_of_getElem? hc') with ⟨w, p, hp⟩ | hp
    · have := work_pos_iff.mpr ⟨n, _, w, p, ⟨hc', hp⟩⟩
      omega
    · dsimp only at hp hreq
      rw [hc', hp, hreq]

/-! ## Two calls and one permit -/

theorem Undisturbed.of_toBool {r : Request} (hσ : Undisturbed s runner first σ)
    (hvalid : r.invalid? s.sourceLimit = none)
    (hcreate : (Workspace.create σ.host s.scratchRoot r.source).1.toBool = true) :
    Undisturbed s runner first (Orchestrator.submit s σ r) := by
  rcases hc : Workspace.create σ.host s.scratchRoot r.source with ⟨⟨e⟩ | ⟨w⟩, h⟩
  · rw [hc] at hcreate
    cases hcreate
  · exact .submit r w h hσ hvalid hc

theorem Undisturbed.of_run? {ms : List Move} (hσ : Undisturbed s runner first σ)
    (hms : ∀ m ∈ ms, Move.IsOwn m) (hrun : run? s runner σ ms = some τ) :
    Undisturbed s runner first τ := by
  induction ms generalizing σ with
  | nil =>
    obtain rfl := Option.some.inj hrun
    exact hσ
  | cons m ms ih =>
    obtain ⟨hm, hms⟩ := List.forall_mem_cons.mp hms
    obtain ⟨ρ, hstep, hrun⟩ := Option.bind_eq_some_iff.mp hrun
    exact ih (.own m hσ hm hstep) hms hrun

/-- A compiler that cannot show syntax trees. -/
def treeless (t : Task) : Ending :=
  if t.arguments.contains "-dump-ast" then .error (.timedOut t.program t.timeout)
  else .ok { exitCode := 1, stderr := "error" }

/-- The runner whose runs end as a function of their tasks says, at once. -/
def prompt (f : Task → Ending) : Runner := fun i h => { ending := some (f (taskOf i h)), host := h }

/-- Two calls and one permit: when the first compiler has ended, its permit is in the hand of the
stage of the other call that waited. -/
theorem calls_are_schedule_independent_handover :
    ∃ first σ, State.start? .narrow bareHost = some first ∧
      Undisturbed .narrow (prompt treeless) first σ ∧ σ.calls.length = 2 ∧
      σ.gate.handed = [⟨1, .ir⟩] ∧
      ((∀ c ∈ σ.calls, (∃ w progress, c.phase = .running w progress) ∨
        c.phase = .returned (.ok (referenceResponse .narrow treeless c.request))) ∧
      (∀ n c w progress, σ.Runs n c w progress → ∃ m τ, Move.IsOwn m ∧
        step .narrow (prompt treeless) σ m = some τ ∧ τ.work < σ.work) ∧
      (∀ m τ, Move.IsOwn m → step .narrow (prompt treeless) σ m = some τ →
        τ = σ ∨ τ.work < σ.work) ∧
      (∃ run, FairRun .narrow (prompt treeless) σ run) ∧
      ∀ run : Nat → State, FairRun .narrow (prompt treeless) σ run → ∀ (n : Nat) (c : Call),
        σ.calls[n]? = some c → ∃ i, (run i).calls[n]? =
          some ⟨c.request, .returned (.ok (referenceResponse .narrow treeless c.request))⟩) := by
  let first : State := { gate := .fresh 1, host := bareHost, journal := Settings.narrow.report }
  have hstart : State.start? .narrow bareHost = some first := rfl
  have hone : Undisturbed .narrow (prompt treeless) first (submit .narrow first ⟨"x", {}⟩) :=
    .of_toBool .start (by decide +kernel) (by decide +kernel)
  have htwo : Undisturbed .narrow (prompt treeless) first
      (submit .narrow (submit .narrow first ⟨"x", {}⟩) ⟨"y", {}⟩) :=
    .of_toBool hone (by decide +kernel) (by decide +kernel)
  have hview : (run? .narrow (prompt treeless)
      (submit .narrow (submit .narrow first ⟨"x", {}⟩) ⟨"y", {}⟩)
      [.ask ⟨0, .ast⟩, .ask ⟨1, .ir⟩, .finish ⟨0, .ast⟩]).map
      (fun σ => (σ.calls.length, σ.gate.handed)) = some (2, [⟨1, .ir⟩]) := by
    decide +kernel
  obtain ⟨σ, hrun, hview⟩ := Option.map_eq_some_iff.mp hview
  simp only [Prod.mk.injEq] at hview
  have hσ := htwo.of_run? (by simp [Move.IsOwn]) hrun
  have ht : bareHost.tree.Proper := Tree.proper_empty.put (p := []) rfl rfl
  exact ⟨first, σ, hstart, hσ, hview.1, hview.2,
    calls_are_schedule_independent hstart (by decide) ht
      (sparesWorkspaces_of_host_eq fun _ _ => rfl) (fun _ _ _ he => (Option.some.inj he).symm)
      (fun _ _ => rfl) hσ⟩

end StageLens.Orchestrator
