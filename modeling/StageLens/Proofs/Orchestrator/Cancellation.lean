import StageLens.Proofs.Orchestrator.Independence
import StageLens.Proofs.Orchestrator.Lodgers
import StageLens.Proofs.Orchestrator.Rest

/-!
# Callers that go

A caller may go at any time, whatever its stages are at: they may wait at the gate, have a permit in
hand, run the compiler or run the demangler. What it had is given back at once and nobody else
notices more than that (`Cleared`). Runs may hang. So a call whose caller stays returns its
reference response, or one of its stages is held up by a run that never ends.
-/

namespace StageLens.Orchestrator

open StageLens.Workspace (scratchDirectory)

/-- How many permits the compilers of a call hold. -/
def compilersOf (progress : Stage → Progress) : Nat :=
  (Stage.all.map fun k => (progress k).compilers).sum

/-- What is left of a call that was under way when its caller has gone: nothing, and nothing of the
others has changed but that permits may have come to them. -/
structure Cleared (σ : State) (n : Nat) (w : Workspace) (progress : Stage → Progress) (τ : State) :
    Prop where
  /-- None of its invocations is in progress. -/
  idle : ∀ k, Schedule.runAt τ ⟨n, k⟩ = none
  /-- None of its stages waits. -/
  absent : ∀ k, (⟨n, k⟩ : Ticket) ∉ τ.gate.handed ++ τ.gate.queue
  /-- The others wait in the order in which they did. -/
  waiters : τ.gate.handed ++ τ.gate.queue =
    (σ.gate.handed ++ σ.gate.queue).filter fun t => t.call ≠ n
  /-- The permits of its compilers, and those that it had in hand, are free or in other hands. -/
  permits : τ.gate.available + τ.gate.handed.length =
    σ.gate.available + σ.gate.handed.length + compilersOf progress
  /-- None of them is free while others wait for one. -/
  full : τ.gate.queue ≠ [] → τ.gate.available = 0
  inFlight : τ.gate.inFlight + compilersOf progress = σ.gate.inFlight
  /-- Its workspace is gone with all that was in it. -/
  removed : ∀ q, w.place <+: q → τ.host.tree.get? q = none
  /-- The other calls are what they were. -/
  others : ∀ i, i ≠ n → τ.calls[i]? = σ.calls[i]?
  /-- Their compilers find their sources. -/
  sources : ∀ i c' w' progress', i ≠ n → σ.Runs i c' w' progress' →
    τ.host.read w'.sourcePath = .ok (Text.bytes c'.request.source)
  /-- Nothing is started. -/
  started : τ.started = σ.started

/-- Every call has returned or been dropped. -/
def State.Over (σ : State) : Prop := ∀ n c w progress, ¬ σ.Runs n c w progress

variable {s : Settings} {f : Task → Ending} {runner : Runner} {first σ τ : State} {capacity : Nat}
variable {n : Nat} {c : Call} {w : Workspace} {progress : Stage → Progress} {dir : Bytes}

/-! ## What a caller leaves behind -/

/-- Stages that are abandoned are the only waiters that are missing. -/
theorem waiters_abandonAll {g : Gate Ticket} (stages : List Stage)
    (hnodup : (g.handed ++ g.queue).Nodup)
    (hwaits : ∀ t ∈ g.handed ++ g.queue, t.call = n → progress t.stage = .waiting) :
    (abandonAll n progress stages g).handed ++ (abandonAll n progress stages g).queue =
      (g.handed ++ g.queue).filter fun t => ¬ (t.call = n ∧ t.stage ∈ stages) := by
  induction stages generalizing g with
  | nil => simp [abandonAll]
  | cons k stages ih =>
    show (abandonAll n progress stages (abandon g ⟨n, k⟩ (progress k))).handed ++
      (abandonAll n progress stages (abandon g ⟨n, k⟩ (progress k))).queue = _
    -- Whether the stage waited or not, without it the waiters are those that have another ticket.
    have hnext : (abandon g ⟨n, k⟩ (progress k)).handed ++ (abandon g ⟨n, k⟩ (progress k)).queue =
        (g.handed ++ g.queue).filter (· ≠ ⟨n, k⟩) := by
      have hother : progress k ≠ .waiting →
          (g.handed ++ g.queue).filter (· ≠ ⟨n, k⟩) = g.handed ++ g.queue := by
        intro hk
        rw [List.filter_eq_self]
        intro t ht
        have hne : t ≠ ⟨n, k⟩ := by
          rintro rfl
          exact hk (hwaits _ ht rfl)
        simpa using hne
      cases hp : progress k with
      | waiting =>
        show (g.leave ⟨n, k⟩).handed ++ (g.leave ⟨n, k⟩).queue = _
        rw [Gate.waiters_leave, hnodup.erase_eq_filter]
        refine List.filter_congr fun t _ => ?_
        rw [Bool.eq_iff_iff]
        simp
      | compiling run =>
        rw [hother (by rw [hp]; simp)]
        exact Gate.waiters_giveBack _
      | fresh => exact (hother (by rw [hp]; simp)).symm
      | demangling code raw run => exact (hother (by rw [hp]; simp)).symm
      | done r => exact (hother (by rw [hp]; simp)).symm
    rw [ih (by rw [hnext]; exact hnodup.filter _) fun t ht hcall => ?_, hnext, List.filter_filter]
    · refine List.filter_congr fun t _ => ?_
      rw [Bool.eq_iff_iff]
      obtain ⟨call, stage⟩ := t
      simp only [List.mem_cons, Ticket.mk.injEq, ne_eq, Bool.and_eq_true, decide_eq_true_eq]
      tauto
    · rw [hnext] at ht
      exact hwaits t (List.mem_of_mem_filter ht) hcall

/-- **A caller that goes leaves nothing behind.** -/
theorem cleared_of_drop (hspares : SparesWorkspaces s.scratchRoot runner)
    (hledger : σ.Accounted capacity) (hhoused : σ.Housed s dir) (hr : σ.Runs n c w progress)
    (hstep : step s runner σ (.drop n) = some τ) : Cleared σ n w progress τ := by
  have hrule := rule_of_step hstep
  have hτledger := accounted_of_rule hrule hledger
  have hτhoused := housed_of_rule hspares.sparesSources hrule hhoused
  obtain ⟨D, hw⟩ := hhoused.stands n c w progress hr
  cases hrule with
  | turn _ _ _ _ _ _ _ _ hmove _ _ _ _ _ => rcases hmove with he | he <;> cases he
  | drop _ c₁ w₁ before _ hr₁ hgate hheld hstarted hhost hcalls =>
    obtain ⟨rfl, rfl, rfl⟩ := hr.unique hr₁
    have hcall : τ.calls[n]? = some { c₁ with phase := .dropped } := by
      rw [hcalls, State.getElem?_callsWith hr, if_pos rfl]
    have hothers : ∀ i, i ≠ n → τ.calls[i]? = σ.calls[i]? := fun i hi => by
      rw [hcalls, State.getElem?_callsWith hr, if_neg hi]
    have hcompilers : τ.compilers + compilersOf before = σ.compilers :=
      State.tally_callsWith hr hcalls Progress.compilers
    have hwaiters : τ.gate.handed ++ τ.gate.queue =
        (σ.gate.handed ++ σ.gate.queue).filter fun t => t.call ≠ n := by
      rw [hgate, waiters_abandonAll Stage.all hledger.nodup]
      · simp [Stage.mem_all]
      · intro t ht hcall
        have hwait : σ.progress? t = some .waiting := hledger.waits t ht
        rw [← hcall] at hr
        exact Option.some.inj ((hr.progress? t.stage).symm.trans hwait)
    have htotal := hledger.total
    have hτtotal := hτledger.total
    have hcount := hledger.inFlight
    have hτcount := hτledger.inFlight
    refine ⟨fun k => ?_, fun k hk => ?_, hwaiters, by omega, hτledger.full, by omega,
      fun q hq => ?_, hothers, fun i c' w' progress' hi hr' => ?_, hstarted⟩
    · simp [Schedule.runAt, hcall]
    · rw [hwaiters] at hk
      simpa using List.of_mem_filter hk
    · rw [hhost, hw.get?_dispose hhoused.isAbsolute hhoused.proper, if_pos hq]
    · have hτr : τ.Runs i c' w' progress' := ⟨by rw [hothers i hi, hr'.call], hr'.phase⟩
      obtain ⟨E, hw'⟩ := hτhoused.stands i c' w' progress' hτr
      exact hw'.read hτhoused.isAbsolute hτhoused.proper

theorem exists_step_drop (s : Settings) (runner : Runner) (hr : σ.Runs n c w progress) :
    ∃ τ, step s runner σ (.drop n) = some τ := by
  unfold step
  simp only [hr.call, hr.phase]
  exact ⟨_, rfl⟩

/-! ## Runs in which callers go -/

/-- Callers go, those for whom `gone` holds, and at any time. -/
def Goes (gone : Nat → Prop) (m : Move) : Prop := ∃ n, gone n ∧ m = .drop n

variable {gone : Nat → Prop} {run : Nat → State}

theorem Goes.ends {m : Move} (h : Goes gone m) : m.Ends := by
  obtain ⟨n, -, rfl⟩ := h
  exact .inr ⟨n, rfl⟩

/-- While callers go, the gate stays open. -/
theorem open_of_fairRun (hrun : FairRunWith s runner (Goes gone) σ run)
    (hopen : σ.gate.closed = false) (i : Nat) : (run i).gate.closed = false := by
  induction i with
  | zero => rw [hrun.start, hopen]
  | succ i ih =>
    rcases hrun.next i with hsame | ⟨m, hm, hstep⟩
    · rw [hsame, ih]
    · rcases closed_of_rule (rule_of_step hstep) with hsame | ⟨rfl, -⟩
      · rw [hsame, ih]
      · rcases hm with hown | ⟨n, -, he⟩
        · exact hown.elim
        · cases he

/-- A call under way stays so over a run, or it is dropped because its caller goes, or it returns a
response. -/
theorem fate_of_fairRun (hrun : FairRunWith s runner (Goes gone) σ run)
    (hr : σ.Runs n c w progress) (i : Nat) :
    (∃ c' progress', c'.request = c.request ∧ (run i).Runs n c' w progress') ∨
      (gone n ∧ (run i).calls[n]? = some ⟨c.request, .dropped⟩) ∨
      ∃ response, (run i).calls[n]? = some ⟨c.request, .returned (.ok response)⟩ := by
  induction i with
  | zero =>
    rw [hrun.start]
    exact .inl ⟨c, progress, rfl, hr⟩
  | succ i ih =>
    rcases hrun.next i with hsame | ⟨m, hm, hstep⟩
    · rwa [hsame]
    have hrule := rule_of_step hstep
    rcases ih with ⟨c', progress', hreq, hr'⟩ | ⟨hgone, hc⟩ | ⟨response, hc⟩
    · rw [← hreq]
      cases fate_of_rule hrule hr' with
      | stays c'' progress'' _ _ hreq' hr'' => exact .inl ⟨c'', progress'', hreq', hr''⟩
      | collected response _ _ hc => exact .inr (.inr ⟨response, hc⟩)
      | dropped he _ hc =>
        rcases hm with hown | ⟨n', hgone, he'⟩
        · rw [he] at hown
          exact hown.elim
        · rw [he] at he'
          cases he'
          exact .inr (.inl ⟨hgone, hc⟩)
    · exact .inr (.inl ⟨hgone, getElem?_of_over hrule hc (by simp)⟩)
    · exact .inr (.inr ⟨response, getElem?_of_over hrule hc (by simp)⟩)

/-- The permits that others hold stay theirs. -/
theorem held_of_fairRun (hrun : FairRunWith s runner (Goes gone) σ run) (i : Nat) :
    (run i).held = σ.held := by
  induction i with
  | zero => rw [hrun.start]
  | succ i ih =>
    rcases hrun.next i with hsame | ⟨m, hm, hstep⟩
    · rw [hsame, ih]
    rcases hm with hown | ⟨n, -, rfl⟩
    · cases ownRule_of_rule hown (rule_of_step hstep) with
      | turn _ _ _ _ _ _ _ _ _ _ _ hheld _ => rw [hheld, ih]
      | collect _ _ _ _ _ _ _ hheld _ => rw [hheld, ih]
    · cases rule_of_step hstep with
      | turn _ _ _ _ _ _ _ _ hmove _ _ _ _ _ => rcases hmove with he | he <;> cases he
      | drop _ _ _ _ _ _ _ hheld _ _ _ => rw [hheld, ih]

/-- Every call that is under way returns a response in every fair run, unless its caller goes,
whoever else goes. -/
def State.Completes (s : Settings) (runner : Runner) (σ : State) : Prop :=
  ∀ gone : Nat → Prop, (∃ run, FairRunWith s runner (Goes gone) σ run) ∧
    ∀ run, FairRunWith s runner (Goes gone) σ run → ∀ n c w progress, σ.Runs n c w progress →
      ¬ gone n → ∃ i response, ∀ j, i ≤ j →
        (run j).calls[n]? = some ⟨c.request, .returned (.ok response)⟩

/-- **Calls return** where all runs end and others leave a permit. -/
theorem completes_of_runsEnd {h : Host} (hstart : State.start? s h = some first)
    (hσ : Reachable s runner first σ) (hheld : σ.held < s.capacity)
    (hends : ∀ i h, (runner i h).ending.isSome = true) : σ.Completes s runner := by
  intro gone
  refine ⟨exists_fairRunWith hstart hσ _, ?_⟩
  intro run hrun n c w progress hr hstays
  have hreach := hrun.reachable hσ
  have hledger : ∀ i, (run i).Accounted s.capacity :=
    fun i => accounted_of_reachable hstart (hreach i)
  obtain ⟨i, hrest, hsame⟩ := hrun.exists_rest (fun m => Goes.ends) hledger
  rcases fate_of_fairRun hrun hr i with ⟨c', progress', -, hr'⟩ | ⟨hgone, -⟩ | ⟨response, hc⟩
  · -- Of the calls at rest none is stranded here.
    obtain ⟨k, hk⟩ := stranded_of_atRest (hledger i) hrest hr'
    have hheld' : (run i).held < s.capacity := by
      rw [held_of_fairRun hrun i]
      exact hheld
    exact absurd hk
      (not_stranded_of_held_lt hheld' (runsEnd_of_reachable hstart hends (hreach i)) _)
  · exact absurd hgone hstays
  · refine ⟨i, response, fun j hij => ?_⟩
    rw [hsame j hij]
    exact hc

/-! ## When every call is over -/

/-- All permits but those of others are free. -/
theorem free_of_over (hledger : σ.Accounted capacity) (hover : σ.Over) :
    σ.gate.available + σ.held = capacity ∧ σ.gate.inFlight = σ.held := by
  have hcompilers : σ.compilers = 0 := by
    by_contra hne
    obtain ⟨t, run, hp⟩ := exists_compiling (Nat.pos_of_ne_zero hne)
    obtain ⟨c, w, progress, hr, -⟩ := State.runs_of_progress? hp
    exact hover _ _ _ _ hr
  have hhanded : σ.gate.handed = [] := by
    rw [List.eq_nil_iff_forall_not_mem]
    intro t ht
    obtain ⟨c, w, progress, hr, -⟩ :=
      State.runs_of_progress? (hledger.waits t (List.mem_append_left _ ht))
    exact hover _ _ _ _ hr
  have htotal := hledger.total
  have hcount := hledger.inFlight
  rw [hhanded, List.length_nil] at htotal
  exact ⟨by omega, by omega⟩

/-- **Callers may go at any time.** Runs that end, end as their tasks say, others may hang, and no
run changes the workspaces of calls. Then in every state with an open gate that comes about

* the caller of a call that is under way can go, and then everything the call had is given back and
  the other calls are what they were (`Cleared`);
* the responses that calls have returned are their reference responses;
* every fair run from there, in which any callers go, comes to rest in a state where each call has
  returned its reference response, unless its caller has gone or it is stranded: a run of its own
  never ends, or it waits and all permits are held by others or by compilers that never end;
* when every call is over, all permits but those that others hold are free, and the directory of the
  workspaces lists what it did whenever no call was under way before. -/
theorem dropped_calls_disturb_nobody {h : Host} (hstart : State.start? s h = some first)
    (ht : h.tree.Proper) (hspares : SparesWorkspaces s.scratchRoot runner)
    (hfollows : Follows f runner) (hσ : Reachable s runner first σ)
    (hopen : σ.gate.closed = false) :
    (∀ n c w progress, σ.Runs n c w progress →
      ∃ τ, step s runner σ (.drop n) = some τ ∧ Cleared σ n w progress τ) ∧
    (∀ c ∈ σ.calls, ∀ response, c.phase = .returned (.ok response) →
      response = referenceResponse s f c.request) ∧
    (∀ gone : Nat → Prop, (∃ run, FairRunWith s runner (Goes gone) σ run) ∧
      ∀ run, FairRunWith s runner (Goes gone) σ run → ∃ i, (∀ j, i ≤ j → run j = run i) ∧
        ∀ n c w progress, σ.Runs n c w progress →
          (gone n ∧ (run i).calls[n]? = some ⟨c.request, .dropped⟩) ∨
          (run i).calls[n]? =
            some ⟨c.request, .returned (.ok (referenceResponse s f c.request))⟩ ∨
          ∃ k, (run i).Stranded s.capacity ⟨n, k⟩) ∧
    (σ.Over → σ.gate.available + σ.held = s.capacity ∧ σ.gate.inFlight = σ.held ∧
      (h.InPlace → KeepsDirectories s.scratchRoot runner → ∀ ρ listed,
        Reachable s runner first ρ → Reachable s runner ρ σ → ρ.Over →
        ρ.host.entries (scratchDirectory h s.scratchRoot) = .ok listed →
        σ.host.entries (scratchDirectory h s.scratchRoot) = .ok listed)) := by
  have hledger : ∀ ρ, Reachable s runner first ρ → ρ.Accounted s.capacity :=
    fun ρ hρ => accounted_of_reachable hstart hρ
  have hreference : ∀ ρ, Reachable s runner first ρ → ρ.gate.closed = false → ∀ c ∈ ρ.calls,
      ∀ response, c.phase = .returned (.ok response) →
        response = referenceResponse s f c.request := by
    intro ρ hρ hopen c hc response hresponse
    have hanswers := (faithful_of_reachable hstart ht hspares hfollows hρ).2
    exact eq_referenceResponse hopen hanswers hc hresponse
  refine ⟨?_, hreference σ hσ hopen, fun gone => ⟨?_, ?_⟩, fun hover => ?_⟩
  · intro n c w progress hr
    obtain ⟨τ, hstep⟩ := exists_step_drop s runner hr
    exact ⟨τ, hstep, cleared_of_drop hspares (hledger σ hσ)
      (housed_of_reachable hstart ht hspares hσ) hr hstep⟩
  · exact exists_fairRunWith hstart hσ _
  · intro run hrun
    have hreach := hrun.reachable hσ
    obtain ⟨i, hrest, hstays⟩ := hrun.exists_rest (fun m => Goes.ends) fun i => hledger _ (hreach i)
    refine ⟨i, hstays, fun n c w progress hr => ?_⟩
    rcases fate_of_fairRun hrun hr i with ⟨c', progress', -, hr'⟩ | hdropped | ⟨response, hc⟩
    · exact .inr (.inr (stranded_of_atRest (hledger _ (hreach i)) hrest hr'))
    · exact .inl hdropped
    · have hopen' := open_of_fairRun hrun hopen i
      have hresponse : response = referenceResponse s f c.request :=
        hreference _ (hreach i) hopen' _ (List.mem_of_getElem? hc) response rfl
      rw [← hresponse]
      exact .inr (.inl hc)
  · obtain ⟨hfree, hcount⟩ := free_of_over (hledger σ hσ) hover
    refine ⟨hfree, hcount, fun hin hkeeps ρ listed hρ hρσ hρover hlisted => ?_⟩
    obtain ⟨base, hbase, hlater⟩ :=
      listed_of_reachable hstart ht hin hspares hkeeps hρ hlisted
    rw [lodgers_eq_nil hρover, List.append_nil] at hbase
    have hnow := hlater σ hρσ
    rw [lodgers_eq_nil hover, List.append_nil, ← hbase] at hnow
    exact hnow

/-! ## One call that hangs and one that waits -/

/-- The runner that hangs where a syntax tree is asked for and else ends as a function of its tasks
says, at once. -/
def hangingOnTrees (f : Task → Ending) : Runner := fun i h =>
  { ending := if i.arguments.contains "-dump-ast" then none else some (f (taskOf i h)), host := h }

theorem follows_hangingOnTrees (f : Task → Ending) : Follows f (hangingOnTrees f) := by
  intro i h e he
  simp only [hangingOnTrees] at he
  split at he
  · cases he
  · exact (Option.some.inj he).symm

/-- Two calls and one permit: the compiler of the first one hangs, and the second one waits for its
permit, which it has in hand when the first caller goes. -/
theorem dropped_calls_disturb_nobody_hanging :
    ∃ first σ, State.start? .narrow bareHost = some first ∧
      run? .narrow (hangingOnTrees treeless) first
        [.submit ⟨"x", {}⟩, .submit ⟨"y", {}⟩, .ask ⟨0, .ast⟩, .ask ⟨1, .ir⟩] = some σ ∧
      σ.gate.closed = false ∧ σ.compilers = 1 ∧ σ.gate.queue = [⟨1, .ir⟩] ∧ bareHost.InPlace ∧
      KeepsDirectories Settings.narrow.scratchRoot (hangingOnTrees treeless) ∧
      (step .narrow (hangingOnTrees treeless) σ (.drop 0)).map (fun τ => τ.gate.handed) =
        some [⟨1, .ir⟩] ∧
      ((∀ n c w progress, σ.Runs n c w progress →
        ∃ τ, step .narrow (hangingOnTrees treeless) σ (.drop n) = some τ ∧
          Cleared σ n w progress τ) ∧
      (∀ c ∈ σ.calls, ∀ response, c.phase = .returned (.ok response) →
        response = referenceResponse .narrow treeless c.request) ∧
      (∀ gone : Nat → Prop,
        (∃ run, FairRunWith .narrow (hangingOnTrees treeless) (Goes gone) σ run) ∧
        ∀ run, FairRunWith .narrow (hangingOnTrees treeless) (Goes gone) σ run →
          ∃ i, (∀ j, i ≤ j → run j = run i) ∧ ∀ n c w progress, σ.Runs n c w progress →
            (gone n ∧ (run i).calls[n]? = some ⟨c.request, .dropped⟩) ∨
            (run i).calls[n]? =
              some ⟨c.request, .returned (.ok (referenceResponse .narrow treeless c.request))⟩ ∨
            ∃ k, (run i).Stranded Settings.narrow.capacity ⟨n, k⟩) ∧
      (σ.Over → σ.gate.available + σ.held = Settings.narrow.capacity ∧ σ.gate.inFlight = σ.held ∧
        (bareHost.InPlace →
          KeepsDirectories Settings.narrow.scratchRoot (hangingOnTrees treeless) → ∀ ρ listed,
          Reachable .narrow (hangingOnTrees treeless) first ρ →
          Reachable .narrow (hangingOnTrees treeless) ρ σ → ρ.Over →
          ρ.host.entries (scratchDirectory bareHost Settings.narrow.scratchRoot) = .ok listed →
          σ.host.entries (scratchDirectory bareHost Settings.narrow.scratchRoot) =
            .ok listed))) := by
  have hview : ((State.start? .narrow bareHost).bind fun first =>
      run? .narrow (hangingOnTrees treeless) first
        [.submit ⟨"x", {}⟩, .submit ⟨"y", {}⟩, .ask ⟨0, .ast⟩, .ask ⟨1, .ir⟩]).map
      (fun σ => (σ.gate.closed, σ.compilers, σ.gate.queue,
        (step .narrow (hangingOnTrees treeless) σ (.drop 0)).map (fun τ => τ.gate.handed))) =
      some (false, 1, [⟨1, .ir⟩], some [⟨1, .ir⟩]) := by
    decide +kernel
  obtain ⟨σ, hσ, hview⟩ := Option.map_eq_some_iff.mp hview
  obtain ⟨first, hstart, hrun⟩ := Option.bind_eq_some_iff.mp hσ
  simp only [Prod.mk.injEq] at hview
  obtain ⟨hopen, hcompilers, hqueue, hhanded⟩ := hview
  have ht : bareHost.tree.Proper := Tree.proper_empty.put (p := []) rfl rfl
  have hin : bareHost.InPlace := ⟨by simp [bareHost], rfl⟩
  exact ⟨first, σ, hstart, hrun, hopen, hcompilers, hqueue, hin,
    keepsDirectories_of_host_eq fun _ _ => rfl, hhanded,
    dropped_calls_disturb_nobody hstart ht (sparesWorkspaces_of_host_eq fun _ _ => rfl)
      (follows_hangingOnTrees treeless) (reachable_iff_run?.mpr ⟨_, hrun⟩) hopen⟩

end StageLens.Orchestrator
