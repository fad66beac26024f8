import StageLens.Proofs.Orchestrator.Work

/-!
# Coming to rest

Calls may make their moves in any order, callers may go and the gate may close at any time: every
fair run comes to a state that no call changes any more (`FairRunWith.exists_rest`), since there is
less left to do after each of these moves. A call that is still under way then is held up by a run
that never ends: a run of its own, or compilers that keep all permits (`stranded_of_atRest`).
-/

namespace StageLens.Orchestrator

/-- A run of own moves, and of moves of another kind at any time, that does not rest for ever in a
state that an own move would change. -/
structure FairRunWith (s : Settings) (runner : Runner) (others : Move → Prop) (σ : State)
    (run : Nat → State) : Prop where
  start : run 0 = σ
  next : ∀ i, run (i + 1) = run i ∨
    ∃ m : Move, (m.IsOwn ∨ others m) ∧ step s runner (run i) m = some (run (i + 1))
  fair : ∀ i, (∃ m τ, Move.IsOwn m ∧ step s runner (run i) m = some τ ∧ τ ≠ run i) →
    ∃ j, i < j ∧ run j ≠ run i

/-- A caller goes, or the gate closes. -/
def Move.Ends (m : Move) : Prop := m = .close ∨ ∃ n, m = .drop n

/-- How many moves are left at most, the closing of the gate among them. -/
def State.load (σ : State) : Nat := σ.work + if σ.gate.closed then 0 else 1

/-- No call changes anything any more. -/
def State.AtRest (s : Settings) (runner : Runner) (σ : State) : Prop :=
  ∀ m τ, Move.IsOwn m → step s runner σ m = some τ → τ = σ

variable {s : Settings} {runner : Runner} {first σ τ : State} {m : Move} {capacity : Nat}
variable {n : Nat} {c : Call} {w : Workspace} {progress : Stage → Progress}

/-! ## Each move leaves less to do or changes nothing -/

theorem lighter_of_drop (hr : σ.Runs n c w progress) (hcalls : τ.calls = σ.callsWith n c .dropped) :
    τ.work < σ.work := by
  have hwork := work_callsWith hr hcalls
  simp only [Phase.work] at hwork
  omega

/-- A gate that is closed is closed once more without a change. -/
theorem step_close_of_closed (hledger : σ.Accounted capacity) (hclosed : σ.gate.closed = true) :
    step s runner σ .close = some σ := by
  have hqueue := hledger.shut hclosed
  have hgate : σ.gate.close = σ.gate := by
    unfold Gate.close
    rw [← hqueue, ← hclosed]
  show some { σ with gate := σ.gate.close } = some σ
  rw [hgate]

theorem eq_or_less_load (hledger : σ.Accounted capacity) (hm : m.IsOwn ∨ m.Ends)
    (hstep : step s runner σ m = some τ) : τ = σ ∨ τ.load < σ.load := by
  have hrule := rule_of_step hstep
  have hless : m ≠ .close → τ.work < σ.work → τ.load < σ.load := by
    intro hne hwork
    have hclosed : τ.gate.closed = σ.gate.closed :=
      (closed_of_rule hrule).resolve_right fun h => hne h.1
    unfold State.load
    rw [hclosed]
    omega
  rcases hm with hown | rfl | ⟨n, rfl⟩
  · have hne : m ≠ .close := by
      rintro rfl
      exact hown.elim
    exact (eq_or_lighter_of_own hledger hown hstep).imp_right (hless hne)
  · by_cases hclosed : σ.gate.closed = true
    · rw [step_close_of_closed hledger hclosed] at hstep
      exact .inl (Option.some.inj hstep).symm
    · obtain rfl := Option.some.inj hstep
      right
      show σ.work + 0 < σ.work + if σ.gate.closed then 0 else 1
      rw [if_neg hclosed]
      omega
  · cases hrule with
    | drop _ c w progress _ hr _ _ _ _ hcalls =>
      exact .inr (hless (by simp) (lighter_of_drop hr hcalls))
    | turn _ _ _ _ _ _ _ _ hmove _ _ _ _ _ => rcases hmove with he | he <;> cases he

/-! ## Fair runs come to rest -/

namespace FairRunWith

variable {others : Move → Prop} {run : Nat → State}

theorem reachable (h : FairRunWith s runner others σ run) (hσ : Reachable s runner first σ)
    (i : Nat) : Reachable s runner first (run i) := by
  induction i with
  | zero =>
    rw [h.start]
    exact hσ
  | succ i ih =>
    rcases h.next i with hsame | ⟨m, -, hstep⟩
    · rwa [hsame]
    · exact .step ih hstep

/-- A call keeps its place and its request over a run. -/
theorem request (h : FairRunWith s runner others σ run) (hn : σ.calls[n]? = some c) (i : Nat) :
    ∃ c', (run i).calls[n]? = some c' ∧ c'.request = c.request := by
  induction i with
  | zero => exact ⟨c, by rw [h.start, hn], rfl⟩
  | succ i ih =>
    obtain ⟨c', hc', hreq⟩ := ih
    rcases h.next i with hsame | ⟨m, -, hstep⟩
    · exact ⟨c', by rw [hsame, hc'], hreq⟩
    · obtain ⟨c'', hc'', hreq'⟩ := request_of_rule (rule_of_step hstep) hc'
      exact ⟨c'', hc'', hreq'.trans hreq⟩

theorem eq_or_less_load (h : FairRunWith s runner others σ run)
    (hothers : ∀ m, others m → m.Ends) (hledger : ∀ i, (run i).Accounted capacity) {i j : Nat}
    (hij : i ≤ j) : run j = run i ∨ (run j).load < (run i).load := by
  induction j, hij using Nat.le_induction with
  | base => exact .inl rfl
  | succ j hij ih =>
    have hnext : run (j + 1) = run j ∨ (run (j + 1)).load < (run j).load := by
      rcases h.next j with hsame | ⟨m, hm, hstep⟩
      · exact .inl hsame
      · exact Orchestrator.eq_or_less_load (hledger j) (hm.imp_right (hothers m)) hstep
    rcases hnext with hsame | hlt
    · rwa [hsame]
    · refine .inr ?_
      rcases ih with hsame | hlt'
      · rwa [← hsame]
      · omega

/-- **A fair run comes to rest and stays there**, whenever callers go or the gate closes. -/
theorem exists_rest (h : FairRunWith s runner others σ run) (hothers : ∀ m, others m → m.Ends)
    (hledger : ∀ i, (run i).Accounted capacity) :
    ∃ i, (run i).AtRest s runner ∧ ∀ j, i ≤ j → run j = run i := by
  -- Strong induction on what is left to do: a state that changes later has less left then.
  have hfrom : ∀ k i, (run i).load = k →
      ∃ i, (run i).AtRest s runner ∧ ∀ j, i ≤ j → run j = run i := by
    intro k
    induction k using Nat.strongRecOn with
    | _ k ih =>
      intro i hi
      by_cases hchange : ∃ j, i ≤ j ∧ run j ≠ run i
      · obtain ⟨j, hij, hne⟩ := hchange
        have hlt := (h.eq_or_less_load hothers hledger hij).resolve_left hne
        exact ih _ (by omega) j rfl
      · have hstays : ∀ j, i ≤ j → run j = run i := by
          intro j hij
          by_contra hne
          exact hchange ⟨j, hij, hne⟩
        refine ⟨i, fun m τ hm hstep => ?_, hstays⟩
        by_contra hne
        obtain ⟨j, hij, hj⟩ := h.fair i ⟨m, τ, hm, hstep, hne⟩
        exact hj (hstays j (Nat.le_of_lt hij))
  exact hfrom _ 0 rfl

end FairRunWith

/-- From every state there is a fair run, whatever else may happen in between: it takes work away as
long as it can. -/
theorem exists_fairRunWith {h : Host} (hstart : State.start? s h = some first)
    (hσ : Reachable s runner first σ) (others : Move → Prop) :
    ∃ run, FairRunWith s runner others σ run := by
  classical
  -- From each state: some move that takes work away if there is one, else to rest.
  have hchoose : ∀ ρ, ∃ τ, (τ = ρ ∨ ∃ m : Move, m.IsOwn ∧ step s runner ρ m = some τ) ∧
      ((∃ m υ, Move.IsOwn m ∧ step s runner ρ m = some υ ∧ υ.work < ρ.work) →
        τ.work < ρ.work) := by
    intro ρ
    by_cases hsome : ∃ m υ, Move.IsOwn m ∧ step s runner ρ m = some υ ∧ υ.work < ρ.work
    · obtain ⟨m, υ, hm, hstep, hlt⟩ := hsome
      exact ⟨υ, .inr ⟨m, hm, hstep⟩, fun _ => hlt⟩
    · exact ⟨ρ, .inl rfl, fun h => absurd h hsome⟩
  choose next hnext hlighter using hchoose
  let run : Nat → State := fun i => Nat.rec σ (fun _ ρ => next ρ) i
  have hreach : ∀ i, Reachable s runner first (run i) := by
    intro i
    induction i with
    | zero => exact hσ
    | succ i ih =>
      show Reachable s runner first (next (run i))
      rcases hnext (run i) with hsame | ⟨m, -, hstep⟩
      · rwa [hsame]
      · exact .step ih hstep
  refine ⟨run, rfl, fun i => ?_, fun i hchange => ?_⟩
  · exact (hnext (run i)).imp_right fun ⟨m, hm, hstep⟩ => ⟨m, .inl hm, hstep⟩
  -- A move that changes something takes work away, so the run does not rest here.
  obtain ⟨m, τ, hm, hstep, hne⟩ := hchange
  have hlt : τ.work < (run i).work :=
    (eq_or_lighter_of_own (accounted_of_reachable hstart (hreach i)) hm hstep).resolve_left hne
  have hless : (next (run i)).work < (run i).work := hlighter (run i) ⟨m, τ, hm, hstep, hlt⟩
  refine ⟨i + 1, Nat.lt_succ_self i, fun he => ?_⟩
  have hsame : next (run i) = run i := he
  rw [hsame] at hless
  exact Nat.lt_irrefl _ hless

/-! ## Who is still under way at rest -/

/-- Why a stage of a state at rest goes no further: its own run never ends, or it waits for a permit
while all permits are held, by others or by compilers that never end. -/
inductive State.Stranded (σ : State) (capacity : Nat) (t : Ticket) : Prop
  | hangs (p : Progress) (run : Run) : σ.progress? t = some p → Schedule.runOf p = some run →
      run.ending = none → Stranded σ capacity t
  | starves : σ.Waits t → σ.gate.closed = false → σ.held + σ.compilers = capacity →
      (∀ u run, σ.progress? u = some (.compiling run) → run.ending = none) →
      Stranded σ capacity t

/-- At rest a stage that could move is told to wait on. -/
theorem State.AtRest.waits_on (hrest : σ.AtRest s runner) {t : Ticket}
    (hr : σ.Runs t.call c w progress) (hm : m = .ask t ∨ m = .finish t)
    (hstep : ∃ τ, step s runner σ m = some τ) :
    ∃ g, progress t.stage = .waiting ∧ σ.gate.poll t = (g, .pending) := by
  obtain ⟨τ, hstep⟩ := hstep
  have hown : m.IsOwn := by rcases hm with rfl | rfl <;> trivial
  by_contra hnone
  have hlt := lighter_of_step hr hm hstep fun hwaiting g hpoll => hnone ⟨g, hwaiting, hpoll⟩
  rw [hrest m τ hown hstep] at hlt
  exact Nat.lt_irrefl _ hlt

/-- At rest no run can end. -/
theorem State.AtRest.ending_eq_none (hrest : σ.AtRest s runner) {t : Ticket} {p : Progress}
    {run : Run} (hp : σ.progress? t = some p) (hrun : Schedule.runOf p = some run) :
    run.ending = none := by
  obtain ⟨c, w, progress, hr, rfl⟩ := State.runs_of_progress? hp
  by_contra hsome
  have hends : run.ending.isSome = true := Option.isSome_iff_ne_none.mpr hsome
  obtain ⟨-, hwaiting, -⟩ :=
    hrest.waits_on hr (.inr rfl) (exists_step_finish s runner hr hrun hends)
  rw [hwaiting] at hrun
  cases hrun

/-- At rest a stage that has not begun waits in the queue of an open gate. -/
theorem State.AtRest.mem_queue (hrest : σ.AtRest s runner) {t : Ticket} {p : Progress}
    (hp : σ.progress? t = some p) (hidle : p = .fresh ∨ p = .waiting) :
    p = .waiting ∧ σ.gate.closed = false ∧ t ∉ σ.gate.handed ∧
      (t ∈ σ.gate.queue ∨ σ.gate.available = 0) := by
  obtain ⟨c, w, progress, hr, rfl⟩ := State.runs_of_progress? hp
  obtain ⟨g, hwaiting, hpoll⟩ := hrest.waits_on hr (.inl rfl) (exists_step_ask s runner hr hidle)
  refine ⟨hwaiting, Gate.open_of_pending hpoll, ?_⟩
  cases Gate.found_of_poll hpoll with
  | inQueue _ hhanded hqueue => exact ⟨hhanded, .inl hqueue⟩
  | full _ hhanded _ hfull => exact ⟨hhanded, .inr hfull⟩

/-- **A call that is under way at rest is stranded**: one of its stages is. -/
theorem stranded_of_atRest (hledger : σ.Accounted capacity) (hrest : σ.AtRest s runner)
    (hr : σ.Runs n c w progress) : ∃ k, σ.Stranded capacity ⟨n, k⟩ := by
  by_cases hdone : ∀ k, ∃ r, progress k = .done r
  · -- A call whose stages are all done would be collected.
    obtain ⟨τ, hstep, response, hcalls⟩ := exists_step_collect s runner hr hdone
    have hlt := lighter_of_end hr hcalls
    rw [hrest (.collect n) τ trivial hstep] at hlt
    exact absurd hlt (Nat.lt_irrefl _)
  rw [not_forall] at hdone
  obtain ⟨k, hk⟩ := hdone
  refine ⟨k, ?_⟩
  have hp := hr.progress? k
  have hwaits : progress k = .fresh ∨ progress k = .waiting → σ.Stranded capacity ⟨n, k⟩ := by
    intro hidle
    obtain ⟨hwaiting, hopen, hnothanded, hqueued⟩ := hrest.mem_queue hp hidle
    rw [hwaiting] at hp
    -- Whoever has a permit in hand would ask, so nobody has, and no permit is free either.
    have hhanded : σ.gate.handed = [] := by
      rw [List.eq_nil_iff_forall_not_mem]
      intro u hu
      have hu' := hledger.waits u (List.mem_append_left _ hu)
      exact (hrest.mem_queue hu' (.inr rfl)).2.2.1 hu
    have hfull : σ.gate.available = 0 := by
      rcases hqueued with hqueue | hfull
      · exact hledger.full (List.ne_nil_of_mem hqueue)
      · exact hfull
    have htotal := hledger.total
    rw [hhanded, hfull, List.length_nil] at htotal
    exact .starves hp hopen (by omega) fun u run hu => hrest.ending_eq_none hu rfl
  cases hprogress : progress k with
  | fresh => exact hwaits (.inl hprogress)
  | waiting => exact hwaits (.inr hprogress)
  | compiling run =>
    rw [hprogress] at hp
    exact .hangs _ run hp rfl (hrest.ending_eq_none hp rfl)
  | demangling code raw run =>
    rw [hprogress] at hp
    exact .hangs _ run hp rfl (hrest.ending_eq_none hp rfl)
  | done r => exact absurd ⟨r, hprogress⟩ hk

/-- Where all runs end and others leave a permit, no stage is stranded. -/
theorem not_stranded_of_held_lt (hheld : σ.held < capacity) (hends : σ.RunsEnd) (t : Ticket) :
    ¬ σ.Stranded capacity t := by
  have hnone : ∀ u p run, σ.progress? u = some p → Schedule.runOf p = some run →
      run.ending ≠ none := by
    intro u p run hp hrun
    obtain ⟨c, w, progress, hr, rfl⟩ := State.runs_of_progress? hp
    exact Option.isSome_iff_ne_none.mp (hends _ _ _ _ hr _ run hrun)
  intro h
  cases h with
  | hangs p run hp hrun hend => exact hnone t p run hp hrun hend
  | starves _ _ hall hcompilers =>
    obtain ⟨u, run, hu⟩ := exists_compiling (σ := σ) (by omega)
    exact hnone u _ run hu rfl (hcompilers u run hu)

/-- Where all runs end and nobody else holds a permit, no stage is stranded. -/
theorem not_stranded_of_runsEnd (hcapacity : 1 ≤ capacity) (hheld : σ.held = 0)
    (hends : σ.RunsEnd) (t : Ticket) : ¬ σ.Stranded capacity t :=
  not_stranded_of_held_lt (by omega) hends t

/-- While a call is under way some own move takes work away, with the gate open or closed. -/
theorem exists_lighter_of_runs (hledger : σ.Accounted capacity) (hcapacity : 1 ≤ capacity)
    (hheld : σ.held = 0) (hends : σ.RunsEnd) (hr : σ.Runs n c w progress) :
    ∃ m τ, Move.IsOwn m ∧ step s runner σ m = some τ ∧ τ.work < σ.work := by
  by_contra hnone
  have hrest : σ.AtRest s runner := by
    intro m τ hm hstep
    refine (eq_or_lighter_of_own hledger hm hstep).resolve_right fun hlt => ?_
    exact hnone ⟨m, τ, hm, hstep, hlt⟩
  obtain ⟨k, hk⟩ := stranded_of_atRest hledger hrest hr
  exact not_stranded_of_runsEnd hcapacity hheld hends _ hk

/-- While there is work in a calm state, some own move takes some of it away. -/
theorem exists_lighter (s : Settings) (runner : Runner) (hledger : σ.Accounted capacity)
    (hcapacity : 1 ≤ capacity) (hσ : σ.Calm) (hends : σ.RunsEnd) (hwork : 0 < σ.work) :
    ∃ m τ, Move.IsOwn m ∧ step s runner σ m = some τ ∧ τ.work < σ.work := by
  obtain ⟨n, c, w, progress, hr⟩ := work_pos_iff.mp hwork
  exact exists_lighter_of_runs hledger hcapacity hσ.held hends hr

end StageLens.Orchestrator
