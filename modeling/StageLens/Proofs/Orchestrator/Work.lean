import StageLens.Orchestrator.Schedule
import StageLens.Proofs.Lists
import StageLens.Proofs.Orchestrator.Admission

/-!
# The work that is left

Calls come to their end by their own moves, in whatever order these come. No move goes back: each
one takes work away or changes nothing at all (`eq_or_lighter_of_own`). The moves that are open to a
call take work away (`lighter_of_step`), unless they tell a stage to wait on.
-/

namespace StageLens.Orchestrator

/-- A move of a call that is under way. -/
def Move.IsOwn : Move → Prop
  | .ask _ => True
  | .finish _ => True
  | .collect _ => True
  | _ => False

/-! ## The work that is left -/

/-- How many turns a stage has left at most. -/
def Progress.work : Progress → Nat
  | .fresh => 4
  | .waiting => 3
  | .compiling _ => 2
  | .demangling _ _ _ => 1
  | .done _ => 0

/-- How many moves a call has left at most: the turns of its stages, and to be collected. -/
def Phase.work : Phase → Nat
  | .running _ progress => (Stage.all.map fun k => (progress k).work).sum + 1
  | _ => 0

/-- How many moves the calls have left at most. -/
def State.work (σ : State) : Nat := (σ.calls.map fun c => c.phase.work).sum

variable {s : Settings} {runner : Runner} {first σ τ : State} {m : Move}
variable {n : Nat} {c : Call} {w : Workspace} {progress : Stage → Progress} {t : Ticket}

theorem work_callsWith (h : σ.Runs n c w progress) {p : Phase}
    (hcalls : τ.calls = σ.callsWith n c p) :
    τ.work + Phase.work (.running w progress) = σ.work + p.work := by
  unfold State.work
  rw [hcalls, ← h.phase]
  exact List.sum_map_set (fun c => c.phase.work) h.call

theorem work_advance {p : Progress} (h : σ.Runs t.call c w progress)
    (hcalls : τ.calls = σ.callsWith t.call c (.running w (State.advance progress t.stage p))) :
    τ.work + (progress t.stage).work = σ.work + p.work := by
  have hcall := work_callsWith h hcalls
  have hstage := State.sum_advance Progress.work progress t.stage p
  simp only [Phase.work] at hcall
  omega

/-- There is work left as long as a call is under way. -/
theorem work_pos_iff : 0 < σ.work ↔ ∃ n c w progress, σ.Runs n c w progress := by
  unfold State.work
  rw [List.sum_pos_iff_exists_pos_nat]
  constructor
  · rintro ⟨k, hk, hpos⟩
    obtain ⟨c, hc, rfl⟩ := List.mem_map.mp hk
    obtain ⟨n, hn⟩ := List.getElem?_of_mem hc
    cases hphase : c.phase with
    | running w progress => exact ⟨n, c, w, progress, hn, hphase⟩
    | returned a =>
      rw [hphase] at hpos
      cases hpos
    | dropped =>
      rw [hphase] at hpos
      cases hpos
  · rintro ⟨n, c, w, progress, h⟩
    refine ⟨c.phase.work, List.mem_map_of_mem (List.mem_of_getElem? h.call), ?_⟩
    rw [h.phase]
    exact Nat.succ_pos _

/-! ## States in which calls are served -/

/-- Nobody else holds a permit, and every call is under way or has its response. -/
structure State.Served (σ : State) : Prop where
  held : σ.held = 0
  calls : ∀ c ∈ σ.calls,
    (∃ w progress, c.phase = .running w progress) ∨ ∃ response, c.phase = .returned (.ok response)

/-- A state with an open gate that nobody else holds permits of, where every call is under way or
has its response. -/
structure State.Calm (σ : State) : Prop where
  isOpen : σ.gate.closed = false
  held : σ.held = 0
  calls : ∀ c ∈ σ.calls,
    (∃ w progress, c.phase = .running w progress) ∨ ∃ response, c.phase = .returned (.ok response)

theorem State.Calm.served (hσ : σ.Calm) : σ.Served := ⟨hσ.held, hσ.calls⟩

/-- What an own move can do: the turn of a stage, or the end of a call. -/
inductive OwnRule (s : Settings) (runner : Runner) (σ : State) : Move → State → Prop
  | turn (m : Move) (t : Ticket) (c : Call) (w : Workspace) (progress : Stage → Progress)
      (launched : List Start) (p : Progress) (τ : State) : m = .ask t ∨ m = .finish t →
      σ.Runs t.call c w progress →
      Turn s runner σ t c.request w (progress t.stage) τ.gate τ.host launched p →
      τ.held = σ.held →
      τ.calls = σ.callsWith t.call c (.running w (State.advance progress t.stage p)) →
      OwnRule s runner σ m τ
  | collect (n : Nat) (c : Call) (w : Workspace) (progress : Stage → Progress)
      (response : Response) (τ : State) : σ.Runs n c w progress → τ.held = σ.held →
      τ.calls = σ.callsWith n c (.returned (.ok response)) → OwnRule s runner σ (.collect n) τ

theorem ownRule_of_rule (hm : m.IsOwn) (h : Rule s runner σ m τ) : OwnRule s runner σ m τ := by
  cases h with
  | turn _ t c w progress launched p _ hmove hr hturn hheld _ hcalls =>
    exact .turn m t c w progress launched p τ hmove hr hturn hheld hcalls
  | collect n c w progress results _ hr _ _ hheld _ _ hcalls =>
    exact .collect n c w progress _ τ hr hheld hcalls
  | submit _ _ _ _ _ _ _ _ => exact hm.elim
  | drop _ _ _ _ _ _ _ _ _ _ _ => exact hm.elim
  | hold _ _ _ _ _ _ _ _ => exact hm.elim
  | release _ _ _ _ _ _ => exact hm.elim
  | close _ _ _ _ _ _ => exact hm.elim

theorem served_submit {r : Request} {h : Host} (hσ : σ.Served)
    (hvalid : r.invalid? s.sourceLimit = none)
    (hcreate : Workspace.create σ.host s.scratchRoot r.source = (.ok w, h)) :
    (submit s σ r).Served := by
  unfold submit
  rw [hvalid, hcreate]
  refine ⟨hσ.held, fun c hc => ?_⟩
  rcases List.mem_append.mp hc with hc | hc
  · exact hσ.calls c hc
  · rw [List.mem_singleton.mp hc]
    exact .inl ⟨w, _, rfl⟩

theorem served_own (hσ : σ.Served) (hm : m.IsOwn) (h : Rule s runner σ m τ) : τ.Served := by
  cases ownRule_of_rule hm h with
  | turn _ t c w progress launched p _ _ _ _ hheld hcalls =>
    refine ⟨by rw [hheld, hσ.held], fun c' hc' => ?_⟩
    rw [hcalls] at hc'
    rcases List.mem_or_eq_of_mem_set hc' with hc' | rfl
    · exact hσ.calls c' hc'
    · exact .inl ⟨w, _, rfl⟩
  | collect n c w progress response _ _ hheld hcalls =>
    refine ⟨by rw [hheld, hσ.held], fun c' hc' => ?_⟩
    rw [hcalls] at hc'
    rcases List.mem_or_eq_of_mem_set hc' with hc' | rfl
    · exact hσ.calls c' hc'
    · exact .inr ⟨_, rfl⟩

theorem calm_own (hσ : σ.Calm) (hm : m.IsOwn) (h : Rule s runner σ m τ) : τ.Calm := by
  have hτ := served_own hσ.served hm h
  refine ⟨?_, hτ.held, hτ.calls⟩
  rcases closed_of_rule h with hsame | ⟨rfl, -⟩
  · rw [hsame, hσ.isOpen]
  · exact hm.elim

/-! ## Each move takes work away or changes nothing -/

/-- A stage of an open gate that has to wait on changes nothing by asking. -/
theorem step_ask_of_pending {capacity : Nat} {g : Gate Ticket} (hledger : σ.Accounted capacity)
    (hopen : σ.gate.closed = false) (hr : σ.Runs t.call c w progress)
    (hw : progress t.stage = .waiting) (hp : σ.gate.poll t = (g, .pending)) :
    step s runner σ (.ask t) = some σ := by
  have hwaits : σ.Waits t := by
    show σ.progress? t = some .waiting
    rw [← hw]
    exact hr.progress? t.stage
  obtain rfl := Gate.Ledger.eq_of_pending hledger hopen hwaits hp
  -- The gate is what it was; the stage waits as before, so the calls are what they were too.
  have hadvance : State.advance progress t.stage .waiting = progress := by
    funext k
    unfold State.advance
    split
    · rename_i hk
      rw [hk, hw]
    · rfl
  have hset : σ.calls.set t.call { c with phase := .running w progress } = σ.calls := by
    rw [← hr.phase]
    have hget := hr.call
    rw [List.getElem?_eq_some_iff] at hget
    obtain ⟨hlt, rfl⟩ := hget
    exact List.set_getElem_self hlt
  unfold step
  simp only [hr.call, hr.phase, hw]
  unfold ask
  rw [hp]
  show some (State.setProgress _ t c w progress .waiting) = some σ
  unfold State.setProgress State.setPhase
  rw [hadvance, hset]

theorem lighter_of_turn {g : Gate Ticket} {host : Host} {r : Request} {launched : List Start}
    {before p : Progress} (h : Turn s runner σ t r w before g host launched p) :
    p.work < before.work ∨ before = .waiting ∧ σ.gate.poll t = (g, .pending) := by
  cases h with
  | wait _ _ hbefore hpoll =>
    rcases hbefore with rfl | rfl
    · exact .inl (by decide)
    · exact .inr ⟨rfl, hpoll⟩
  | reject _ _ hbefore _ => exact .inl (by rcases hbefore with rfl | rfl <;> simp [Progress.work])
  | begin _ _ hbefore _ => exact .inl (by rcases hbefore with rfl | rfl <;> simp [Progress.work])
  | breakDown _ _ _ => exact .inl (by simp [Progress.work])
  | filter _ _ _ _ => exact .inl (by simp [Progress.work])
  | complete _ _ _ _ => exact .inl (by simp [Progress.work])
  | filtered _ _ _ _ _ => exact .inl (by simp [Progress.work])

theorem lighter_of_end (hr : σ.Runs n c w progress) {response : Response}
    (hcalls : τ.calls = σ.callsWith n c (.returned (.ok response))) : τ.work < σ.work := by
  have hwork := work_callsWith hr hcalls
  simp only [Phase.work] at hwork
  omega

/-- Every own move takes work away or changes nothing, whether the gate is open or closed. -/
theorem eq_or_lighter_of_own {capacity : Nat} (hledger : σ.Accounted capacity) (hm : m.IsOwn)
    (hstep : step s runner σ m = some τ) : τ = σ ∨ τ.work < σ.work := by
  cases ownRule_of_rule hm (rule_of_step hstep) with
  | collect n c w progress response _ hr _ hcalls => exact .inr (lighter_of_end hr hcalls)
  | turn _ t c w progress launched p _ hmove hr hturn _ hcalls =>
    have hwork := work_advance hr hcalls
    rcases lighter_of_turn hturn with hlt | ⟨hwaiting, hpoll⟩
    · exact .inr (by omega)
    · rcases hmove with rfl | rfl
      · -- A closed gate tells nobody to wait.
        have hopen : σ.gate.closed = false := Gate.open_of_pending hpoll
        rw [step_ask_of_pending hledger hopen hr hwaiting hpoll] at hstep
        exact .inl (Option.some.inj hstep).symm
      · -- A stage that waits has no run that could end.
        unfold step at hstep
        simp [hr.call, hr.phase, hwaiting] at hstep

/-! ## A move that takes work away -/

/-- The runs that stages are waiting for come to an end. -/
def State.RunsEnd (σ : State) : Prop :=
  σ.EveryStage fun _ _ _ p => ∀ run, Schedule.runOf p = some run → run.ending.isSome = true

theorem runsEnd_of_reachable {h : Host} (hstart : State.start? s h = some first)
    (hends : ∀ i h, (runner i h).ending.isSome = true) (hσ : Reachable s runner first σ) :
    σ.RunsEnd := by
  refine everyStage_of_reachable hstart (fun _ _ _ run hrun => by cases hrun) ?_ hσ
  intro σ τ t r w before launched p hturn run hrun
  generalize τ.gate = g at hturn
  generalize τ.host = host at hturn
  -- Only a turn that starts something leaves a run to wait for.
  cases hturn with
  | begin _ _ _ _ => exact Option.some.inj hrun ▸ hends _ _
  | filter _ _ _ _ => exact Option.some.inj hrun ▸ hends _ _
  | _ => cases hrun

/-- A turn takes work away unless it tells a stage that waits to wait on. -/
theorem lighter_of_step (hr : σ.Runs t.call c w progress) (hm : m = .ask t ∨ m = .finish t)
    (hstep : step s runner σ m = some τ)
    (hnot : progress t.stage = .waiting → ∀ g, σ.gate.poll t ≠ (g, .pending)) :
    τ.work < σ.work := by
  have hown : m.IsOwn := by rcases hm with rfl | rfl <;> trivial
  cases ownRule_of_rule hown (rule_of_step hstep) with
  | collect _ _ _ _ _ _ _ _ _ => rcases hm with he | he <;> cases he
  | turn _ t' c' w' progress' launched p _ hmove hr' hturn _ hcalls =>
    have ht : t' = t := by
      rcases hm with rfl | rfl <;> rcases hmove with he | he <;> cases he <;> rfl
    subst ht
    obtain ⟨rfl, rfl, rfl⟩ := hr.unique hr'
    have hwork := work_advance hr hcalls
    rcases lighter_of_turn hturn with hlt | ⟨hwaiting, hpoll⟩
    · omega
    · exact absurd hpoll (hnot hwaiting _)

theorem exists_step_ask (s : Settings) (runner : Runner) (hr : σ.Runs t.call c w progress)
    (hp : progress t.stage = .fresh ∨ progress t.stage = .waiting) :
    ∃ τ, step s runner σ (.ask t) = some τ := by
  unfold step
  rcases hp with hp | hp <;> simp only [hr.call, hr.phase, hp] <;> exact ⟨_, rfl⟩

theorem exists_step_finish (s : Settings) (runner : Runner) (hr : σ.Runs t.call c w progress)
    {run : Run} (hrun : Schedule.runOf (progress t.stage) = some run)
    (hends : run.ending.isSome = true) : ∃ τ, step s runner σ (.finish t) = some τ := by
  obtain ⟨e, he⟩ := Option.isSome_iff_exists.mp hends
  unfold step
  cases hp : progress t.stage with
  | compiling run' =>
    rw [hp] at hrun
    obtain rfl := Option.some.inj hrun
    simp only [hr.call, hr.phase, hp, he]
    exact ⟨_, rfl⟩
  | demangling code raw run' =>
    rw [hp] at hrun
    obtain rfl := Option.some.inj hrun
    simp only [hr.call, hr.phase, hp, he]
    exact ⟨_, rfl⟩
  | fresh => rw [hp] at hrun; cases hrun
  | waiting => rw [hp] at hrun; cases hrun
  | done r => rw [hp] at hrun; cases hrun

theorem exists_step_collect (s : Settings) (runner : Runner)
    (hr : σ.Runs n c w progress) (hdone : ∀ k, ∃ r, progress k = .done r) :
    ∃ τ, step s runner σ (.collect n) = some τ ∧
      ∃ response, τ.calls = σ.callsWith n c (.returned (.ok response)) := by
  choose g hg using hdone
  have hresults := results?_eq_some_iff.mpr ⟨g, hg, rfl⟩
  unfold step
  simp only [hr.call, hr.phase, hresults]
  exact ⟨_, rfl, _, rfl⟩

/-- A permit is held by some compiler that runs, if by any. -/
theorem exists_compiling (h : 0 < σ.compilers) :
    ∃ t run, σ.progress? t = some (.compiling run) := by
  unfold State.compilers State.tally at h
  rw [List.sum_pos_iff_exists_pos_nat] at h
  obtain ⟨k, hk, hpos⟩ := h
  obtain ⟨c, hc, rfl⟩ := List.mem_map.mp hk
  obtain ⟨n, hn⟩ := List.getElem?_of_mem hc
  cases hphase : c.phase with
  | running w progress =>
    rw [hphase, Phase.tally, List.sum_pos_iff_exists_pos_nat] at hpos
    obtain ⟨j, hj, hpos⟩ := hpos
    obtain ⟨k, -, rfl⟩ := List.mem_map.mp hj
    have hr : σ.Runs n c w progress := ⟨hn, hphase⟩
    cases hp : progress k with
    | compiling run => exact ⟨⟨n, k⟩, run, by rw [hr.progress? k, hp]⟩
    | _ => rw [hp] at hpos; cases hpos
  | returned a => rw [hphase] at hpos; cases hpos
  | dropped => rw [hphase] at hpos; cases hpos

end StageLens.Orchestrator
