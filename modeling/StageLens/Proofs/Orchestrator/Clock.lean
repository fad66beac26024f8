import StageLens.Proofs.Orchestrator.Readiness
import StageLens.Proofs.Orchestrator.Rest

/-!
# Schedules come to an end

A schedule does what can be done now, goes on to the next time and so on, and counts its moves from
the start. The count is never what stops it: whatever can be done now takes work away
(`Ready.lighter`), and the clock goes on only to the end of a run, so that something can be done
then. A schedule that stops is at rest (`atRest_of_idle`), and where all runs end and a permit is
left no call is under way any more.
-/

namespace StageLens.Orchestrator.Schedule

/-- The schedules that moves and waiting lead to, where no caller has set itself a time to go. -/
inductive Arises (s : Settings) (runner : Runner) (first : State) : Schedule → Prop
  | start : Arises s runner first { state := first }
  | move {c d : Schedule} (m : Move) : Arises s runner first c → take s runner c m = some d →
      Arises s runner first d
  | wait {c : Schedule} (now : Nat) : Arises s runner first c →
      Arises s runner first { c with now }

/-- The schedules that the calls of a schedule lead to by their own moves in the course of time. -/
inductive Later (s : Settings) (runner : Runner) (c : Schedule) : Schedule → Prop
  | refl : Later s runner c c
  | move {d e : Schedule} (m : Move) : Later s runner c d → m.IsOwn →
      take s runner d m = some e → Later s runner c e
  | wait {d : Schedule} (now : Nat) : Later s runner c d → Later s runner c { d with now }

/-- The clock has one time for each run in progress and no other, and no caller is going to go. -/
structure OnTime (c : Schedule) : Prop where
  running : ∀ e ∈ c.due, (runAt c.state e.1).isSome = true
  listed : ∀ t, (runAt c.state t).isSome = true → t ∈ c.due.map Prod.fst
  nodup : (c.due.map Prod.fst).Nodup
  leaving : c.leaving = []

variable {s : Settings} {runner : Runner} {first σ τ : State} {m : Move} {capacity : Nat}
variable {c d e : Schedule} {t : Ticket} {n : Nat} {call : Call} {w : Workspace}
variable {progress : Stage → Progress} {h : Host}

/-! ## Moves that are ready -/

theorem Ready.isOwn (hm : Ready σ m) : m.IsOwn := by
  cases hm <;> trivial

/-- A move that is ready is open and takes work away. -/
theorem Ready.lighter (s : Settings) (runner : Runner) (hends : σ.RunsEnd) (hm : Ready σ m) :
    ∃ τ, step s runner σ m = some τ ∧ τ.work < σ.work := by
  cases hm with
  | ask t c w progress hr hready =>
    obtain ⟨τ, hstep⟩ := exists_step_ask s runner hr (hready.imp_right And.left)
    refine ⟨τ, hstep, lighter_of_step hr (.inl rfl) hstep fun hwaiting g hpoll => ?_⟩
    -- Nobody is told to wait on who has an answer to come.
    rcases hready with hfresh | ⟨-, hclosed | hhanded⟩
    · rw [hfresh] at hwaiting
      cases hwaiting
    · rw [Gate.open_of_pending hpoll] at hclosed
      cases hclosed
    · cases Gate.found_of_poll hpoll with
      | inQueue _ hnot _ => exact hnot hhanded
      | full _ hnot _ _ => exact hnot hhanded
  | finish t c w progress run hr hrun =>
    have hend := hends t.call c w progress hr t.stage run hrun
    obtain ⟨τ, hstep⟩ := exists_step_finish s runner hr hrun hend
    refine ⟨τ, hstep, lighter_of_step hr (.inr rfl) hstep fun hwaiting => ?_⟩
    rw [hwaiting] at hrun
    cases hrun
  | collect n c w progress hr hresults =>
    obtain ⟨results, hresults⟩ := Option.isSome_iff_exists.mp hresults
    obtain ⟨g, hdone, -⟩ := results?_eq_some_iff.mp hresults
    obtain ⟨τ, hstep, response, hcalls⟩ :=
      exists_step_collect s runner hr fun k => ⟨g k, hdone k⟩
    exact ⟨τ, hstep, lighter_of_end hr hcalls⟩

/-! ## The clock -/

theorem runAt_eq (σ : State) (t : Ticket) : runAt σ t = (σ.progress? t).bind runOf := by
  unfold runAt State.progress?
  cases σ.calls[t.call]? with
  | none => rfl
  | some c =>
    rw [Option.bind_some, Option.bind_some]
    cases c.phase <;> rfl

theorem runAt_congr (hcalls : τ.calls = σ.calls) (t : Ticket) : runAt τ t = runAt σ t := by
  rw [runAt_eq, runAt_eq, State.progress?_congr hcalls]

theorem isSome_ending_of_runAt (hends : σ.RunsEnd) {run : Run} (hrun : runAt σ t = some run) :
    run.ending.isSome = true := by
  rw [runAt_eq] at hrun
  obtain ⟨p, hp, hrun⟩ := Option.bind_eq_some_iff.mp hrun
  obtain ⟨c, w, progress, hr, rfl⟩ := State.runs_of_progress? hp
  exact hends _ c w progress hr _ run hrun

theorem onTime_start (hstart : State.start? s h = some first) :
    OnTime ({ state := first } : Schedule) := by
  refine ⟨fun e he => (by cases he), fun t ht => ?_, List.nodup_nil, rfl⟩
  unfold runAt at ht
  rw [calls_of_start hstart] at ht
  cases ht

/-- A clock that is right for the other stages is right when what became of one stage is noted. -/
theorem onTime_noteStart (hrunning : ∀ e ∈ c.due, e.1 ≠ t → (runAt c.state e.1).isSome = true)
    (hlisted : ∀ u, u ≠ t → (runAt c.state u).isSome = true → u ∈ c.due.map Prod.fst)
    (hnodup : (c.due.map Prod.fst).Nodup) (hleaving : c.leaving = []) (hends : c.state.RunsEnd) :
    (c.noteStart t).OnTime := by
  have hothers : ∀ e ∈ c.due.filter (·.1 ≠ t), (runAt c.state e.1).isSome = true ∧ e.1 ≠ t := by
    intro e he
    obtain ⟨hmem, hne⟩ := List.mem_filter.mp he
    have hne : e.1 ≠ t := by simpa using hne
    exact ⟨hrunning e hmem hne, hne⟩
  have hkept : ∀ u, u ≠ t → (runAt c.state u).isSome = true →
      u ∈ (c.due.filter (·.1 ≠ t)).map Prod.fst := by
    intro u hu hrun
    obtain ⟨e, he, rfl⟩ := List.mem_map.mp (hlisted u hu hrun)
    exact List.mem_map_of_mem (List.mem_filter.mpr ⟨he, by simpa using hu⟩)
  have hnodup' : ((c.due.filter (·.1 ≠ t)).map Prod.fst).Nodup :=
    hnodup.sublist (List.filter_sublist.map Prod.fst)
  unfold noteStart
  split
  · rename_i run hrun
    dsimp only
    rw [if_pos (isSome_ending_of_runAt hends hrun)]
    refine ⟨fun e he => ?_, fun u hu => ?_, ?_, hleaving⟩
    · rcases List.mem_cons.mp he with rfl | he
      · show (runAt c.state t).isSome = true
        rw [hrun]
        rfl
      · exact (hothers e he).1
    · rw [List.map_cons, List.mem_cons]
      by_cases hut : u = t
      · exact .inl hut
      · exact .inr (hkept u hut hu)
    · rw [List.map_cons, List.nodup_cons]
      refine ⟨fun hmem => ?_, hnodup'⟩
      obtain ⟨e, he, het⟩ := List.mem_map.mp hmem
      exact (hothers e he).2 het
  · rename_i hnone
    refine ⟨fun e he => (hothers e he).1, fun u hu => hkept u ?_ hu, hnodup', hleaving⟩
    rintro rfl
    have hsome : (runAt c.state u).isSome = true := hu
    rw [hnone] at hsome
    cases hsome

/-- A clock stays right when a call ends and its runs with it. -/
theorem onTime_forget (hc : c.OnTime) {τ : State}
    (hrun : ∀ u, runAt τ u = if u.call = n then none else runAt c.state u) :
    OnTime { c with
      state := τ, due := c.due.filter (·.1.call ≠ n), leaving := c.leaving.filter (·.1 ≠ n) } := by
  refine ⟨fun e he => ?_, fun u hu => ?_, ?_, ?_⟩
  · obtain ⟨hmem, hne⟩ := List.mem_filter.mp he
    show (runAt τ e.1).isSome = true
    rw [hrun, if_neg (by simpa using hne)]
    exact hc.running e hmem
  · have hu : (runAt τ u).isSome = true := hu
    rw [hrun] at hu
    split at hu
    · cases hu
    · rename_i hne
      obtain ⟨e, he, rfl⟩ := List.mem_map.mp (hc.listed u hu)
      exact List.mem_map_of_mem (List.mem_filter.mpr ⟨he, by simpa using hne⟩)
  · exact hc.nodup.sublist (List.filter_sublist.map Prod.fst)
  · show c.leaving.filter _ = []
    rw [hc.leaving]
    rfl

/-- A clock stays right where the runs in progress are the same. -/
theorem onTime_congr (hc : c.OnTime) {τ : State} (hrun : ∀ u, runAt τ u = runAt c.state u) :
    OnTime { c with state := τ } where
  running := fun e he => by
    show (runAt τ e.1).isSome = true
    rw [hrun]
    exact hc.running e he
  listed := fun t ht => by
    have ht : (runAt τ t).isSome = true := ht
    rw [hrun] at ht
    exact hc.listed t ht
  nodup := hc.nodup
  leaving := hc.leaving

/-- **Every move keeps the clock right.** -/
theorem onTime_take (hc : c.OnTime) (hends : d.state.RunsEnd) (htake : take s runner c m = some d) :
    d.OnTime := by
  obtain ⟨τ, hstep, hd⟩ := Option.map_eq_some_iff.mp htake
  cases rule_of_step hstep with
  | submit r p _ hp _ _ _ hcalls =>
    subst hd
    refine onTime_congr hc fun u => ?_
    rw [runAt_eq, runAt_eq, State.progress?_append hcalls]
    split
    · rename_i hu
      have hold : c.state.progress? u = none := by
        unfold State.progress?
        rw [List.getElem?_eq_none (by omega)]
        rfl
      rw [hold]
      generalize τ.host = host at hp
      cases hp <;> rfl
    · rfl
  | turn _ t call w progress launched p _ hm hr _ _ _ hcalls =>
    have hother : ∀ u, u ≠ t → runAt τ u = runAt c.state u := by
      intro u hu
      rw [runAt_eq, runAt_eq, progress?_turn hr hcalls, if_neg hu]
    have hnoted : d = ({ c with state := τ } : Schedule).noteStart t := by
      rcases hm with rfl | rfl <;> exact hd.symm
    have hstate : d.state = τ := by
      rw [hnoted]
      unfold noteStart
      split <;> rfl
    rw [hstate] at hends
    rw [hnoted]
    refine onTime_noteStart (fun e he hne => ?_) (fun u hu hrun => ?_) hc.nodup hc.leaving hends
    · show (runAt τ e.1).isSome = true
      rw [hother _ hne]
      exact hc.running e he
    · have hrun : (runAt τ u).isSome = true := hrun
      rw [hother u hu] at hrun
      exact hc.listed u hrun
  | collect n call w progress results _ hr _ _ _ _ _ hcalls =>
    subst hd
    refine onTime_forget hc fun u => ?_
    rw [runAt_eq, runAt_eq, State.progress?_callsWith hr hcalls]
    split <;> rfl
  | drop n call w progress _ hr _ _ _ _ hcalls =>
    subst hd
    refine onTime_forget hc fun u => ?_
    rw [runAt_eq, runAt_eq, State.progress?_callsWith hr hcalls]
    split <;> rfl
  | hold _ _ _ _ _ _ _ hcalls =>
    subst hd
    exact onTime_congr hc (runAt_congr hcalls)
  | release _ _ _ _ _ hcalls =>
    subst hd
    exact onTime_congr hc (runAt_congr hcalls)
  | close _ _ _ _ _ hcalls =>
    subst hd
    exact onTime_congr hc (runAt_congr hcalls)

/-- The time of a run is the one that is looked up for it. -/
theorem OnTime.lookup (hc : c.OnTime) {time : Nat} (hmem : (t, time) ∈ c.due) :
    c.due.lookup t = some time := by
  have hnodup := hc.nodup
  generalize c.due = due at hmem hnodup
  induction due with
  | nil => cases hmem
  | cons e due ih =>
    obtain ⟨u, time'⟩ := e
    rw [List.map_cons, List.nodup_cons] at hnodup
    rcases List.mem_cons.mp hmem with he | hrest
    · cases he
      exact List.lookup_cons_self
    · have hne : t ≠ u := by
        rintro rfl
        exact hnodup.1 (List.mem_map.mpr ⟨_, hrest, rfl⟩)
      rw [List.lookup_cons, beq_false_of_ne hne]
      exact ih hrest hnodup.2

/-! ## What stays the same -/

theorem state_take (htake : take s runner c m = some d) : step s runner c.state m = some d.state := by
  obtain ⟨τ, hstep, rfl⟩ := Option.map_eq_some_iff.mp htake
  rw [hstep]
  cases m with
  | ask t => unfold noteStart; dsimp only; split <;> rfl
  | finish t => unfold noteStart; dsimp only; split <;> rfl
  | _ => rfl

theorem exists_take (hstep : step s runner c.state m = some τ) :
    ∃ d, take s runner c m = some d := by
  unfold take
  rw [hstep]
  exact ⟨_, rfl⟩

theorem Arises.reachable (hc : Arises s runner first c) : Reachable s runner first c.state := by
  induction hc with
  | start => exact .refl
  | move m _ htake ih => exact .step ih (state_take htake)
  | wait now _ ih => exact ih

theorem Arises.settle (fuel : Nat) (hc : Arises s runner first c) :
    Arises s runner first (settle s runner fuel c) := by
  induction fuel generalizing c with
  | zero => exact hc
  | succ fuel ih =>
    unfold Schedule.settle
    split
    · rename_i d hd
      obtain ⟨m, -, htake⟩ := Option.bind_eq_some_iff.mp hd
      exact ih (.move m hc htake)
    · exact hc

theorem Arises.letGo (hc : Arises s runner first c) : Arises s runner first (letGo s runner c) := by
  unfold Schedule.letGo
  refine List.foldlRecOn _ _ hc fun d hd e _ => ?_
  cases htake : take s runner d (.drop e.1) with
  | none => exact hd
  | some d' => exact .move _ hd htake

/-- However often the clock goes on, a schedule has come about by moves and waiting. -/
theorem Arises.loop (fuel : Nat) (hc : Arises s runner first c) :
    Arises s runner first (loop s runner fuel c) := by
  induction fuel generalizing c with
  | zero => exact hc
  | succ fuel ih =>
    have hsettled := hc.settle (moves c)
    unfold Schedule.loop
    dsimp only
    split
    · exact hsettled
    · exact ih (hsettled.wait _).letGo

theorem Arises.answer (hc : Arises s runner first c) (r : Request) :
    Arises s runner first (c.answer s runner [(r, none)]).1 := by
  have hsubmitted : Arises s runner first (c.submit s runner [(r, none)]) :=
    .move (.submit r) hc rfl
  exact hsubmitted.loop _

/-- Where all runs end, every schedule that arises has its clock right. -/
theorem Arises.onTime (hstart : State.start? s h = some first)
    (hends : ∀ i h, (runner i h).ending.isSome = true) (hc : Arises s runner first c) :
    c.OnTime := by
  induction hc with
  | start => exact onTime_start hstart
  | move m hc htake ih =>
    have hd := Arises.move m hc htake
    exact onTime_take ih (runsEnd_of_reachable hstart hends hd.reachable) htake
  | wait now _ ih => exact ⟨ih.running, ih.listed, ih.nodup, ih.leaving⟩

theorem Later.trans (hd : Later s runner c d) (he : Later s runner d e) : Later s runner c e := by
  induction he with
  | refl => exact hd
  | move m _ hm htake ih => exact .move m ih hm htake
  | wait now _ ih => exact .wait now ih

theorem Later.arises (hc : Arises s runner first c) (hd : Later s runner c d) :
    Arises s runner first d := by
  induction hd with
  | refl => exact hc
  | move m _ _ htake ih => exact .move m ih htake
  | wait now _ ih => exact .wait now ih

theorem Later.reachable (hd : Later s runner c d) : Reachable s runner c.state d.state := by
  induction hd with
  | refl => exact .refl
  | move m _ _ htake ih => exact .step ih (state_take htake)
  | wait now _ ih => exact ih

/-- The calls leave it to others to close the gate, to take permits and to make requests. -/
theorem Later.same (hd : Later s runner c d) :
    d.state.gate.closed = c.state.gate.closed ∧ d.state.held = c.state.held ∧
      d.state.calls.length = c.state.calls.length := by
  induction hd with
  | refl => exact ⟨rfl, rfl, rfl⟩
  | wait now _ ih => exact ih
  | move m _ hm htake ih =>
    obtain ⟨hclosed, hheld, hlength⟩ := ih
    have hrule := rule_of_step (state_take htake)
    refine ⟨?_, ?_, ?_⟩
    · rw [← hclosed]
      refine (closed_of_rule hrule).resolve_right fun h => ?_
      rw [h.1] at hm
      exact hm
    · cases ownRule_of_rule hm hrule with
      | turn _ _ _ _ _ _ _ _ _ _ _ hheld' _ => exact hheld'.trans hheld
      | collect _ _ _ _ _ _ _ hheld' _ => exact hheld'.trans hheld
    · rw [← hlength]
      cases ownRule_of_rule hm hrule with
      | turn _ _ _ _ _ _ _ _ _ _ _ _ hcalls => rw [hcalls, State.callsWith, List.length_set]
      | collect _ _ _ _ _ _ _ _ hcalls => rw [hcalls, State.callsWith, List.length_set]

/-- A call does not go away by itself. -/
theorem Later.not_dropped (hd : Later s runner c d) (hn : c.state.calls[n]? = some call)
    (hphase : call.phase ≠ .dropped) :
    ∃ call', d.state.calls[n]? = some call' ∧ call'.request = call.request ∧
      call'.phase ≠ .dropped := by
  induction hd with
  | refl => exact ⟨call, hn, rfl, hphase⟩
  | wait now _ ih => exact ih
  | move m _ hm htake ih =>
    obtain ⟨call', hcall', hreq, hphase'⟩ := ih
    have hset : ∀ (σ τ : State) (i : Nat) (c₁ : Call) (w : Workspace) (before : Stage → Progress)
        (p : Phase), σ.calls[n]? = some call' → σ.Runs i c₁ w before →
        τ.calls = σ.callsWith i c₁ p → p ≠ .dropped → ∃ call', τ.calls[n]? = some call' ∧
          call'.request = call.request ∧ call'.phase ≠ .dropped := by
      intro σ τ i c₁ w before p hn hr hcalls hp
      rw [hcalls, State.getElem?_callsWith hr]
      split
      · rename_i hi
        subst hi
        obtain rfl := Option.some.inj (hn.symm.trans hr.call)
        exact ⟨_, rfl, hreq, hp⟩
      · exact ⟨call', hn, hreq, hphase'⟩
    cases ownRule_of_rule hm (rule_of_step (state_take htake)) with
    | turn _ t c₁ w before _ _ _ _ hr _ _ hcalls =>
      exact hset _ _ _ _ _ _ _ hcall' hr hcalls (by simp)
    | collect i c₁ w before _ _ hr _ hcalls =>
      exact hset _ _ _ _ _ _ _ hcall' hr hcalls (by simp)

/-! ## The count of moves suffices -/

/-- A call has at most four moves for each of its stages and one more. -/
theorem work_le (σ : State) : σ.work ≤ 32 * σ.calls.length := by
  unfold State.work
  induction σ.calls with
  | nil => exact Nat.le_refl 0
  | cons c calls ih =>
    have hstage : ∀ p : Progress, p.work ≤ 4 := by
      intro p
      cases p <;> simp [Progress.work]
    have hcall : c.phase.work ≤ 25 := by
      cases c.phase with
      | running w progress =>
        have hsum := List.sum_le_card_nsmul (Stage.all.map fun k => (progress k).work) 4
          fun x hx => by
            obtain ⟨k, -, rfl⟩ := List.mem_map.mp hx
            exact hstage _
        rw [List.length_map] at hsum
        show _ + 1 ≤ 25
        exact Nat.succ_le_succ hsum
      | returned a => exact Nat.zero_le _
      | dropped => exact Nat.zero_le _
    rw [List.map_cons, List.sum_cons, List.length_cons]
    omega

section Ends

variable (hstart : State.start? s h = some first)
variable (hends : ∀ i h, (runner i h).ending.isSome = true)

include hstart hends

/-- What is done next is open and takes work away. -/
theorem exists_take_of_nextMove? (hc : Arises s runner first c) (hm : nextMove? c = some m) :
    ∃ d, take s runner c m = some d ∧ Later s runner c d ∧ d.state.work < c.state.work := by
  have hready := ready_of_nextMove? hm
  obtain ⟨τ, hstep, hlt⟩ := hready.lighter s runner
    (runsEnd_of_reachable hstart hends hc.reachable)
  obtain ⟨d, htake⟩ := exists_take hstep
  have hd : d.state = τ := by
    rw [state_take htake] at hstep
    exact Option.some.inj hstep
  exact ⟨d, htake, .move m .refl hready.isOwn htake, by rwa [hd]⟩

/-- Nothing is left to do now when the moves of so much work are counted. -/
theorem settle_spec (fuel : Nat) (hc : Arises s runner first c) :
    Later s runner c (settle s runner fuel c) ∧
      (settle s runner fuel c).state.work ≤ c.state.work ∧
      (c.state.work ≤ fuel → nextMove? (settle s runner fuel c) = none) := by
  induction fuel generalizing c with
  | zero =>
    refine ⟨.refl, Nat.le_refl _, fun hwork => ?_⟩
    cases hm : nextMove? c with
    | none => exact hm
    | some m =>
      obtain ⟨d, -, -, hlt⟩ := exists_take_of_nextMove? hstart hends hc hm
      omega
  | succ fuel ih =>
    unfold settle
    cases hm : nextMove? c with
    | none => exact ⟨.refl, Nat.le_refl _, fun _ => hm⟩
    | some m =>
      obtain ⟨d, htake, hlater, hlt⟩ := exists_take_of_nextMove? hstart hends hc hm
      rw [Option.bind_some, htake]
      obtain ⟨hd, hle, hdone⟩ := ih (hlater.arises hc)
      exact ⟨hlater.trans hd, by dsimp only; omega, fun hwork => hdone (by omega)⟩

theorem settle_lighter {fuel : Nat} (hc : Arises s runner first c) (hm : nextMove? c = some m)
    (hfuel : 0 < fuel) : (settle s runner fuel c).state.work < c.state.work := by
  obtain ⟨fuel, rfl⟩ := Nat.exists_eq_succ_of_ne_zero (Nat.ne_of_gt hfuel)
  obtain ⟨d, htake, hlater, hlt⟩ := exists_take_of_nextMove? hstart hends hc hm
  have hle := (settle_spec hstart hends fuel (hlater.arises hc)).2.1
  unfold settle
  rw [hm, Option.bind_some, htake]
  exact Nat.lt_of_le_of_lt hle hlt

omit hstart hends in
theorem letGo_eq (hc : c.OnTime) : letGo s runner c = c := by
  unfold letGo
  rw [hc.leaving]
  rfl

/-- When the next time has come, some run ends. -/
theorem exists_nextMove? (hc : Arises s runner first c) {time : Nat}
    (htime : nextTime? c = some time) :
    ∃ m, nextMove? { c with now := max c.now time } = some m := by
  have hclock := hc.onTime hstart hends
  unfold nextTime? at htime
  rw [hclock.leaving, List.map_nil, List.append_nil] at htime
  obtain ⟨⟨t, time'⟩, hmem, rfl⟩ := List.mem_map.mp (List.min?_mem htime)
  obtain ⟨run, hrun⟩ := Option.isSome_iff_exists.mp (hclock.running _ hmem)
  rw [runAt_eq] at hrun
  obtain ⟨p, hp, hrun⟩ := Option.bind_eq_some_iff.mp hrun
  obtain ⟨call, w, progress, hr, rfl⟩ := State.runs_of_progress? hp
  by_contra hnone
  have hidle : nextMove? { c with now := max c.now time' } = none := by
    rw [Option.eq_none_iff_forall_ne_some]
    exact fun m hm => hnone ⟨m, hm⟩
  have hstage := (idle_of_nextMove? hidle hr).1 t.stage
  have hlookup : c.due.lookup (⟨t.call, t.stage⟩ : Ticket) = some time' := hclock.lookup hmem
  have hnow : time' ≤ max c.now time' := Nat.le_max_right _ _
  cases hprogress : progress t.stage with
  | compiling run' => simp [hprogress, stageMove?, hlookup] at hstage
  | demangling code raw run' => simp [hprogress, stageMove?, hlookup] at hstage
  | fresh => rw [hprogress] at hrun; cases hrun
  | waiting => rw [hprogress] at hrun; cases hrun
  | done r => rw [hprogress] at hrun; cases hrun

/-- With so many times to come as there is work, and one more where nothing can be done now, the
schedule stops because nothing is left to do and nothing to wait for. -/
theorem loop_spec (fuel : Nat) (hc : Arises s runner first c) (hwork : c.state.work ≤ fuel)
    (hidle : nextMove? c = none → c.state.work < fuel) :
    Later s runner c (loop s runner fuel c) ∧ nextMove? (loop s runner fuel c) = none ∧
      nextTime? (loop s runner fuel c) = none := by
  induction fuel generalizing c with
  | zero =>
    cases hm : nextMove? c with
    | none => exact absurd (hidle hm) (Nat.not_lt_zero _)
    | some m =>
      obtain ⟨d, -, -, hlt⟩ := exists_take_of_nextMove? hstart hends hc hm
      omega
  | succ fuel ih =>
    obtain ⟨hlater, hle, hdone⟩ := settle_spec hstart hends (moves c) hc
    have hsettled := hdone (work_le c.state)
    have hless : (settle s runner (moves c) c).state.work ≤ fuel := by
      cases hm : nextMove? c with
      | none =>
        have := hidle hm
        omega
      | some m =>
        obtain ⟨d, -, -, hlt⟩ := exists_take_of_nextMove? hstart hends hc hm
        have hmoves : 0 < moves c := Nat.lt_of_lt_of_le (Nat.zero_lt_of_lt hlt) (work_le c.state)
        have := settle_lighter hstart hends hc hm hmoves
        omega
    have hsettles := hlater.arises hc
    unfold loop
    dsimp only
    generalize settle s runner (moves c) c = d at *
    split
    · rename_i htime
      exact ⟨hlater, hsettled, htime⟩
    · rename_i time htime
      obtain ⟨m, hm⟩ := exists_nextMove? hstart hends hsettles htime
      have hwait : Later s runner d { d with now := max d.now time } := .wait _ .refl
      have hclock := (hwait.arises hsettles).onTime hstart hends
      rw [letGo_eq hclock]
      have hnext := ih (hwait.arises hsettles) hless fun hnone => by
        rw [hm] at hnone
        cases hnone
      exact ⟨(hlater.trans hwait).trans hnext.1, hnext.2⟩

/-- **A schedule goes on until nothing is left to do and nothing to wait for.** -/
theorem drive_spec (hc : Arises s runner first c) :
    Later s runner c (drive s runner c) ∧ nextMove? (drive s runner c) = none ∧
      nextTime? (drive s runner c) = none := by
  have hwork : c.state.work ≤ moves c := work_le c.state
  exact loop_spec hstart hends _ hc (by omega) fun _ => by omega

end Ends

/-! ## At the end -/

/-- Where nothing is left to do and nothing to wait for, no call changes anything any more. -/
theorem atRest_of_idle (hledger : c.state.Accounted capacity) (hclock : c.OnTime)
    (hmove : nextMove? c = none) (htime : nextTime? c = none) : c.state.AtRest s runner := by
  have hdue : c.due = [] := by
    unfold nextTime? at htime
    rw [hclock.leaving, List.map_nil, List.append_nil, List.min?_eq_none_iff,
      List.map_eq_nil_iff] at htime
    exact htime
  have hnorun : ∀ t, runAt c.state t = none := by
    intro t
    by_contra hsome
    have hmem := hclock.listed t (Option.isSome_iff_ne_none.mpr hsome)
    rw [hdue] at hmem
    cases hmem
  intro m τ hm hstep
  have hrule := rule_of_step hstep
  cases hrule with
  | collect n call w progress results _ hr hresults _ _ _ _ _ =>
    rw [(idle_of_nextMove? hmove hr).2] at hresults
    cases hresults
  | turn _ t call w progress launched p _ hmove' hr _ _ _ _ =>
    have hstage := (idle_of_nextMove? hmove hr).1 t.stage
    have hrun := hnorun t
    rw [runAt_eq, hr.progress? t.stage] at hrun
    cases hp : progress t.stage with
    | fresh => simp [hp, stageMove?] at hstage
    | compiling run => rw [hp] at hrun; cases hrun
    | demangling code raw run => rw [hp] at hrun; cases hrun
    | done r =>
      -- A stage that is done has no move.
      unfold step at hstep
      rcases hmove' with rfl | rfl <;> simp [hr.call, hr.phase, hp] at hstep
    | waiting =>
      simp only [hp, stageMove?] at hstage
      split at hstage
      · cases hstage
      rename_i hanswer
      rw [Bool.or_eq_true, List.contains_iff_mem, not_or] at hanswer
      have hopen : c.state.gate.closed = false := by simpa using hanswer.1
      have hwaits : c.state.Waits t := (hr.progress? t.stage).trans (congrArg some hp)
      have hqueue := (List.mem_append.mp (hledger.listed hopen t hwaits)).resolve_left hanswer.2
      -- Who waits in the queue is told to wait on, which changes nothing.
      have hpoll : c.state.gate.poll t = (c.state.gate, .pending) := by
        unfold Gate.poll
        rw [hopen, if_neg Bool.false_ne_true, if_neg hanswer.2, if_pos hqueue]
      rcases hmove' with rfl | rfl
      · rw [step_ask_of_pending hledger hopen hr hp hpoll] at hstep
        exact (Option.some.inj hstep).symm
      · unfold step at hstep
        simp [hr.call, hr.phase, hp] at hstep
  | _ => exact hm.elim

/-- **Every call comes to an end by the clock**, where all runs end and others leave a permit. -/
theorem not_runs_of_drive (hstart : State.start? s h = some first)
    (hends : ∀ i h, (runner i h).ending.isSome = true) (hc : Arises s runner first c)
    (hheld : c.state.held < s.capacity) : ¬ (drive s runner c).state.Runs n call w progress := by
  intro hr
  obtain ⟨hlater, hmove, htime⟩ := drive_spec hstart hends hc
  have hd := hlater.arises hc
  have hledger := accounted_of_reachable hstart hd.reachable
  have hrest : (drive s runner c).state.AtRest s runner :=
    atRest_of_idle hledger (hd.onTime hstart hends) hmove htime
  obtain ⟨k, hk⟩ := stranded_of_atRest hledger hrest hr
  refine not_stranded_of_held_lt ?_ (runsEnd_of_reachable hstart hends hd.reachable) _ hk
  rw [hlater.same.2.1]
  exact hheld

/-- Where nothing is left to do and nothing to wait for, a schedule stays as it is. -/
theorem drive_of_idle (s : Settings) (runner : Runner) (hmove : nextMove? c = none)
    (htime : nextTime? c = none) : drive s runner c = c := by
  have hsettled : ∀ fuel, settle s runner fuel c = c := by
    intro fuel
    cases fuel with
    | zero => rfl
    | succ fuel =>
      unfold settle
      rw [hmove]
      rfl
  unfold drive loop
  dsimp only
  rw [hsettled, htime]

/-- The first request that comes is answered without a move if it is refused at once. -/
theorem answer_of_refused (runner : Runner) {r : Request} {e : Refusal}
    (hrefused : (Orchestrator.submit s first r).calls = [⟨r, .returned (.error e)⟩])
    (hnone : first.calls = []) :
    ({ state := first } : Schedule).answer s runner [(r, none)] =
      ({ state := Orchestrator.submit s first r }, [.returned (.error e)]) := by
  let d : Schedule := { state := Orchestrator.submit s first r }
  have hmove : nextMove? d = none := by
    unfold nextMove?
    rw [hrefused]
    rfl
  have hdrive : drive s runner d = d := drive_of_idle s runner hmove rfl
  unfold answer
  rw [hnone]
  show (drive s runner d, (drive s runner d).state.calls.map Call.phase) = _
  rw [hdrive, hrefused]
  rfl

/-- **A request is answered by the clock.** It comes to a schedule, and when the schedule stops its
call has returned. -/
theorem exists_answer (hstart : State.start? s h = some first)
    (hends : ∀ i h, (runner i h).ending.isSome = true) (hc : Arises s runner first c)
    (hheld : c.state.held < s.capacity) (r : Request) :
    ∃ d a, c.answer s runner [(r, none)] = (d, [.returned a]) ∧
      Reachable s runner (Orchestrator.submit s c.state r) d.state ∧
      d.state.calls[c.state.calls.length]? = some ⟨r, .returned a⟩ ∧
      d.state.gate.closed = c.state.gate.closed := by
  let c₁ : Schedule := { c with state := Orchestrator.submit s c.state r }
  have htake : take s runner c (.submit r) = some c₁ := rfl
  have hc₁ : Arises s runner first c₁ := .move _ hc htake
  obtain ⟨p, htaken⟩ := exists_taken s c.state r
  have hphase : p ≠ .dropped := by
    have hp := htaken.reception
    rintro rfl
    generalize (Orchestrator.submit s c.state r).host = host at hp
    cases hp
  obtain ⟨hlater, -, -⟩ := drive_spec hstart hends hc₁
  obtain ⟨hclosed, -, hlength⟩ := hlater.same
  obtain ⟨⟨request, phase⟩, hcall, hreq, hdropped⟩ :=
    hlater.not_dropped htaken.getElem? hphase
  obtain rfl : request = r := hreq
  have hheld₁ : c₁.state.held < s.capacity := htaken.held ▸ hheld
  have hover : ∀ call w progress,
      ¬ (drive s runner c₁).state.Runs c.state.calls.length call w progress :=
    fun _ _ _ => not_runs_of_drive hstart hends hc₁ hheld₁
  have hsize : (drive s runner c₁).state.calls.length = c.state.calls.length + 1 := by
    rw [hlength]
    show (Orchestrator.submit s c.state request).calls.length = _
    rw [htaken.calls, List.length_append, List.length_singleton]
  cases phase with
  | running w progress => exact absurd ⟨hcall, rfl⟩ (hover _ w progress)
  | dropped => exact absurd rfl hdropped
  | returned a =>
    refine ⟨drive s runner c₁, a, ?_, hlater.reachable, hcall, ?_⟩
    · have hlast : (drive s runner c₁).state.calls.drop c.state.calls.length =
          [⟨request, .returned a⟩] := by
        obtain ⟨hlt, hget⟩ := List.getElem?_eq_some_iff.mp hcall
        rw [List.drop_eq_getElem_cons hlt, hget, List.drop_eq_nil_of_le (by omega)]
      show (drive s runner c₁, ((drive s runner c₁).state.calls.drop _).map Call.phase) = _
      rw [hlast]
      rfl
    · rw [hclosed]
      exact congrArg Gate.closed htaken.gate

end StageLens.Orchestrator.Schedule
