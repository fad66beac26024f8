import StageLens.Proofs.Orchestrator.Clock

/-!
# What is reported decides nothing

The journal of a state is written and never read. A machine that forgets its journal makes the same
moves (`step_silent`), and so does a schedule: schedules that differ in no more than what was
reported give a request the same answer (`Schedule.answer_congr`).
-/

namespace StageLens.Orchestrator

variable {s : Settings} {runner : Runner} {σ : State} {t : Ticket} {call : Call} {w : Workspace}
variable {progress : Stage → Progress}

/-- The state without its journal. -/
def State.silent (σ : State) : State := { σ with journal := [] }

/-! ## Moves -/

theorem submit_silent (s : Settings) (σ : State) (r : Request) :
    (submit s σ.silent r).silent = (submit s σ r).silent := by
  unfold submit
  cases r.invalid? s.sourceLimit with
  | some e => rfl
  | none =>
    dsimp only [State.silent]
    rcases Workspace.create σ.host s.scratchRoot r.source with ⟨e | w, h⟩ <;> rfl

theorem ask_silent : (ask s runner σ.silent t call w progress).silent =
    (ask s runner σ t call w progress).silent := by
  unfold ask
  dsimp only [State.silent]
  rcases σ.gate.poll t with ⟨gate, answer⟩
  cases answer <;> rfl

theorem finishCompiler_silent {run : Run} {e : Ending} :
    (finishCompiler s runner σ.silent t call w progress run e).silent =
      (finishCompiler s runner σ t call w progress run e).silent := by
  unfold finishCompiler
  cases e with
  | error f => rfl
  | ok o =>
    dsimp only
    split <;> rfl

/-- **A machine that forgets its journal makes the same moves.** -/
theorem step_silent (s : Settings) (runner : Runner) (σ : State) (m : Move) :
    (step s runner σ.silent m).map State.silent = (step s runner σ m).map State.silent := by
  cases m with
  | submit r => exact congrArg some (submit_silent s σ r)
  | ask t =>
    unfold step
    dsimp only [State.silent]
    cases σ.calls[t.call]? with
    | none => rfl
    | some c =>
      dsimp only
      cases c.phase with
      | running w progress =>
        dsimp only
        cases progress t.stage with
        | fresh => exact congrArg some ask_silent
        | waiting => exact congrArg some ask_silent
        | _ => rfl
      | _ => rfl
  | finish t =>
    unfold step
    dsimp only [State.silent]
    cases σ.calls[t.call]? with
    | none => rfl
    | some c =>
      dsimp only
      cases c.phase with
      | running w progress =>
        dsimp only
        cases progress t.stage with
        | compiling run =>
          dsimp only
          cases run.ending with
          | none => rfl
          | some e => exact congrArg some finishCompiler_silent
        | demangling code raw run =>
          dsimp only
          cases run.ending <;> rfl
        | _ => rfl
      | _ => rfl
  | collect n =>
    unfold step
    dsimp only [State.silent]
    cases σ.calls[n]? with
    | none => rfl
    | some c =>
      dsimp only
      cases c.phase with
      | running w progress =>
        dsimp only
        cases State.results? progress <;> rfl
      | _ => rfl
  | drop n =>
    unfold step
    dsimp only [State.silent]
    cases σ.calls[n]? with
    | none => rfl
    | some c =>
      dsimp only
      cases c.phase <;> rfl
  | hold =>
    unfold step
    dsimp only [State.silent]
    cases σ.gate.tryAcquire <;> rfl
  | release =>
    show Option.map State.silent (if 0 < σ.held then _ else _) =
      Option.map State.silent (if 0 < σ.held then _ else _)
    split <;> rfl
  | close => rfl

/-! ## Schedules -/

namespace Schedule

variable {c d : Schedule} {m : Move}

/-- The schedule without its journal. -/
def silent (c : Schedule) : Schedule := { c with state := c.state.silent }

/-- What does not look at the journal is the same where no more than that differs. -/
theorem eq_of_silent {α : Type} (g : Schedule → α) (hg : ∀ c, g c.silent = g c)
    (h : c.silent = d.silent) : g c = g d := by
  rw [← hg, h, hg]

theorem noteStart_silent (c : Schedule) (t : Ticket) :
    (c.noteStart t).silent = c.silent.noteStart t := by
  have hrun : runAt c.silent.state t = runAt c.state t := rfl
  unfold noteStart
  rw [hrun]
  cases runAt c.state t <;> rfl

/-- Schedules that differ in no more than what was reported have the same moves. -/
theorem take_congr (s : Settings) (runner : Runner) (h : c.silent = d.silent) (m : Move) :
    (take s runner c m).map silent = (take s runner d m).map silent := by
  have hstate : c.state.silent = d.state.silent := congrArg state h
  have hstep : (step s runner c.state m).map State.silent =
      (step s runner d.state m).map State.silent := by
    rw [← step_silent s runner c.state, hstate, step_silent s runner d.state]
  unfold take
  cases hc : step s runner c.state m with
  | none =>
    rw [hc] at hstep
    rw [Option.map_eq_none_iff.mp hstep.symm]
    rfl
  | some σ =>
    rw [hc] at hstep
    obtain ⟨τ, hd, hτ⟩ := Option.map_eq_some_iff.mp hstep.symm
    rw [hd]
    have hnext : ({ c with state := σ } : Schedule).silent = { d with state := τ }.silent := by
      show ({ c.silent with state := σ.silent } : Schedule) = { d.silent with state := τ.silent }
      rw [h, hτ]
    have hnoted : ∀ t, (({ c with state := σ } : Schedule).noteStart t).silent =
        (({ d with state := τ } : Schedule).noteStart t).silent := by
      intro t
      rw [noteStart_silent, noteStart_silent, hnext]
    refine congrArg some ?_
    cases m with
    | ask t => exact hnoted t
    | finish t => exact hnoted t
    | drop n =>
      exact congrArg (fun c : Schedule => { c with
        due := c.due.filter (·.1.call ≠ n)
        leaving := c.leaving.filter (·.1 ≠ n) }) hnext
    | collect n =>
      exact congrArg (fun c : Schedule => { c with
        due := c.due.filter (·.1.call ≠ n)
        leaving := c.leaving.filter (·.1 ≠ n) }) hnext
    | _ => exact hnext

/-- What is taken of one is taken of the other. -/
theorem take_cases (s : Settings) (runner : Runner) (h : c.silent = d.silent) (m : Move) :
    take s runner c m = none ∧ take s runner d m = none ∨
      ∃ c' d', take s runner c m = some c' ∧ take s runner d m = some d' ∧
        c'.silent = d'.silent := by
  have htake := take_congr s runner h m
  cases hc : take s runner c m with
  | none =>
    rw [hc] at htake
    exact .inl ⟨rfl, Option.map_eq_none_iff.mp htake.symm⟩
  | some c' =>
    rw [hc] at htake
    obtain ⟨d', hd, hsame⟩ := Option.map_eq_some_iff.mp htake.symm
    exact .inr ⟨c', d', rfl, hd, hsame.symm⟩

theorem settle_congr (s : Settings) (runner : Runner) (fuel : Nat) (h : c.silent = d.silent) :
    (settle s runner fuel c).silent = (settle s runner fuel d).silent := by
  induction fuel generalizing c d with
  | zero => exact h
  | succ fuel ih =>
    have hmove : nextMove? c = nextMove? d := eq_of_silent nextMove? (fun _ => rfl) h
    unfold settle
    rw [hmove]
    cases nextMove? d with
    | none => exact h
    | some m =>
      rw [Option.bind_some, Option.bind_some]
      rcases take_cases s runner h m with
        ⟨hc, hd⟩ | ⟨c', d', hc, hd, hnext⟩
      · rw [hc, hd]
        exact h
      · rw [hc, hd]
        exact ih hnext

theorem letGo_congr (h : c.silent = d.silent) :
    (letGo s runner c).silent = (letGo s runner d).silent := by
  have hleaving : c.leaving = d.leaving := eq_of_silent leaving (fun _ => rfl) h
  have hnow : c.now = d.now := eq_of_silent now (fun _ => rfl) h
  unfold letGo
  rw [hleaving, hnow]
  generalize d.leaving.filter (·.2 ≤ d.now) = gone
  clear hleaving hnow
  induction gone generalizing c d with
  | nil => exact h
  | cons e gone ih =>
    rw [List.foldl_cons, List.foldl_cons]
    refine ih ?_
    rcases take_cases s runner h (.drop e.1) with
      ⟨hc, hd⟩ | ⟨c', d', hc, hd, hnext⟩
    · rw [hc, hd]
      exact h
    · rw [hc, hd]
      exact hnext

theorem loop_congr (fuel : Nat) (h : c.silent = d.silent) :
    (loop s runner fuel c).silent = (loop s runner fuel d).silent := by
  induction fuel generalizing c d with
  | zero => exact h
  | succ fuel ih =>
    have hmoves : moves c = moves d := eq_of_silent moves (fun _ => rfl) h
    have hsettled := settle_congr s runner (moves d) h
    unfold loop
    dsimp only
    rw [hmoves]
    generalize settle s runner (moves d) c = c' at hsettled
    generalize settle s runner (moves d) d = d' at hsettled
    have htime : nextTime? c' = nextTime? d' := eq_of_silent nextTime? (fun _ => rfl) hsettled
    have hnow : c'.now = d'.now := eq_of_silent now (fun _ => rfl) hsettled
    rw [htime, hnow]
    cases nextTime? d' with
    | none => exact hsettled
    | some time =>
      refine ih (letGo_congr ?_)
      exact congrArg (fun c : Schedule => { c with now := max d'.now time }) hsettled

theorem submit_congr (s : Settings) (runner : Runner)
    (requests : List (Request × Option Nat)) (h : c.silent = d.silent) :
    (submit s runner c requests).silent = (submit s runner d requests).silent := by
  unfold submit
  induction requests generalizing c d with
  | nil => exact h
  | cons request requests ih =>
    obtain ⟨r, patience⟩ := request
    rw [List.foldl_cons, List.foldl_cons]
    refine ih ?_
    have hcount : c.state.calls.length = d.state.calls.length :=
      eq_of_silent (fun c => c.state.calls.length) (fun _ => rfl) h
    dsimp only
    rcases take_cases s runner h (.submit r) with
      ⟨hc, hd⟩ | ⟨c', d', hc, hd, hnext⟩
    · rw [hc, hd]
      exact h
    · rw [hc, hd]
      cases patience with
      | none => exact hnext
      | some time =>
        have hnow : c'.now = d'.now := eq_of_silent now (fun _ => rfl) hnext
        dsimp only
        rw [hcount, hnow]
        exact congrArg (fun c : Schedule => { c with
          now := d'.now
          leaving := c.leaving ++ [(d.state.calls.length, d'.now + time)] }) hnext

/-- **What was reported decides no answer.** -/
theorem answer_congr (s : Settings) (runner : Runner) (requests : List (Request × Option Nat))
    (h : c.silent = d.silent) :
    (answer s runner c requests).1.silent = (answer s runner d requests).1.silent ∧
      (answer s runner c requests).2 = (answer s runner d requests).2 := by
  have hcount : c.state.calls.length = d.state.calls.length :=
    eq_of_silent (fun c => c.state.calls.length) (fun _ => rfl) h
  have hsubmit := submit_congr s runner requests h
  have hmoves : moves (submit s runner c requests) = moves (submit s runner d requests) :=
    eq_of_silent moves (fun _ => rfl) hsubmit
  have hdrive : (drive s runner (submit s runner c requests)).silent =
      (drive s runner (submit s runner d requests)).silent := by
    unfold drive
    rw [hmoves]
    exact loop_congr _ hsubmit
  refine ⟨hdrive, ?_⟩
  have hcalls : (drive s runner (submit s runner c requests)).state.calls =
      (drive s runner (submit s runner d requests)).state.calls :=
    eq_of_silent (fun c => c.state.calls) (fun _ => rfl) hdrive
  unfold answer
  dsimp only
  rw [hcalls, hcount]

end Schedule

end StageLens.Orchestrator
