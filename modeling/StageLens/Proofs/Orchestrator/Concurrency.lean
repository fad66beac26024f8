import StageLens.Proofs.Orchestrator.Admission
import StageLens.Proofs.Orchestrator.Readiness

/-!
# How much runs at once

No more compilers run at once than the gate has permits, whatever the runner does, whoever goes
away and whenever the gate closes. Where nobody asks for the demangler the compilers are all that
runs, so that the peak of a schedule is bounded by the capacity too.
-/

namespace StageLens.Orchestrator

variable {s : Settings} {runner : Runner} {first σ τ : State} {m : Move}

/-! ## Requests that leave output as it is -/

/-- Nobody has asked for the demangler. -/
def State.Plain (σ : State) : Prop := ∀ c ∈ σ.calls, c.request.options.demangle = false

theorem plain_callsWith {n : Nat} {c : Call} {w : Workspace} {progress : Stage → Progress}
    {p : Phase} (hσ : σ.Plain) (h : σ.Runs n c w progress) (hcalls : τ.calls = σ.callsWith n c p) :
    τ.Plain := by
  intro c' hc'
  rw [hcalls] at hc'
  rcases List.mem_or_eq_of_mem_set hc' with hc' | rfl
  · exact hσ c' hc'
  · exact hσ c (List.mem_of_getElem? h.call)

theorem plain_of_rule (h : Rule s runner σ m τ) (hσ : σ.Plain)
    (hm : ∀ r, m = .submit r → r.options.demangle = false) : τ.Plain := by
  cases h with
  | submit r p _ _ _ _ _ hcalls =>
    intro c hc
    rw [hcalls, List.mem_append, List.mem_singleton] at hc
    rcases hc with hc | rfl
    · exact hσ c hc
    · exact hm r rfl
  | turn _ t c w progress launched p _ _ hr _ _ _ hcalls => exact plain_callsWith hσ hr hcalls
  | collect n c w progress results _ hr _ _ _ _ _ hcalls => exact plain_callsWith hσ hr hcalls
  | drop n c w progress _ hr _ _ _ _ hcalls => exact plain_callsWith hσ hr hcalls
  | hold _ _ _ _ _ _ _ hcalls => intro c hc; exact hσ c (hcalls ▸ hc)
  | release _ _ _ _ _ hcalls => intro c hc; exact hσ c (hcalls ▸ hc)
  | close _ _ _ _ _ hcalls => intro c hc; exact hσ c (hcalls ▸ hc)

def Progress.isDemangling : Progress → Bool
  | .demangling _ _ _ => true
  | _ => false

/-- Demanglers run for those only who have asked. -/
def State.FiltersOnDemand (σ : State) : Prop :=
  σ.EveryStage fun r _ _ p => p.isDemangling = true → r.options.demangle = true

theorem filtersOnDemand_of_reachable {h : Host} (hstart : State.start? s h = some first)
    (hσ : Reachable s runner first σ) : σ.FiltersOnDemand := by
  refine everyStage_of_reachable hstart (fun r w k hk => by cases hk) ?_ hσ
  intro σ τ t r w before launched p hturn hp
  generalize τ.gate = g at hturn
  generalize τ.host = host at hturn
  cases hturn with
  | filter run o _ hwanted =>
    simp only [Demangler.isWanted, Bool.and_eq_true] at hwanted
    exact hwanted.1.2
  | _ => cases hp

/-! ## What runs -/

theorem active_eq_tally (σ : State) :
    Schedule.active σ = σ.tally fun p => (Schedule.runOf p).toList.length := by
  unfold Schedule.active State.tally
  rw [List.length_flatMap]
  congr 1
  refine List.map_congr_left fun c _ => ?_
  cases c.phase with
  | running w progress =>
    show (Stage.all.filterMap fun k => Schedule.runOf (progress k)).length = _
    rw [List.filterMap_eq_flatMap_toList, List.length_flatMap]
    rfl
  | returned a => rfl
  | dropped => rfl

/-- Where nobody asks for the demangler, what runs is the compilers. -/
theorem active_of_plain (hdemand : σ.FiltersOnDemand) (hplain : σ.Plain) :
    Schedule.active σ = σ.compilers := by
  rw [active_eq_tally]
  unfold State.compilers State.tally
  congr 1
  refine List.map_congr_left fun c hc => ?_
  obtain ⟨n, hn⟩ := List.getElem?_of_mem hc
  cases hphase : c.phase with
  | running w progress =>
    show (Stage.all.map _).sum = (Stage.all.map _).sum
    congr 1
    refine List.map_congr_left fun k _ => ?_
    have hk : (progress k).isDemangling = true → c.request.options.demangle = true :=
      hdemand n c w progress ⟨hn, hphase⟩ k
    rw [hplain c hc] at hk
    cases hp : progress k with
    | demangling code raw run =>
      rw [hp] at hk
      exact absurd (hk rfl) Bool.false_ne_true
    | _ => rfl
  | returned a => rfl
  | dropped => rfl

theorem active_le {h : Host} (hstart : State.start? s h = some first)
    (hσ : Reachable s runner first σ) (hplain : σ.Plain) : Schedule.active σ ≤ s.capacity := by
  have hledger := accounted_of_reachable hstart hσ
  have hle := hledger.held_le
  rw [active_of_plain (filtersOnDemand_of_reachable hstart hσ) hplain]
  omega

/-! ## The peak of a schedule -/

namespace Schedule

/-- A schedule over states that the first one leads to, where nobody asks for the demangler and no
more has run at once than the gate has permits. -/
structure Bounded (s : Settings) (runner : Runner) (first : State) (c : Schedule) : Prop where
  reachable : Reachable s runner first c.state
  plain : c.state.Plain
  peak : c.peak ≤ s.capacity

variable {h : Host} {c c' : Schedule}

theorem bounded_noteStart (hstart : State.start? s h = some first)
    (hc : c.Bounded s runner first) (t : Ticket) : (c.noteStart t).Bounded s runner first := by
  unfold noteStart
  split
  · exact ⟨hc.reachable, hc.plain, Nat.max_le.mpr ⟨hc.peak, active_le hstart hc.reachable hc.plain⟩⟩
  · exact ⟨hc.reachable, hc.plain, hc.peak⟩

theorem bounded_take (hstart : State.start? s h = some first) (hc : c.Bounded s runner first)
    (hm : ∀ r, m = .submit r → r.options.demangle = false) (htake : take s runner c m = some c') :
    c'.Bounded s runner first := by
  obtain ⟨τ, hτ, hc'⟩ := Option.map_eq_some_iff.mp htake
  have hnext : ({ c with state := τ } : Schedule).Bounded s runner first :=
    ⟨.step hc.reachable hτ, plain_of_rule (rule_of_step hτ) hc.plain hm, hc.peak⟩
  subst hc'
  cases m with
  | ask t => exact bounded_noteStart hstart hnext t
  | finish t => exact bounded_noteStart hstart hnext t
  | collect n => exact ⟨hnext.reachable, hnext.plain, hnext.peak⟩
  | drop n => exact ⟨hnext.reachable, hnext.plain, hnext.peak⟩
  | _ => exact hnext

/-- What a schedule does by itself is never a request. -/
theorem nextMove?_ne_submit (h : nextMove? c = some m) (r : Request) : m ≠ .submit r := by
  rintro rfl
  cases ready_of_nextMove? h

theorem bounded_settle (hstart : State.start? s h = some first) (fuel : Nat)
    (hc : c.Bounded s runner first) : (settle s runner fuel c).Bounded s runner first := by
  induction fuel generalizing c with
  | zero => exact hc
  | succ fuel ih =>
    unfold settle
    split
    · rename_i c' hc'
      obtain ⟨m, hm, htake⟩ := Option.bind_eq_some_iff.mp hc'
      exact ih (bounded_take hstart hc (fun r hr => absurd hr (nextMove?_ne_submit hm r)) htake)
    · exact hc

theorem bounded_letGo (hstart : State.start? s h = some first) (hc : c.Bounded s runner first) :
    (letGo s runner c).Bounded s runner first := by
  unfold letGo
  generalize c.leaving.filter (·.2 ≤ c.now) = gone
  induction gone generalizing c with
  | nil => exact hc
  | cons e gone ih =>
    refine ih ?_
    show ((take s runner c (.drop e.1)).getD c).Bounded s runner first
    cases htake : take s runner c (.drop e.1) with
    | none => exact hc
    | some c' => exact bounded_take hstart hc (fun r hr => by cases hr) htake

theorem bounded_loop (hstart : State.start? s h = some first) (fuel : Nat)
    (hc : c.Bounded s runner first) : (loop s runner fuel c).Bounded s runner first := by
  induction fuel generalizing c with
  | zero => exact hc
  | succ fuel ih =>
    have hsettled := bounded_settle hstart (moves c) hc
    unfold loop
    dsimp only
    split
    · exact hsettled
    · refine ih (bounded_letGo hstart ?_)
      exact ⟨hsettled.reachable, hsettled.plain, hsettled.peak⟩

theorem bounded_submit (hstart : State.start? s h = some first)
    (requests : List (Request × Option Nat)) (hr : ∀ e ∈ requests, e.1.options.demangle = false)
    (hc : c.Bounded s runner first) : (c.submit s runner requests).Bounded s runner first := by
  unfold submit
  induction requests generalizing c with
  | nil => exact hc
  | cons e requests ih =>
    obtain ⟨hhead, htail⟩ := List.forall_mem_cons.mp hr
    rw [List.foldl_cons]
    refine ih htail ?_
    dsimp only
    split
    · exact hc
    · rename_i c' htake
      have hc' := bounded_take hstart hc (fun r hr => Move.submit.inj hr ▸ hhead) htake
      split
      · exact ⟨hc'.reachable, hc'.plain, hc'.peak⟩
      · exact hc'

theorem bounded_answer (hstart : State.start? s h = some first)
    (requests : List (Request × Option Nat)) (hr : ∀ e ∈ requests, e.1.options.demangle = false)
    (hc : c.Bounded s runner first) : (c.answer s runner requests).1.Bounded s runner first :=
  bounded_loop hstart _ (bounded_submit hstart requests hr hc)

end Schedule

/-- **Bounded concurrency.** In every state that moves lead to, the compilers that have been started
and have neither ended nor been dropped hold one permit each, no demangler holds any, and the
permits that are held are at most the capacity. Where nobody asks for the demangler no more than
that runs at once, and the peak of every schedule from there stays within the capacity too. -/
theorem compilers_within_capacity {h : Host} (hstart : State.start? s h = some first)
    (hσ : Reachable s runner first σ) :
    σ.compilers ≤ σ.gate.inFlight ∧ σ.gate.inFlight = σ.held + σ.compilers ∧
    σ.gate.inFlight ≤ s.capacity ∧
    (σ.Plain → Schedule.active σ = σ.compilers ∧
      ∀ requests : List (Request × Option Nat), (∀ e ∈ requests, e.1.options.demangle = false) →
        (Schedule.answer s runner { state := σ } requests).1.peak ≤ s.capacity) := by
  have hledger := accounted_of_reachable hstart hσ
  have hcount := hledger.inFlight
  have hle := hledger.held_le
  refine ⟨by omega, hcount, by omega, fun hplain => ⟨?_, fun requests hr => ?_⟩⟩
  · exact active_of_plain (filtersOnDemand_of_reachable hstart hσ) hplain
  · exact (Schedule.bounded_answer hstart requests hr ⟨hσ, hplain, Nat.zero_le _⟩).peak

/-- Settings for one compiler at a time. -/
def Settings.narrow : Settings where
  toolchain := .standard
  demangler := { timeout := .ofSeconds 1 }
  capacity := 1
  stageTimeout := .ofSeconds 1
  scratchRoot := none
  sourceLimit := 100

/-- A host that has a directory for temporary files and nothing else. -/
def bareHost : Host := { tree := ⟨[([Text.bytes "tmp"], .directory)]⟩ }

/-- The runner whose runs never end. -/
def hanging : Runner := fun _ h => { ending := none, host := h }

/-- Two calls and one permit: the compiler of the first one never ends, and while the second one
waits for its permit nothing else starts. -/
theorem compilers_within_capacity_hanging :
    ∃ first σ, State.start? .narrow bareHost = some first ∧
      run? .narrow hanging first
        [.submit ⟨"x", {}⟩, .submit ⟨"y", {}⟩, .ask ⟨0, .ast⟩, .ask ⟨1, .ir⟩] = some σ ∧
      Reachable .narrow hanging first σ ∧ σ.Plain ∧ σ.compilers = 1 ∧ σ.gate.queue = [⟨1, .ir⟩] ∧
      (σ.compilers ≤ σ.gate.inFlight ∧ σ.gate.inFlight = σ.held + σ.compilers ∧
        σ.gate.inFlight ≤ Settings.narrow.capacity ∧
        (σ.Plain → Schedule.active σ = σ.compilers ∧
          ∀ requests : List (Request × Option Nat),
            (∀ e ∈ requests, e.1.options.demangle = false) →
            (Schedule.answer .narrow hanging { state := σ } requests).1.peak ≤
              Settings.narrow.capacity)) := by
  have hview : ((State.start? .narrow bareHost).bind fun first => run? .narrow hanging first
      [.submit ⟨"x", {}⟩, .submit ⟨"y", {}⟩, .ask ⟨0, .ast⟩, .ask ⟨1, .ir⟩]).map
      (fun σ => (σ.compilers, σ.gate.queue, σ.calls.map (·.request.options.demangle))) =
      some (1, [⟨1, .ir⟩], [false, false]) := by
    decide +kernel
  obtain ⟨σ, hσ, hview⟩ := Option.map_eq_some_iff.mp hview
  obtain ⟨first, hstart, hrun⟩ := Option.bind_eq_some_iff.mp hσ
  simp only [Prod.mk.injEq] at hview
  obtain ⟨hcompilers, hqueue, hcalls⟩ := hview
  have hreach := reachable_iff_run?.mpr ⟨_, hrun⟩
  have hplain : σ.Plain := by
    intro c hc
    have := List.mem_map_of_mem (f := fun c : Call => c.request.options.demangle) hc
    rw [hcalls] at this
    simpa using this
  exact ⟨first, σ, hstart, hrun, hreach, hplain, hcompilers, hqueue,
    compilers_within_capacity hstart hreach⟩

end StageLens.Orchestrator
