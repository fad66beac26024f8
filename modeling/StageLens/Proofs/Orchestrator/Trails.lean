import StageLens.Proofs.Orchestrator.Admission

/-!
# The trail of a call

Everything that is started stays on record. `Trail` ties how far a stage has come to what has been
started for it: its compiler once it was admitted, and its demangler once the compiler printed
something that is to be filtered, each with the run that was launched and the end it came to. So the
record of a call can be read off its results, whatever else has happened in between
(`trailed_of_reachable`).
-/

namespace StageLens.Orchestrator

/-- What has been started for a stage, the latest first. -/
def State.startsOf (σ : State) (t : Ticket) : List Start := σ.started.filter fun e => e.ticket = t

/-- The start of the compiler of a stage. -/
def compilerStart (s : Settings) (r : Request) (w : Workspace) (t : Ticket) : Start :=
  ⟨t, .compile, compilation s r t.stage w⟩

/-- The start of the demangler for the output of a stage. -/
def demanglerStart (s : Settings) (t : Ticket) (raw : String) : Start :=
  ⟨t, .demangle, s.demangler.invocation raw⟩

section Definitions

variable (s : Settings) (runner : Runner) (first σ : State) (r : Request) (w : Workspace)

/-- A call came to a state: it was the next one there. -/
structure Arrival (n : Nat) (ρ : State) : Prop where
  reachable : Reachable s runner first ρ
  number : ρ.calls.length = n
  later : Reachable s runner (submit s ρ r) σ

/-- A call that was valid found its workspace when it came. -/
structure Lodged (n : Nat) (ρ : State) : Prop extends Arrival s runner first σ r n ρ where
  valid : r.invalid? s.sourceLimit = none
  found : (Workspace.create ρ.host s.scratchRoot r.source).1 = .ok w

/-- A run was launched at a state, for a call that was under way in its workspace. -/
structure LaunchedAt (e : Start) (run : Run) (υ : State) : Prop where
  reachable : Reachable s runner first υ
  runs : ∃ c progress, υ.Runs e.ticket.call c w progress ∧ c.request = r
  launched : run = runner e.invocation υ.host
  later : Reachable s runner υ σ

/-- A run was launched on the way to this state. -/
def Launched (e : Start) (run : Run) : Prop := ∃ υ, LaunchedAt s runner first σ r w e run υ

/-- How far a stage has come and what has been started for it. -/
inductive Trail (t : Ticket) : Progress → List Start → Prop
  | fresh : Trail t .fresh []
  | waiting : Trail t .waiting []
  | rejected : σ.gate.closed = true → Trail t (.done (rejection s r t.stage)) []
  | compiling (run : Run) : Launched s runner first σ r w (compilerStart s r w t) run →
      Trail t (.compiling run) [compilerStart s r w t]
  | broken (run : Run) (f : Failure) : Launched s runner first σ r w (compilerStart s r w t) run →
      run.ending = some (.error f) →
      Trail t (.done (breakdown s r t.stage f)) [compilerStart s r w t]
  | plain (run : Run) (o : Output) : Launched s runner first σ r w (compilerStart s r w t) run →
      run.ending = some (.ok o) →
      Demangler.isWanted t.stage.mayMangle r.options.demangle o.combined = false →
      Trail t (.done (completion s r t.stage o.exitCode o.combined)) [compilerStart s r w t]
  | demangling (run run' : Run) (o : Output) :
      Launched s runner first σ r w (compilerStart s r w t) run →
      run.ending = some (.ok o) →
      Demangler.isWanted t.stage.mayMangle r.options.demangle o.combined = true →
      Launched s runner first σ r w (demanglerStart s t o.combined) run' →
      Trail t (.demangling o.exitCode o.combined run')
        [demanglerStart s t o.combined, compilerStart s r w t]
  | filtered (run run' : Run) (o : Output) (e : Ending) :
      Launched s runner first σ r w (compilerStart s r w t) run →
      run.ending = some (.ok o) →
      Demangler.isWanted t.stage.mayMangle r.options.demangle o.combined = true →
      Launched s runner first σ r w (demanglerStart s t o.combined) run' →
      run'.ending = some e →
      Trail t (.done (completion s r t.stage o.exitCode (Demangler.keep o.combined e)))
        [demanglerStart s t o.combined, compilerStart s r w t]

/-- A call that found its workspace, with the trails of its stages. -/
structure Trails (n : Nat) (progress : Stage → Progress) : Prop where
  lodged : ∃ ρ, Lodged s runner first σ r w n ρ
  trail : ∀ k, Trail s runner first σ r w ⟨n, k⟩ (progress k) (σ.startsOf ⟨n, k⟩)

/-- The trails of a call that has come this far. -/
def Phase.Trailed (n : Nat) : Phase → Prop
  | .running w progress => Trails s runner first σ r w n progress
  | .returned (.ok response) => ∃ (w : Workspace) (results : Stage → StageResult),
      response.entries = (Stage.all.map fun k => (k, results k)) ∧
        Trails s runner first σ r w n fun k => .done (results k)
  | .returned (.error _) => ∀ k, σ.startsOf ⟨n, k⟩ = []
  | .dropped => ∃ w progress, Trails s runner first σ r w n progress

end Definitions

/-- All that has been started belongs to the trail of some call. -/
structure State.Trailed (s : Settings) (runner : Runner) (σ first : State) : Prop where
  calls : ∀ (n : Nat) (c : Call), σ.calls[n]? = some c →
    c.phase.Trailed s runner first σ c.request n
  others : ∀ t : Ticket, σ.calls.length ≤ t.call → σ.startsOf t = []

variable {s : Settings} {runner : Runner} {first σ τ : State} {m : Move} {t : Ticket}
variable {r : Request} {n : Nat} {c : Call} {w : Workspace} {progress : Stage → Progress}

theorem State.mem_startsOf {e : Start} (he : e ∈ σ.started) : e ∈ σ.startsOf e.ticket :=
  List.mem_filter.mpr ⟨he, by simp⟩

/-! ## Trails stay -/

theorem Lodged.mono {ρ : State} (h : Lodged s runner first σ r w n ρ)
    (hτ : Reachable s runner σ τ) : Lodged s runner first τ r w n ρ where
  reachable := h.reachable
  number := h.number
  later := h.later.trans hτ
  valid := h.valid
  found := h.found

theorem Launched.mono {e : Start} {run : Run} (h : Launched s runner first σ r w e run)
    (hτ : Reachable s runner σ τ) : Launched s runner first τ r w e run := by
  obtain ⟨υ, hυ⟩ := h
  exact ⟨υ, hυ.reachable, hυ.runs, hυ.launched, hυ.later.trans hτ⟩

theorem closed_of_reachable (hτ : Reachable s runner σ τ) (hclosed : σ.gate.closed = true) :
    τ.gate.closed = true := by
  induction hτ with
  | refl => exact hclosed
  | step _ hstep ih => exact stays_closed_of_rule (rule_of_step hstep) ih

theorem Trail.mono {p : Progress} {es : List Start} (h : Trail s runner first σ r w t p es)
    (hτ : Reachable s runner σ τ) : Trail s runner first τ r w t p es := by
  cases h with
  | fresh => exact .fresh
  | waiting => exact .waiting
  | rejected hclosed => exact .rejected (closed_of_reachable hτ hclosed)
  | compiling run hrun => exact .compiling run (hrun.mono hτ)
  | broken run f hrun he => exact .broken run f (hrun.mono hτ) he
  | plain run o hrun he hw => exact .plain run o (hrun.mono hτ) he hw
  | demangling run run' o hrun he hw hrun' =>
    exact .demangling run run' o (hrun.mono hτ) he hw (hrun'.mono hτ)
  | filtered run run' o e hrun he hw hrun' he' =>
    exact .filtered run run' o e (hrun.mono hτ) he hw (hrun'.mono hτ) he'

theorem Trails.mono (h : Trails s runner first σ r w n progress) (hτ : Reachable s runner σ τ)
    (hstarts : ∀ k, τ.startsOf ⟨n, k⟩ = σ.startsOf ⟨n, k⟩) :
    Trails s runner first τ r w n progress := by
  obtain ⟨ρ, hρ⟩ := h.lodged
  refine ⟨⟨ρ, hρ.mono hτ⟩, fun k => ?_⟩
  rw [hstarts k]
  exact (h.trail k).mono hτ

theorem Phase.Trailed.mono {p : Phase} (h : p.Trailed s runner first σ r n)
    (hτ : Reachable s runner σ τ) (hstarts : ∀ k, τ.startsOf ⟨n, k⟩ = σ.startsOf ⟨n, k⟩) :
    p.Trailed s runner first τ r n := by
  cases p with
  | running w progress => exact Trails.mono h hτ hstarts
  | returned a =>
    cases a with
    | ok response =>
      obtain ⟨w, results, hentries, htrails⟩ := h
      exact ⟨w, results, hentries, htrails.mono hτ hstarts⟩
    | error e =>
      intro k
      rw [hstarts k]
      exact h k
  | dropped =>
    obtain ⟨w, progress, htrails⟩ := h
    exact ⟨w, progress, htrails.mono hτ hstarts⟩

/-! ## What a turn adds to a trail -/

theorem startsOf_append {es : List Start} (hstarted : τ.started = es ++ σ.started) (t : Ticket) :
    τ.startsOf t = (es.filter fun e => e.ticket = t) ++ σ.startsOf t := by
  unfold State.startsOf
  rw [hstarted, List.filter_append]

theorem startsOf_congr (hstarted : τ.started = σ.started) (t : Ticket) :
    τ.startsOf t = σ.startsOf t := by
  unfold State.startsOf
  rw [hstarted]

/-- A turn starts what it starts for its own stage. -/
theorem ticket_of_turn {before p : Progress} {g : Gate Ticket} {host : Host} {es : List Start}
    (h : Turn s runner σ t r w before g host es p) : ∀ e ∈ es, e.ticket = t := by
  cases h with
  | begin _ _ _ _ => simp
  | filter _ _ _ _ => simp
  | _ => simp

/-- A stage that has not begun has left no trail. -/
theorem Trail.eq_nil_of_idle {p : Progress} {es : List Start}
    (h : Trail s runner first σ r w t p es) (hidle : p = .fresh ∨ p = .waiting) : es = [] := by
  rcases hidle with rfl | rfl
  · cases h
    rfl
  · cases h
    rfl

/-- A turn goes on with the trail of its stage. -/
theorem trail_of_turn (hσ : Reachable s runner first σ) (hτ : Reachable s runner σ τ)
    (hr : σ.Runs t.call c w progress) {before p : Progress} {es log : List Start}
    (hbefore : Trail s runner first σ c.request w t before log)
    (h : Turn s runner σ t c.request w before τ.gate τ.host es p) :
    Trail s runner first τ c.request w t p (es ++ log) := by
  -- What is started in this turn is launched from the state before it.
  have hnew : ∀ e : Start, e.ticket = t →
      Launched s runner first τ c.request w e (runner e.invocation σ.host) := by
    intro e he
    refine ⟨σ, hσ, ⟨c, progress, ?_, rfl⟩, rfl, hτ⟩
    rw [he]
    exact hr
  generalize τ.gate = g at h
  generalize τ.host = host at h
  cases h with
  | wait _ _ hidle _ =>
    obtain rfl := hbefore.eq_nil_of_idle hidle
    exact .waiting
  | reject _ _ hidle hpoll =>
    obtain rfl := hbefore.eq_nil_of_idle hidle
    refine .rejected (closed_of_reachable hτ ?_)
    cases Gate.found_of_poll hpoll with
    | closed hclosed => exact hclosed
  | begin _ _ hidle _ =>
    obtain rfl := hbefore.eq_nil_of_idle hidle
    exact .compiling _ (hnew (compilerStart s c.request w t) rfl)
  | breakDown run f he =>
    cases hbefore with
    | compiling _ hrun => exact .broken run f (hrun.mono hτ) he
  | filter run o he hw =>
    cases hbefore with
    | compiling _ hrun =>
      exact .demangling run _ o (hrun.mono hτ) he hw (hnew (demanglerStart s t o.combined) rfl)
  | complete run o he hw =>
    cases hbefore with
    | compiling _ hrun => exact .plain run o (hrun.mono hτ) he hw
  | filtered code raw run' e he' =>
    cases hbefore with
    | demangling run _ o hrun he hw hrun' =>
      exact .filtered run run' o e (hrun.mono hτ) he hw (hrun'.mono hτ) he'

/-! ## Every move goes on with the trails -/

/-- One call goes on to another phase, and nothing is started for the others. -/
theorem trailed_callsWith {p : Phase} (hσ : σ.Trailed s runner first)
    (hr : σ.Runs n c w progress) (hτ : Reachable s runner σ τ)
    (hcalls : τ.calls = σ.callsWith n c p)
    (hothers : ∀ t : Ticket, t.call ≠ n → τ.startsOf t = σ.startsOf t)
    (hp : p.Trailed s runner first τ c.request n) : τ.Trailed s runner first := by
  constructor
  · intro i c' hc'
    rw [hcalls, State.getElem?_callsWith hr] at hc'
    split at hc'
    · rename_i hi
      obtain rfl := Option.some.inj hc'
      rw [hi]
      exact hp
    · rename_i hi
      exact (hσ.calls i c' hc').mono hτ fun k => hothers ⟨i, k⟩ hi
  · intro t ht
    have hlength : τ.calls.length = σ.calls.length := by
      rw [hcalls, State.callsWith, List.length_set]
    have hlt := hr.lt
    rw [hlength] at ht
    rw [hothers t (by omega), hσ.others t ht]

/-- Nothing is started and no call changes. -/
theorem trailed_congr (hσ : σ.Trailed s runner first) (hτ : Reachable s runner σ τ)
    (hcalls : τ.calls = σ.calls) (hstarted : τ.started = σ.started) :
    τ.Trailed s runner first := by
  constructor
  · intro n c hc
    rw [hcalls] at hc
    exact (hσ.calls n c hc).mono hτ fun k => startsOf_congr hstarted _
  · intro t ht
    rw [hcalls] at ht
    rw [startsOf_congr hstarted, hσ.others t ht]

theorem trailed_submit (hfirst : Reachable s runner first σ) (hσ : σ.Trailed s runner first)
    (r : Request) : (submit s σ r).Trailed s runner first := by
  have hτ : Reachable s runner σ (submit s σ r) := .step (m := .submit r) .refl rfl
  obtain ⟨p, htaken⟩ := exists_taken s σ r
  generalize hsubmit : submit s σ r = τ at hτ htaken
  obtain ⟨hp, -, -, hstarted, hcalls⟩ := htaken
  have hnew : ∀ k, τ.startsOf ⟨σ.calls.length, k⟩ = [] := by
    intro k
    rw [startsOf_congr hstarted, hσ.others _ (Nat.le_refl _)]
  constructor
  · intro n c hc
    rcases getElem?_enrolled hcalls hc with hc | ⟨rfl, rfl⟩
    · exact (hσ.calls n c hc).mono hτ fun k => startsOf_congr hstarted _
    · generalize τ.host = host at hp
      cases hp with
      | invalid e he => exact hnew
      | homeless f h he hcreate => exact hnew
      | housed w h he hcreate =>
        refine ⟨⟨σ, ⟨hfirst, rfl, ?_⟩, he, by rw [hcreate]⟩, fun k => ?_⟩
        · rw [hsubmit]
          exact .refl
        · dsimp only
          rw [hnew k]
          exact .fresh
  · intro t ht
    rw [hcalls, List.length_append, List.length_singleton] at ht
    rw [startsOf_congr hstarted, hσ.others t (by omega)]

theorem trailed_of_step (hfirst : Reachable s runner first σ) (hσ : σ.Trailed s runner first)
    (hstep : step s runner σ m = some τ) : τ.Trailed s runner first := by
  have hτ : Reachable s runner σ τ := .step .refl hstep
  cases rule_of_step hstep with
  | submit r _ _ _ _ _ _ _ =>
    obtain rfl := Option.some.inj hstep
    exact trailed_submit hfirst hσ r
  | turn _ t c w progress es p _ _ hr hturn _ hstarted hcalls =>
    have hphase := hσ.calls t.call c hr.call
    rw [hr.phase] at hphase
    have hown := ticket_of_turn hturn
    have hothers : ∀ u, u ≠ t → τ.startsOf u = σ.startsOf u := by
      intro u hu
      have hnone : (es.filter fun e => e.ticket = u) = [] := by
        rw [List.filter_eq_nil_iff]
        intro e he
        simp [hown e he, Ne.symm hu]
      rw [startsOf_append hstarted, hnone, List.nil_append]
    have hself : τ.startsOf t = es ++ σ.startsOf t := by
      have hall : (es.filter fun e => e.ticket = t) = es := by
        rw [List.filter_eq_self]
        intro e he
        simp [hown e he]
      rw [startsOf_append hstarted, hall]
    refine trailed_callsWith hσ hr hτ hcalls (fun u hu => hothers u fun he => hu (he ▸ rfl)) ?_
    obtain ⟨ρ, hρ⟩ := hphase.lodged
    refine ⟨⟨ρ, hρ.mono hτ⟩, fun k => ?_⟩
    by_cases hk : k = t.stage
    · subst hk
      rw [State.advance_self, hself]
      exact trail_of_turn hfirst hτ hr (hphase.trail t.stage) hturn
    · have hne : (⟨t.call, k⟩ : Ticket) ≠ t := fun he => hk (he ▸ rfl)
      rw [State.advance_of_ne hk, hothers _ hne]
      exact (hphase.trail k).mono hτ
  | collect n c w progress results _ hr hresults _ _ hstarted _ hcalls =>
    have hphase := hσ.calls n c hr.call
    rw [hr.phase] at hphase
    refine trailed_callsWith hσ hr hτ hcalls (fun t _ => startsOf_congr hstarted t) ?_
    obtain ⟨f, hdone, rfl⟩ := results?_eq_some_iff.mp hresults
    have hprogress : progress = fun k => .done (f k) := funext hdone
    refine ⟨w, f, rfl, ?_⟩
    rw [← hprogress]
    exact Trails.mono hphase hτ fun k => startsOf_congr hstarted _
  | drop n c w progress _ hr _ _ hstarted _ hcalls =>
    have hphase := hσ.calls n c hr.call
    rw [hr.phase] at hphase
    refine trailed_callsWith hσ hr hτ hcalls (fun t _ => startsOf_congr hstarted t) ?_
    exact ⟨w, progress, Trails.mono hphase hτ fun k => startsOf_congr hstarted _⟩
  | hold _ _ _ _ _ hstarted _ hcalls => exact trailed_congr hσ hτ hcalls hstarted
  | release _ _ _ hstarted _ hcalls => exact trailed_congr hσ hτ hcalls hstarted
  | close _ _ _ hstarted _ hcalls => exact trailed_congr hσ hτ hcalls hstarted

theorem trailed_start {h : Host} (hstart : State.start? s h = some first) :
    first.Trailed s runner first := by
  obtain ⟨g, -, rfl⟩ := Option.map_eq_some_iff.mp hstart
  constructor
  · intro n c hc
    cases hc
  · intro t _
    rfl

/-- **Every call has its trails**, in every state that moves lead to. -/
theorem trailed_of_reachable {h : Host} (hstart : State.start? s h = some first)
    (hσ : Reachable s runner first σ) : σ.Trailed s runner first := by
  induction hσ with
  | refl => exact trailed_start hstart
  | step hσ hstep ih => exact trailed_of_step hσ ih hstep

end StageLens.Orchestrator
