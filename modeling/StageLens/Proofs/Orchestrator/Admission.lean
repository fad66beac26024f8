import StageLens.Orchestrator.Schedule
import StageLens.Proofs.Gate.Order
import StageLens.Proofs.Orchestrator.Calls

/-!
# Compilers run on permits

A compiler runs exactly as long as its stage holds a permit: the permit comes with the start and
goes with the end, whatever the end is, and with the caller. So the permits that are held are those
of the running compilers and those of others, in every state (`accounted_of_reachable`). The
demangler runs without a permit.
-/

namespace StageLens.Orchestrator

/-- How many compilers run for a stage. -/
def Progress.compilers : Progress → Nat
  | .compiling _ => 1
  | _ => 0

namespace State

/-- How many compilers are running: started, and neither ended nor dropped with their call. -/
def compilers (σ : State) : Nat := σ.tally Progress.compilers

/-- A stage waits at the gate. -/
def Waits (σ : State) (t : Ticket) : Prop := σ.progress? t = some .waiting

/-- The gate's accounts are right: the waiters are the stages that wait, and the permits that are
held are those of running compilers and those of others. -/
def Accounted (σ : State) (capacity : Nat) : Prop :=
  σ.gate.Ledger capacity σ.Waits (σ.held + σ.compilers) 0

end State

variable {s : Settings} {runner : Runner} {first σ τ : State} {m : Move} {capacity : Nat}
variable {n : Nat} {c : Call} {w : Workspace} {progress : Stage → Progress}

/-! ## What a move does to the accounts -/

theorem progress?_turn {t : Ticket} {p : Progress} (h : σ.Runs t.call c w progress)
    (hcalls : τ.calls = σ.callsWith t.call c (.running w (State.advance progress t.stage p)))
    (u : Ticket) : τ.progress? u = if u = t then some p else σ.progress? u := by
  rw [State.progress?_callsWith h hcalls]
  by_cases hcall : u.call = t.call
  · rw [if_pos hcall]
    have hu : σ.progress? u = some (progress u.stage) := by
      have := h.progress? u.stage
      rwa [← hcall] at this
    by_cases hstage : u.stage = t.stage
    · have he : u = t := by
        cases u
        cases t
        cases hcall
        cases hstage
        rfl
      rw [if_pos he, Phase.progress?, hstage, State.advance_self]
    · have he : u ≠ t := fun he => hstage (he ▸ rfl)
      rw [if_neg he, hu, Phase.progress?, State.advance_of_ne hstage]
  · have he : u ≠ t := fun he => hcall (he ▸ rfl)
    rw [if_neg hcall, if_neg he]

theorem accounted_of_turn {t : Ticket} {launched : List Start} {p : Progress}
    (hσ : σ.Accounted capacity) (h : σ.Runs t.call c w progress)
    (hturn : Turn s runner σ t c.request w (progress t.stage) τ.gate τ.host launched p)
    (hheld : τ.held = σ.held)
    (hcalls : τ.calls = σ.callsWith t.call c (.running w (State.advance progress t.stage p))) :
    τ.Accounted capacity := by
  have hcount : τ.compilers + (progress t.stage).compilers = σ.compilers + p.compilers :=
    State.tally_advance h hcalls Progress.compilers
  have hprog := progress?_turn h hcalls
  have ht : σ.progress? t = some (progress t.stage) := h.progress? t.stage
  have hstays : ∀ u, p ≠ .waiting → (σ.Waits u ∧ u ≠ t ↔ τ.Waits u) := by
    intro u hp
    unfold State.Waits
    rw [hprog]
    by_cases hu : u = t <;> simp [hu, hp]
  have hsame : ∀ u, p ≠ .waiting → progress t.stage ≠ .waiting → (σ.Waits u ↔ τ.Waits u) := by
    intro u hp hbefore
    rw [← hstays u hp]
    refine ⟨fun hu => ⟨hu, ?_⟩, And.left⟩
    rintro rfl
    exact hbefore (Option.some.inj (ht.symm.trans hu))
  -- However the compiler ends, its permit is what goes back.
  have hended : ∀ run, progress t.stage = .compiling run → p ≠ .waiting → p.compilers = 0 →
      σ.gate.release.Ledger capacity τ.Waits (τ.held + τ.compilers) 0 := by
    intro run hbefore hp hzero
    have hk : τ.compilers + 1 = σ.compilers := by
      rw [hbefore, hzero] at hcount
      exact hcount
    unfold State.Accounted at hσ
    rw [← hk, ← Nat.add_assoc] at hσ
    rw [hheld]
    exact hσ.release.congr fun u => hsame u hp (by rw [hbefore]; simp)
  unfold State.Accounted at hσ ⊢
  generalize progress t.stage = before at *
  generalize τ.gate = g at *
  generalize τ.host = host at *
  cases hturn with
  | wait _ _ hbefore hpoll =>
    have hk : τ.compilers = σ.compilers := by
      rcases hbefore with rfl | rfl <;> exact hcount
    rw [hk, hheld]
    refine (hσ.pending hpoll).congr fun u => ?_
    unfold State.Waits
    rw [hprog]
    by_cases hu : u = t <;> simp [hu]
  | reject _ _ hbefore hpoll =>
    have hk : τ.compilers = σ.compilers := by
      rcases hbefore with rfl | rfl <;> exact hcount
    rw [hk, hheld]
    exact (hσ.turnedAway hpoll).congr fun u => hstays u (by simp)
  | begin _ _ hbefore hpoll =>
    have hk : τ.compilers = σ.compilers + 1 := by
      rcases hbefore with rfl | rfl <;> exact hcount
    rw [hk, hheld, ← Nat.add_assoc]
    exact (hσ.admitted hpoll).congr fun u => hstays u (by simp)
  | breakDown run f he => exact hended run rfl (by simp) rfl
  | filter run o he hwanted => exact hended run rfl (by simp) rfl
  | complete run o he hwanted => exact hended run rfl (by simp) rfl
  | filtered code raw run e he =>
    have hk : τ.compilers = σ.compilers := hcount
    rw [hk, hheld]
    exact hσ.congr fun u => hsame u (by simp) (by simp)

/-- Stages that are abandoned wait no longer and give back the permits of their compilers. -/
theorem ledger_abandonAll {Waits : Ticket → Prop} {held : Nat} (stages : List Stage)
    {g : Gate Ticket}
    (h : g.Ledger capacity Waits (held + (stages.map fun k => (progress k).compilers).sum) 0) :
    (abandonAll n progress stages g).Ledger capacity
      (fun u => Waits u ∧ ∀ k ∈ stages, progress k = .waiting → u ≠ ⟨n, k⟩) held 0 := by
  induction stages generalizing g Waits with
  | nil => exact h.congr fun u => by simp
  | cons k stages ih =>
    rw [List.map_cons, List.sum_cons] at h
    show (abandonAll n progress stages (abandon g ⟨n, k⟩ (progress k))).Ledger capacity _ held 0
    have hkeep : progress k ≠ .waiting → ∀ u,
        ((Waits u ∧ ∀ j ∈ stages, progress j = .waiting → u ≠ ⟨n, j⟩) ↔
          (Waits u ∧ ∀ j ∈ k :: stages, progress j = .waiting → u ≠ ⟨n, j⟩)) := by
      intro hk u
      simp [hk]
    have hfree : (progress k).compilers = 0 →
        g.Ledger capacity Waits (held + (stages.map fun k => (progress k).compilers).sum) 0 := by
      intro hk
      rwa [hk, Nat.zero_add] at h
    cases hp : progress k with
    | waiting =>
      refine (ih ((hfree (by rw [hp]; rfl)).leave ⟨n, k⟩)).congr fun u => ?_
      simp only [List.mem_cons, forall_eq_or_imp, hp, forall_true_left, and_assoc]
    | compiling run =>
      have hone : (progress k).compilers = 1 := by rw [hp]; rfl
      rw [hone, Nat.add_comm 1, ← Nat.add_assoc] at h
      exact (ih h.release).congr (hkeep (by rw [hp]; simp))
    | fresh => exact (ih (hfree (by rw [hp]; rfl))).congr (hkeep (by rw [hp]; simp))
    | demangling code raw run =>
      exact (ih (hfree (by rw [hp]; rfl))).congr (hkeep (by rw [hp]; simp))
    | done r => exact (ih (hfree (by rw [hp]; rfl))).congr (hkeep (by rw [hp]; simp))

theorem accounted_of_collect {p : Phase} {results : List (Stage × StageResult)}
    (hσ : σ.Accounted capacity) (h : σ.Runs n c w progress)
    (hresults : State.results? progress = some results) (hends : ∀ k, p.progress? k = none)
    (htally : p.tally Progress.compilers = 0) (hgate : τ.gate = σ.gate) (hheld : τ.held = σ.held)
    (hcalls : τ.calls = σ.callsWith n c p) : τ.Accounted capacity := by
  obtain ⟨f, hdone, -⟩ := results?_eq_some_iff.mp hresults
  have hcount := State.tally_callsWith h hcalls Progress.compilers
  have hnone : Phase.tally Progress.compilers (.running w progress) = 0 := by
    simp [Phase.tally, hdone, Progress.compilers]
  have hk : τ.compilers = σ.compilers := by
    show τ.tally _ = σ.tally _
    omega
  unfold State.Accounted at hσ ⊢
  rw [hgate, hheld, hk]
  refine hσ.congr fun u => ?_
  unfold State.Waits
  rw [State.progress?_callsWith h hcalls]
  by_cases hu : u.call = n
  · have hu' : σ.progress? u = some (.done (f u.stage)) := by
      rw [← hdone, ← h.progress? u.stage, ← hu]
    rw [if_pos hu, hends, hu']
    simp
  · rw [if_neg hu]

theorem accounted_of_drop (hσ : σ.Accounted capacity) (h : σ.Runs n c w progress)
    (hgate : τ.gate = abandonAll n progress Stage.all σ.gate) (hheld : τ.held = σ.held)
    (hcalls : τ.calls = σ.callsWith n c .dropped) : τ.Accounted capacity := by
  have hcount : τ.compilers + (Stage.all.map fun k => (progress k).compilers).sum =
      σ.compilers :=
    State.tally_callsWith h hcalls Progress.compilers
  unfold State.Accounted at hσ ⊢
  rw [← hcount, ← Nat.add_assoc] at hσ
  rw [hgate, hheld]
  refine (ledger_abandonAll Stage.all hσ).congr fun u => ?_
  unfold State.Waits
  rw [State.progress?_callsWith h hcalls]
  by_cases hu : u.call = n
  · -- A stage of the dropped call that waited is among those that have been abandoned.
    have hu' : σ.progress? u = some (progress u.stage) := by
      rw [← h.progress? u.stage, ← hu]
    rw [if_pos hu, hu']
    constructor
    · rintro ⟨hw, hgone⟩
      refine absurd ?_ (hgone u.stage (Stage.mem_all _) (Option.some.inj hw))
      rw [← hu]
    · intro hw
      cases hw
  · rw [if_neg hu]
    refine ⟨And.left, fun hw => ⟨hw, ?_⟩⟩
    rintro k - - rfl
    exact hu rfl

/-- A move of others at the gate. -/
theorem accounted_of_calls_eq (hcalls : τ.calls = σ.calls)
    (h : τ.gate.Ledger capacity σ.Waits (τ.held + σ.compilers) 0) : τ.Accounted capacity := by
  have hk : τ.compilers = σ.compilers := State.tally_congr hcalls _
  unfold State.Accounted
  rw [hk]
  refine h.congr fun u => ?_
  unfold State.Waits
  rw [State.progress?_congr hcalls]

/-- Every move keeps the accounts right. -/
theorem accounted_of_rule (h : Rule s runner σ m τ) (hσ : σ.Accounted capacity) :
    τ.Accounted capacity := by
  cases h with
  | submit r p _ hp hgate hheld _ hcalls =>
    have hcount : τ.compilers = σ.compilers + p.tally Progress.compilers :=
      State.tally_append hcalls _
    have hnew : p.tally Progress.compilers = 0 ∧ ∀ k, p.progress? k ≠ some .waiting := by
      generalize τ.host = host at hp
      cases hp <;> simp [Phase.tally, Phase.progress?, Progress.compilers]
    unfold State.Accounted at hσ ⊢
    rw [hgate, hheld, hcount, hnew.1]
    refine hσ.congr fun u => ?_
    unfold State.Waits
    rw [State.progress?_append hcalls]
    by_cases hu : u.call = σ.calls.length
    · have hold : σ.progress? u = none := by
        unfold State.progress?
        rw [List.getElem?_eq_none (by omega)]
        rfl
      rw [if_pos hu, hold]
      exact ⟨fun hw => absurd hw (by simp), fun hw => absurd hw (hnew.2 _)⟩
    · rw [if_neg hu]
  | turn _ t c w progress launched p _ _ hr hturn hheld _ hcalls =>
    exact accounted_of_turn hσ hr hturn hheld hcalls
  | collect n c w progress results _ hr hresults hgate hheld _ _ hcalls =>
    exact accounted_of_collect hσ hr hresults (fun _ => rfl) rfl hgate hheld hcalls
  | drop n c w progress _ hr hgate hheld _ _ hcalls =>
    exact accounted_of_drop hσ hr hgate hheld hcalls
  | hold g _ hg hgate hheld _ _ hcalls =>
    refine accounted_of_calls_eq hcalls ?_
    rw [hgate, hheld, Nat.add_right_comm]
    exact Gate.Ledger.tryAcquire hσ hg
  | release _ hheld hgate _ _ hcalls =>
    refine accounted_of_calls_eq hcalls ?_
    unfold State.Accounted at hσ
    rw [hheld, Nat.add_right_comm] at hσ
    rw [hgate]
    exact hσ.release
  | close _ hgate hheld _ _ hcalls =>
    refine accounted_of_calls_eq hcalls ?_
    rw [hgate, hheld]
    exact Gate.Ledger.close hσ

theorem accounted_start {h : Host} (hstart : State.start? s h = some first) :
    first.Accounted s.capacity := by
  obtain ⟨g, hg, rfl⟩ := Option.map_eq_some_iff.mp hstart
  obtain rfl := Gate.eq_fresh_of_ofCapacity? hg
  exact (Gate.ledger_fresh s.capacity).congr fun u => by simp [State.Waits, State.progress?]

theorem accounted_of_reachable {h : Host} (hstart : State.start? s h = some first)
    (hσ : Reachable s runner first σ) : σ.Accounted s.capacity := by
  induction hσ with
  | refl => exact accounted_start hstart
  | step _ hstep ih => exact accounted_of_rule (rule_of_step hstep) ih

/-! ## The gate stays closed -/

theorem closed_abandonAll (n : Nat) (progress : Stage → Progress) (stages : List Stage)
    (g : Gate Ticket) : (abandonAll n progress stages g).closed = g.closed := by
  induction stages generalizing g with
  | nil => rfl
  | cons k stages ih =>
    show (abandonAll n progress stages (abandon g ⟨n, k⟩ (progress k))).closed = g.closed
    rw [ih]
    cases progress k with
    | waiting => exact Gate.closed_leave g _
    | compiling run => exact Gate.closed_release g
    | _ => rfl

/-- Only a close closes the gate, and nothing opens it. -/
theorem closed_of_rule (h : Rule s runner σ m τ) :
    τ.gate.closed = σ.gate.closed ∨ m = .close ∧ τ.gate.closed = true := by
  cases h with
  | submit _ _ _ _ hgate _ _ _ => exact .inl (by rw [hgate])
  | turn _ t c w progress launched p _ _ _ hturn _ _ _ =>
    refine .inl ?_
    generalize τ.gate = g at hturn ⊢
    generalize τ.host = host at hturn
    generalize progress t.stage = before at hturn
    cases hturn with
    | wait _ _ _ hpoll => exact Gate.closed_of_poll hpoll
    | reject _ _ _ hpoll => exact Gate.closed_of_poll hpoll
    | begin _ _ _ hpoll => exact Gate.closed_of_poll hpoll
    | breakDown _ _ _ => exact Gate.closed_release _
    | filter _ _ _ _ => exact Gate.closed_release _
    | complete _ _ _ _ => exact Gate.closed_release _
    | filtered _ _ _ _ _ => rfl
  | collect _ _ _ _ _ _ _ _ hgate _ _ _ _ => exact .inl (by rw [hgate])
  | drop _ _ _ _ _ _ hgate _ _ _ _ => exact .inl (by rw [hgate, closed_abandonAll])
  | hold g _ hg hgate _ _ _ _ =>
    obtain ⟨hopen, hopen'⟩ := Gate.closed_tryAcquire hg
    exact .inl (by rw [hgate, hopen', hopen])
  | release _ _ hgate _ _ _ => exact .inl (by rw [hgate, Gate.closed_release])
  | close _ hgate _ _ _ _ => exact .inr ⟨rfl, by rw [hgate]; rfl⟩

theorem stays_closed_of_rule (h : Rule s runner σ m τ) (hclosed : σ.gate.closed = true) :
    τ.gate.closed = true := by
  rcases closed_of_rule h with hsame | ⟨-, hnow⟩
  · rw [hsame, hclosed]
  · exact hnow

end StageLens.Orchestrator
