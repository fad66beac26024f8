import StageLens.Proofs.Orchestrator.Reference

/-!
# How often compilers start

The compiler of a stage is started once, and never for a stage that the closed gate turned away. So
what a stage has come to says how often its compiler was started (`State.Metered`), in every state
and in every response. Once the gate is closed no compiler starts any more
(`compilerStarts_of_closed`).
-/

namespace StageLens.Orchestrator

open StageLens.Workspace (scratchDirectory)

/-- How many of these are starts of the compiler of a stage. -/
def compilationsIn (es : List Start) (t : Ticket) : Nat :=
  es.countP fun e => e.purpose = .compile ∧ e.ticket = t

namespace State

/-- All starts of compilers, the latest first. -/
def compilerStarts (σ : State) : List Start := σ.started.filter fun e => e.purpose = .compile

/-- How often the compiler of a stage has been started. -/
def compilations (σ : State) (t : Ticket) : Nat := compilationsIn σ.started t

end State

section Metered

variable (s : Settings) (f : Task → Ending) (r : Request) (closed : Bool)

/-- What a stage has come to with so many starts of its compiler: its own result with one, or a
rejection by the closed gate with none. -/
def IsOutcome (k : Stage) (count : Nat) (result : StageResult) : Prop :=
  count = 1 ∧ result = reference s f r k ∨
    count = 0 ∧ closed = true ∧ result = rejection s r k

/-- How often the compiler has been started for a stage that is this far. -/
def Progress.Metered (k : Stage) (count : Nat) : Progress → Prop
  | .fresh => count = 0
  | .waiting => count = 0
  | .compiling _ => count = 1
  | .demangling _ _ _ => count = 1
  | .done result => IsOutcome s f r closed k count result

/-- How often compilers have been started for the stages of a call that is this far. -/
def Phase.Metered (counts : Stage → Nat) : Phase → Prop
  | .running _ progress => ∀ k, (progress k).Metered s f r closed k (counts k)
  | .returned (.ok response) => ∃ results : Stage → StageResult,
      response.entries = (Stage.all.map fun k => (k, results k)) ∧
        ∀ k, IsOutcome s f r closed k (counts k) (results k)
  | .returned (.error _) => ∀ k, counts k = 0
  | .dropped => ∀ k, counts k ≤ 1

end Metered

/-- Compilers have been started as often as the calls show, and for nobody else. -/
structure State.Metered (s : Settings) (f : Task → Ending) (σ : State) : Prop where
  calls : ∀ (n : Nat) (c : Call), σ.calls[n]? = some c →
    c.phase.Metered s f c.request σ.gate.closed fun k => σ.compilations ⟨n, k⟩
  others : ∀ t : Ticket, σ.calls.length ≤ t.call → σ.compilations t = 0

variable {s : Settings} {f : Task → Ending} {runner : Runner} {first σ τ : State} {m : Move}
variable {r : Request} {k : Stage} {t : Ticket}
variable {n : Nat} {c : Call} {w : Workspace} {progress : Stage → Progress}

/-! ## Results and counts -/

/-- The result of a tool is no rejection where no tool exits with the code that stands for one. -/
theorem reference_exitCode_ne (hf : ∀ task o, f task = .ok o → o.exitCode ≠ -4) :
    (reference s f r k).exitCode ≠ -4 := by
  unfold reference
  cases he : f (compileTask s r k) with
  | ok o => exact hf _ o he
  | error e => cases e <;> simp [Failure.outcome, Outcome.sentinel?]

/-- A result with the code of a rejection is that of a compiler that was never started. -/
theorem IsOutcome.exitCode_eq_iff {closed : Bool} {count : Nat} {result : StageResult}
    (h : IsOutcome s f r closed k count result)
    (hf : ∀ task o, f task = .ok o → o.exitCode ≠ -4) : result.exitCode = -4 ↔ count = 0 := by
  rcases h with ⟨rfl, rfl⟩ | ⟨rfl, -, rfl⟩
  · simp [reference_exitCode_ne hf]
  · simp [rejection, StageResult.failed, Outcome.sentinel?]

/-! ## Trails and counts -/

/-- The starts of the compiler of a stage are among the starts for the stage. -/
theorem compilations_eq (σ : State) (t : Ticket) :
    σ.compilations t = compilationsIn (σ.startsOf t) t := by
  unfold State.compilations compilationsIn State.startsOf
  rw [List.countP_filter]
  congr 1
  funext e
  simp

section Trails

variable {dir : Bytes} {p : Progress} {es : List Start}

/-- What a stage has come to says how often its compiler has been started. -/
theorem Trail.metered (hfollows : Follows f runner)
    (hhoused : ∀ υ, Reachable s runner first υ → υ.Housed s dir)
    (h : Trail s runner first σ r w t p es) :
    p.Metered s f r σ.gate.closed t.stage (compilationsIn es t) := by
  have hown : ∀ result, compilationsIn es t = 1 → compilerStart s r w t ∈ es →
      Trail s runner first σ r w t (.done result) es →
      IsOutcome s f r σ.gate.closed t.stage (compilationsIn es t) result :=
    fun result hcount hmem htrail => .inl ⟨hcount, htrail.eq_reference hfollows hhoused hmem⟩
  have htrail := h
  cases h with
  | fresh => rfl
  | waiting => rfl
  | rejected hclosed => exact .inr ⟨rfl, hclosed, rfl⟩
  | compiling _ _ => simp [Progress.Metered, compilationsIn, compilerStart]
  | demangling _ _ _ _ _ _ _ =>
    simp [Progress.Metered, compilationsIn, compilerStart, demanglerStart]
  | broken _ _ _ _ => exact hown _ (by simp [compilationsIn, compilerStart]) (by simp) htrail
  | plain _ _ _ _ _ => exact hown _ (by simp [compilationsIn, compilerStart]) (by simp) htrail
  | filtered _ _ _ _ _ _ _ _ _ =>
    exact hown _ (by simp [compilationsIn, compilerStart, demanglerStart]) (by simp) htrail

/-- The compiler of a stage has been started at most once. -/
theorem Trail.compilationsIn_le_one (h : Trail s runner first σ r w t p es) :
    compilationsIn es t ≤ 1 := by
  cases h <;> simp [compilationsIn, compilerStart, demanglerStart]

end Trails

/-- **Compilers start once.** In every state that moves lead to, the compiler has been started once
for each stage that has a result of its own or is on the way to one, and not at all for stages that
wait, that were turned away or whose calls were refused. -/
theorem metered_of_reachable {h : Host} (hstart : State.start? s h = some first)
    (ht : h.tree.Proper) (hspares : SparesWorkspaces s.scratchRoot runner)
    (hfollows : Follows f runner) (hσ : Reachable s runner first σ) : σ.Metered s f := by
  have htrailed := trailed_of_reachable hstart hσ
  have hhoused : ∀ υ, Reachable s runner first υ → υ.Housed s (scratchDirectory h s.scratchRoot) :=
    fun υ hυ => housed_of_reachable hstart ht hspares hυ
  have hmetered : ∀ {n : Nat} {r : Request} {w : Workspace} {progress : Stage → Progress},
      Trails s runner first σ r w n progress →
      ∀ k, (progress k).Metered s f r σ.gate.closed k (σ.compilations ⟨n, k⟩) := by
    intro n r w progress htrails k
    rw [compilations_eq]
    exact (htrails.trail k).metered hfollows hhoused
  constructor
  · intro n c hc
    have hphase := htrailed.calls n c hc
    cases hp : c.phase with
    | running w progress =>
      rw [hp] at hphase
      exact hmetered hphase
    | returned a =>
      cases a with
      | ok response =>
        rw [hp] at hphase
        obtain ⟨w, results, hentries, htrails⟩ := hphase
        exact ⟨results, hentries, hmetered htrails⟩
      | error e =>
        rw [hp] at hphase
        intro k
        beta_reduce
        rw [compilations_eq, hphase k]
        rfl
    | dropped =>
      rw [hp] at hphase
      obtain ⟨w, progress, htrails⟩ := hphase
      intro k
      beta_reduce
      rw [compilations_eq]
      exact (htrails.trail k).compilationsIn_le_one
  · intro t ht
    rw [compilations_eq, htrailed.others t ht]
    rfl

/-! ## After the closing -/

theorem compilerStarts_of_rule (h : Rule s runner σ m τ) (hclosed : σ.gate.closed = true) :
    τ.compilerStarts = σ.compilerStarts := by
  unfold State.compilerStarts
  cases h with
  | submit _ _ _ _ _ _ hstarted _ => rw [hstarted]
  | collect _ _ _ _ _ _ _ _ _ _ hstarted _ _ => rw [hstarted]
  | drop _ _ _ _ _ _ _ _ hstarted _ _ => rw [hstarted]
  | hold _ _ _ _ _ hstarted _ _ => rw [hstarted]
  | release _ _ _ hstarted _ _ => rw [hstarted]
  | close _ _ _ hstarted _ _ => rw [hstarted]
  | turn _ t c w progress launched p _ _ _ hturn _ hstarted _ =>
    have hnone : (launched.filter fun e => e.purpose = .compile) = [] := by
      generalize τ.gate = g at hturn
      generalize τ.host = host at hturn
      generalize progress t.stage = before at hturn
      cases hturn with
      | begin _ _ _ hpoll =>
        -- A closed gate admits nobody.
        cases Gate.found_of_poll hpoll with
        | inHand hopen _ => rw [hclosed] at hopen; cases hopen
        | free _ hopen _ _ _ => rw [hclosed] at hopen; cases hopen
      | filter _ _ _ _ => rfl
      | _ => rfl
    rw [hstarted, List.filter_append, hnone, List.nil_append]

/-- **No compiler starts after the closing**, whatever the moves are. -/
theorem compilerStarts_of_closed (hclosed : σ.gate.closed = true)
    (hτ : Reachable s runner σ τ) :
    τ.gate.closed = true ∧ τ.compilerStarts = σ.compilerStarts := by
  induction hτ with
  | refl => exact ⟨hclosed, rfl⟩
  | step _ hstep ih =>
    have hrule := rule_of_step hstep
    exact ⟨stays_closed_of_rule hrule ih.1, (compilerStarts_of_rule hrule ih.1).trans ih.2⟩

end StageLens.Orchestrator
