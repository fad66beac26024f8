import Mathlib
import StageLens.Orchestrator.Basic
import StageLens.Proofs.Config.Rules
import StageLens.Proofs.Gate.Ledger

/-!
# What a configuration starts with

A document that is accepted makes a configuration without zeros among its limits
(`Config.usable_of_ofText`). The rules set no upper bound, but a gate has one: the orchestrator of
an accepted document starts exactly if the gate can have as many permits as the document asks for.
-/

namespace StageLens.Orchestrator

variable {s : Settings} {h : Host} {c : Config} {text : String}

/-- There is a first state exactly if there can be a gate. -/
theorem isSome_start?_iff :
    (State.start? s h).isSome = true ↔ s.capacity ≤ Gate.greatestCapacity := by
  unfold State.start? Gate.ofCapacity?
  rw [Option.isSome_map]
  split
  · rename_i hle
    simp [hle]
  · rename_i hgt
    simp [hgt]

theorem toNanos_ofSeconds_pos {n : Nat} (hn : 0 < n) : 0 < (Duration.ofSeconds n).toNanos := by
  unfold Duration.ofSeconds Duration.toNanos Duration.nanosPerSecond
  dsimp only
  omega

/-- A first state with its gate open and all permits free, as many as there are invocations. -/
structure State.Opens (σ : State) (invocations : Nat) : Prop where
  isOpen : σ.gate.closed = false
  capacity : σ.gate.capacity = invocations
  available : σ.gate.available = invocations
  inFlight : σ.gate.inFlight = 0
  calls : σ.calls = []

theorem opens_of_start {σ : State} (hstart : State.start? s h = some σ) : σ.Opens s.capacity := by
  obtain ⟨g, hg, rfl⟩ := Option.map_eq_some_iff.mp hstart
  obtain rfl := Gate.eq_fresh_of_ofCapacity? hg
  exact ⟨rfl, rfl, rfl, rfl, rfl⟩

/-- **What an accepted document starts with.** Whatever the document and the host: there is a
first state exactly if the document asks for at most 2^61 - 1 invocations, and none otherwise. The
gate of that state is open with as many free permits as there are invocations, at least one; the
limit on sources is the document's and not zero, and so are the two timeouts. -/
theorem accepted_document_starts_iff (h : Host) (hc : Config.ofText text = .ok c) :
    let s := Settings.ofConfig h c
    ((∃ σ, State.start? s h = some σ) ↔ c.limits.invocations ≤ 2 ^ 61 - 1) ∧
    (2 ^ 61 - 1 < c.limits.invocations → State.start? s h = none) ∧
    (∀ σ, State.start? s h = some σ → σ.Opens c.limits.invocations) ∧ 1 ≤ c.limits.invocations ∧
    s.sourceLimit = c.limits.sourceBytes ∧ 1 ≤ c.limits.sourceBytes ∧
    s.stageTimeout = .ofSeconds c.limits.stageTimeout ∧ 0 < s.stageTimeout.toNanos ∧
    s.demangler.timeout = .ofSeconds c.limits.demangleTimeout ∧
    0 < s.demangler.timeout.toNanos := by
  intro s
  have husable := Config.usable_of_ofText hc
  have hstarts : (State.start? s h).isSome = true ↔ c.limits.invocations ≤ 2 ^ 61 - 1 :=
    isSome_start?_iff
  refine ⟨?_, fun hgt => ?_, fun σ hσ => opens_of_start hσ, husable.invocations, rfl,
    husable.sourceBytes, rfl, toNanos_ofSeconds_pos husable.stageTimeout, rfl,
    toNanos_ofSeconds_pos husable.demangleTimeout⟩
  · rw [← Option.isSome_iff_exists, hstarts]
  · rw [← Option.not_isSome_iff_eq_none, hstarts]
    exact Nat.not_le_of_lt hgt

/-- A document for one invocation at a time starts with one free permit. -/
theorem accepted_document_starts_one :
    let c : Config := { limits := { invocations := 1 } }
    let h : Host := { tree := .empty }
    let s := Settings.ofConfig h c
    Config.ofText "[limits]\nmax_concurrent_invocations = 1\n" = .ok c ∧
    ∃ σ, State.start? s h = some σ ∧ σ.Opens 1 ∧ 0 < s.stageTimeout.toNanos := by
  intro c h s
  have hc : Config.ofText "[limits]\nmax_concurrent_invocations = 1\n" = .ok c := by
    decide +kernel
  obtain ⟨hiff, -, hopens, -, -, -, -, hpos, -, -⟩ := accepted_document_starts_iff h hc
  obtain ⟨σ, hσ⟩ := hiff.mpr (by decide)
  exact ⟨hc, σ, hσ, hopens σ hσ, hpos⟩

/-- The rules let a document through that asks for more permits than a gate can have: nothing starts
with it, on any host. -/
theorem accepted_document_without_start :
    let c : Config := { limits := { invocations := 2 ^ 61 } }
    Config.ofText "[limits]\nmax_concurrent_invocations = 2305843009213693952\n" = .ok c ∧
    ∀ h, State.start? (Settings.ofConfig h c) h = none := by
  intro c
  refine ⟨by decide +kernel, fun h => ?_⟩
  rw [← Option.not_isSome_iff_eq_none, isSome_start?_iff]
  show ¬ 2 ^ 61 ≤ Gate.greatestCapacity
  decide

end StageLens.Orchestrator
