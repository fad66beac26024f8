import StageLens.Orchestrator.Schedule
import StageLens.Proofs.Orchestrator.Calls

/-!
# What a schedule does next

A schedule never takes a move in vain: what it does next is a move that changes something
(`ready_of_nextMove?`), and where it does nothing no stage has a move and no response is complete
(`idle_of_nextMove?`).
-/

namespace StageLens.Orchestrator.Schedule

/-- A move that changes something: a stage asks that has not asked before or that has an answer to
come, a run ends that is in progress, or a response is complete. -/
inductive Ready (σ : State) : Move → Prop
  | ask (t : Ticket) (c : Call) (w : Workspace) (progress : Stage → Progress) :
      σ.Runs t.call c w progress →
      progress t.stage = .fresh ∨
        progress t.stage = .waiting ∧ (σ.gate.closed = true ∨ t ∈ σ.gate.handed) →
      Ready σ (.ask t)
  | finish (t : Ticket) (c : Call) (w : Workspace) (progress : Stage → Progress) (run : Run) :
      σ.Runs t.call c w progress → runOf (progress t.stage) = some run → Ready σ (.finish t)
  | collect (n : Nat) (c : Call) (w : Workspace) (progress : Stage → Progress) :
      σ.Runs n c w progress → (State.results? progress).isSome = true → Ready σ (.collect n)

variable {c : Schedule} {m : Move} {t : Ticket} {n : Nat} {call : Call} {w : Workspace}
variable {progress : Stage → Progress}

/-- What a stage does next is ready. -/
theorem ready_of_stageMove? (hr : c.state.Runs t.call call w progress)
    (hm : stageMove? c t (progress t.stage) = some m) : Ready c.state m := by
  cases hp : progress t.stage with
  | fresh =>
    rw [hp] at hm
    obtain rfl := Option.some.inj hm
    exact .ask t call w progress hr (.inl hp)
  | waiting =>
    simp only [hp, stageMove?] at hm
    split at hm
    · rename_i hanswer
      obtain rfl := Option.some.inj hm
      rw [Bool.or_eq_true, List.contains_iff_mem] at hanswer
      exact .ask t call w progress hr (.inr ⟨hp, hanswer⟩)
    · cases hm
  | compiling run =>
    simp only [hp, stageMove?] at hm
    split at hm
    · split at hm
      · obtain rfl := Option.some.inj hm
        exact .finish t call w progress run hr (by rw [hp]; rfl)
      · cases hm
    · cases hm
  | demangling code raw run =>
    simp only [hp, stageMove?] at hm
    split at hm
    · split at hm
      · obtain rfl := Option.some.inj hm
        exact .finish t call w progress run hr (by rw [hp]; rfl)
      · cases hm
    · cases hm
  | done r =>
    rw [hp] at hm
    cases hm

/-- What a schedule does next is ready. -/
theorem ready_of_nextMove? (hm : nextMove? c = some m) : Ready c.state m := by
  obtain ⟨⟨call, n⟩, hcall, hm⟩ := List.exists_of_findSome?_eq_some hm
  have hn : c.state.calls[n]? = some call := List.mem_zipIdx_iff_getElem?.mp hcall
  cases hphase : call.phase with
  | running w progress =>
    have hr : c.state.Runs n call w progress := ⟨hn, hphase⟩
    simp only [hphase, callMove?] at hm
    split at hm
    · rename_i m' hstage
      obtain rfl := Option.some.inj hm
      obtain ⟨k, -, hk⟩ := List.exists_of_findSome?_eq_some hstage
      exact ready_of_stageMove? (t := ⟨n, k⟩) hr hk
    · split at hm
      · rename_i hresults
        obtain rfl := Option.some.inj hm
        exact .collect n call w progress hr hresults
      · cases hm
  | returned a => simp [hphase, callMove?] at hm
  | dropped => simp [hphase, callMove?] at hm

/-- Where nothing can be done now, no stage has a move and no response is complete. -/
theorem idle_of_nextMove? (hnone : nextMove? c = none) (hr : c.state.Runs n call w progress) :
    (∀ k, stageMove? c ⟨n, k⟩ (progress k) = none) ∧ State.results? progress = none := by
  have hcall := List.findSome?_eq_none_iff.mp hnone (call, n)
    (List.mem_zipIdx_iff_getElem?.mpr hr.call)
  simp only [hr.phase, callMove?] at hcall
  split at hcall
  · cases hcall
  · rename_i hstages
    refine ⟨fun k => List.findSome?_eq_none_iff.mp hstages k (Stage.mem_all k), ?_⟩
    split at hcall
    · cases hcall
    · rename_i hresults
      simpa using hresults

end StageLens.Orchestrator.Schedule
