import Mathlib
import StageLens.Proofs.Lists
import StageLens.Proofs.Orchestrator.Moves

/-!
# The calls of a state

Views of the calls of a state and what a move does to them: which calls are under way
(`runs_of_rule`), what becomes of those that were (`fate_of_rule`), how far a stage has come
(`State.progress?`), and what the stages amount to together when each counts by how far it has come
(`State.tally`). A property of stages that every turn establishes holds of all stages
(`everyStage_of_rule`).
-/

namespace StageLens.Orchestrator

/-- How far a stage has come in a phase. -/
def Phase.progress? : Phase → Stage → Option Progress
  | .running _ progress, k => some (progress k)
  | _, _ => none

/-- How far a stage of a call has come, while the call is under way. -/
def State.progress? (σ : State) (t : Ticket) : Option Progress :=
  (σ.calls[t.call]?).bind fun c => c.phase.progress? t.stage

/-- What the stages of a phase amount to. -/
def Phase.tally (weight : Progress → Nat) : Phase → Nat
  | .running _ progress => (Stage.all.map fun k => weight (progress k)).sum
  | _ => 0

/-- What the stages of the calls under way amount to. -/
def State.tally (weight : Progress → Nat) (σ : State) : Nat :=
  (σ.calls.map fun c => c.phase.tally weight).sum

variable {s : Settings} {runner : Runner} {σ τ : State} {m : Move}
variable {n : Nat} {c : Call} {w : Workspace} {progress : Stage → Progress}

namespace State

theorem Runs.progress? (h : σ.Runs n c w progress) (k : Stage) :
    σ.progress? ⟨n, k⟩ = some (progress k) := by
  simp [State.progress?, h.call, h.phase, Phase.progress?]

theorem runs_of_progress? {t : Ticket} {p : Progress} (h : σ.progress? t = some p) :
    ∃ c w progress, σ.Runs t.call c w progress ∧ progress t.stage = p := by
  obtain ⟨c, hc, hp⟩ := Option.bind_eq_some_iff.mp h
  cases hphase : c.phase with
  | running w progress =>
    rw [hphase] at hp
    exact ⟨c, w, progress, ⟨hc, hphase⟩, Option.some.inj hp⟩
  | returned a => rw [hphase] at hp; cases hp
  | dropped => rw [hphase] at hp; cases hp

/-- A call that is under way is under way in one manner. -/
theorem Runs.unique {c' : Call} {w' : Workspace} {progress' : Stage → Progress}
    (h : σ.Runs n c w progress) (h' : σ.Runs n c' w' progress') :
    c' = c ∧ w' = w ∧ progress' = progress := by
  have hc : c' = c := Option.some.inj (h'.call.symm.trans h.call)
  have hphase := h'.phase
  rw [hc, h.phase] at hphase
  injection hphase with hw hp
  exact ⟨hc, hw.symm, hp.symm⟩

theorem Runs.lt (h : σ.Runs n c w progress) : n < σ.calls.length :=
  (List.getElem?_eq_some_iff.mp h.call).1

/-! ## Setting the phase of one call -/

theorem getElem?_callsWith (h : σ.Runs n c w progress) (p : Phase) (i : Nat) :
    (σ.callsWith n c p)[i]? = if i = n then some { c with phase := p } else σ.calls[i]? := by
  unfold callsWith
  rw [List.getElem?_set]
  by_cases hi : i = n
  · subst hi
    rw [if_pos rfl, if_pos h.lt, if_pos rfl]
  · rw [if_neg (Ne.symm hi), if_neg hi]

theorem progress?_callsWith (h : σ.Runs n c w progress) {p : Phase}
    (hcalls : τ.calls = σ.callsWith n c p) (t : Ticket) :
    τ.progress? t = if t.call = n then p.progress? t.stage else σ.progress? t := by
  unfold State.progress?
  rw [hcalls, getElem?_callsWith h]
  split <;> rfl

theorem progress?_append {p : Phase} {r : Request} (hcalls : τ.calls = σ.calls ++ [⟨r, p⟩])
    (t : Ticket) :
    τ.progress? t = if t.call = σ.calls.length then p.progress? t.stage else σ.progress? t := by
  unfold State.progress?
  rw [hcalls, List.getElem?_append]
  split
  · rename_i hlt
    rw [if_neg (by omega)]
  · rename_i hge
    by_cases he : t.call = σ.calls.length
    · simp [he]
    · rw [if_neg he, List.getElem?_eq_none (by simp; omega), List.getElem?_eq_none (by omega)]

theorem progress?_congr (hcalls : τ.calls = σ.calls) (t : Ticket) :
    τ.progress? t = σ.progress? t := by
  unfold State.progress?
  rw [hcalls]

theorem tally_callsWith (h : σ.Runs n c w progress) {p : Phase}
    (hcalls : τ.calls = σ.callsWith n c p) (weight : Progress → Nat) :
    τ.tally weight + Phase.tally weight (.running w progress) =
      σ.tally weight + p.tally weight := by
  unfold State.tally
  rw [hcalls, ← h.phase]
  exact List.sum_map_set (fun c => c.phase.tally weight) h.call

theorem tally_append {p : Phase} {r : Request} (hcalls : τ.calls = σ.calls ++ [⟨r, p⟩])
    (weight : Progress → Nat) : τ.tally weight = σ.tally weight + p.tally weight := by
  unfold State.tally
  rw [hcalls, List.map_append, List.sum_append]
  rfl

theorem tally_congr (hcalls : τ.calls = σ.calls) (weight : Progress → Nat) :
    τ.tally weight = σ.tally weight := by
  unfold State.tally
  rw [hcalls]

@[simp] theorem advance_self (progress : Stage → Progress) (k : Stage) (p : Progress) :
    advance progress k p k = p := if_pos rfl

theorem advance_of_ne {progress : Stage → Progress} {k j : Stage} {p : Progress} (h : j ≠ k) :
    advance progress k p j = progress j := if_neg h

theorem sum_advance (weight : Progress → Nat) (progress : Stage → Progress) (k : Stage)
    (p : Progress) :
    (Stage.all.map fun j => weight (advance progress k p j)).sum + weight (progress k) =
      (Stage.all.map fun j => weight (progress j)).sum + weight p := by
  cases k <;> simp [Stage.all, advance] <;> omega

/-- One stage that moves on changes a tally by that stage. -/
theorem tally_advance {t : Ticket} {p : Progress} (h : σ.Runs t.call c w progress)
    (hcalls : τ.calls = σ.callsWith t.call c (.running w (advance progress t.stage p)))
    (weight : Progress → Nat) :
    τ.tally weight + weight (progress t.stage) = σ.tally weight + weight p := by
  have hcall := tally_callsWith h hcalls weight
  have hstage := sum_advance weight progress t.stage p
  simp only [Phase.tally] at hcall
  omega

end State

/-! ## Results -/

/-- The results of a call are there when all its stages are done, and they are in the order of the
catalog. -/
theorem results?_eq_some_iff {results : List (Stage × StageResult)} :
    State.results? progress = some results ↔
      ∃ f : Stage → StageResult, (∀ k, progress k = .done (f k)) ∧
        results = Stage.all.map fun k => (k, f k) := by
  constructor
  · intro h
    have hmap := List.map_of_mapM_eq_some h
    -- Every stage has its entry among the results, and only a stage that is done has one.
    have hdone : ∀ k, ∃ r, progress k = .done r := by
      intro k
      obtain ⟨e, he⟩ := List.exists_of_mapM_eq_some h (Stage.mem_all k)
      cases hp : progress k with
      | done r => exact ⟨r, rfl⟩
      | _ => simp [hp] at he
    choose f hf using hdone
    refine ⟨f, hf, List.map_injective_iff.mpr (Option.some_injective _) ?_⟩
    rw [← hmap, List.map_map]
    refine List.map_congr_left fun k _ => ?_
    simp [hf]
  · rintro ⟨f, hf, rfl⟩
    simp [State.results?, hf, Stage.all]

/-! ## Calls keep their requests -/

theorem request_callsWith {i : Nat} {c' : Call} {p : Phase} (h : σ.Runs n c w progress)
    (hcalls : τ.calls = σ.callsWith n c p) (hi : σ.calls[i]? = some c') :
    ∃ c'', τ.calls[i]? = some c'' ∧ c''.request = c'.request := by
  rw [hcalls, State.getElem?_callsWith h]
  split
  · rename_i he
    rw [he, h.call] at hi
    obtain rfl := Option.some.inj hi
    exact ⟨_, rfl, rfl⟩
  · exact ⟨c', hi, rfl⟩

/-- A call keeps its place and its request. -/
theorem request_of_rule (h : Rule s runner σ m τ) (hn : σ.calls[n]? = some c) :
    ∃ c', τ.calls[n]? = some c' ∧ c'.request = c.request := by
  cases h with
  | submit r p _ _ _ _ _ hcalls =>
    refine ⟨c, ?_, rfl⟩
    rw [hcalls, List.getElem?_append_left (List.getElem?_eq_some_iff.mp hn).1, hn]
  | turn _ t c' w progress launched p _ _ hr _ _ _ hcalls => exact request_callsWith hr hcalls hn
  | collect i c' w progress results _ hr _ _ _ _ _ hcalls => exact request_callsWith hr hcalls hn
  | drop i c' w progress _ hr _ _ _ _ hcalls => exact request_callsWith hr hcalls hn
  | hold _ _ _ _ _ _ _ hcalls => exact ⟨c, by rw [hcalls, hn], rfl⟩
  | release _ _ _ _ _ hcalls => exact ⟨c, by rw [hcalls, hn], rfl⟩
  | close _ _ _ _ _ hcalls => exact ⟨c, by rw [hcalls, hn], rfl⟩

/-! ## What a move leaves of a call -/

/-- A call that is there after a new one has come was there before or is the new one. -/
theorem getElem?_enrolled {p : Phase} {r : Request} (hcalls : τ.calls = σ.calls ++ [⟨r, p⟩])
    (hc : τ.calls[n]? = some c) :
    σ.calls[n]? = some c ∨ n = σ.calls.length ∧ c = ⟨r, p⟩ := by
  rw [hcalls, List.getElem?_append] at hc
  split at hc
  · exact .inl hc
  · rename_i hge
    have hn : n - σ.calls.length = 0 := by
      by_contra hne
      rw [List.getElem?_eq_none (by simp; omega)] at hc
      cases hc
    rw [hn] at hc
    exact .inr ⟨by omega, (Option.some.inj hc).symm⟩

/-- What becomes of a call under way: it stays so, or it ends and its workspace goes. -/
inductive Fate (σ : State) (m : Move) (τ : State) (n : Nat) (c : Call) (w : Workspace) : Prop
  | stays (c' : Call) (progress : Stage → Progress) : m ≠ .collect n → m ≠ .drop n →
      c'.request = c.request → τ.Runs n c' w progress → Fate σ m τ n c w
  | collected (response : Response) : m = .collect n → τ.host = w.dispose σ.host →
      τ.calls[n]? = some { c with phase := .returned (.ok response) } → Fate σ m τ n c w
  | dropped : m = .drop n → τ.host = w.dispose σ.host →
      τ.calls[n]? = some { c with phase := .dropped } → Fate σ m τ n c w

theorem fate_of_rule (h : Rule s runner σ m τ) (hr : σ.Runs n c w progress) :
    Fate σ m τ n c w := by
  have hset : ∀ (i : Nat) (c₁ : Call) (w₁ : Workspace) (before : Stage → Progress) (p : Phase),
      σ.Runs i c₁ w₁ before → τ.calls = σ.callsWith i c₁ p →
      τ.calls[n]? = if n = i then some { c₁ with phase := p } else some c := by
    intro i c₁ w₁ before p hr₁ hcalls
    rw [hcalls, State.getElem?_callsWith hr₁, hr.call]
  cases h with
  | submit r p _ _ _ _ _ hcalls =>
    refine .stays c progress (by simp) (by simp) rfl ⟨?_, hr.phase⟩
    rw [hcalls, List.getElem?_append_left hr.lt, hr.call]
  | turn _ t c₁ w₁ before launched p _ hm hr₁ _ _ _ hcalls =>
    have hcollect : m ≠ .collect n := by rcases hm with rfl | rfl <;> simp
    have hdrop : m ≠ .drop n := by rcases hm with rfl | rfl <;> simp
    have hcall := hset _ _ _ _ _ hr₁ hcalls
    split at hcall
    · rename_i hn
      subst hn
      obtain ⟨rfl, rfl, rfl⟩ := hr.unique hr₁
      exact .stays { c₁ with phase := .running w₁ (State.advance before t.stage p) } _ hcollect
        hdrop rfl ⟨hcall, rfl⟩
    · exact .stays c progress hcollect hdrop rfl ⟨hcall, hr.phase⟩
  | collect i c₁ w₁ before results _ hr₁ _ _ _ _ hhost hcalls =>
    have hcall := hset _ _ _ _ _ hr₁ hcalls
    split at hcall
    · rename_i hn
      subst hn
      obtain ⟨rfl, rfl, rfl⟩ := hr.unique hr₁
      exact .collected _ rfl hhost hcall
    · rename_i hn
      refine .stays c progress ?_ (by simp) rfl ⟨hcall, hr.phase⟩
      exact fun he => hn (Move.collect.inj he).symm
  | drop i c₁ w₁ before _ hr₁ _ _ _ hhost hcalls =>
    have hcall := hset _ _ _ _ _ hr₁ hcalls
    split at hcall
    · rename_i hn
      subst hn
      obtain ⟨rfl, rfl, rfl⟩ := hr.unique hr₁
      exact .dropped rfl hhost hcall
    · rename_i hn
      refine .stays c progress (by simp) ?_ rfl ⟨hcall, hr.phase⟩
      exact fun he => hn (Move.drop.inj he).symm
  | hold _ _ _ _ _ _ _ hcalls =>
    exact .stays c progress (by simp) (by simp) rfl ⟨by rw [hcalls, hr.call], hr.phase⟩
  | release _ _ _ _ _ hcalls =>
    exact .stays c progress (by simp) (by simp) rfl ⟨by rw [hcalls, hr.call], hr.phase⟩
  | close _ _ _ _ _ hcalls =>
    exact .stays c progress (by simp) (by simp) rfl ⟨by rw [hcalls, hr.call], hr.phase⟩

/-- A call that is over stays as it is. -/
theorem getElem?_of_over (h : Rule s runner σ m τ) (hc : σ.calls[n]? = some c)
    (hover : ∀ w progress, c.phase ≠ .running w progress) : τ.calls[n]? = some c := by
  have hset : ∀ (i : Nat) (c₁ : Call) (w₁ : Workspace) (before : Stage → Progress) (p : Phase),
      σ.Runs i c₁ w₁ before → τ.calls = σ.callsWith i c₁ p → τ.calls[n]? = some c := by
    intro i c₁ w₁ before p hr₁ hcalls
    have hne : n ≠ i := by
      rintro rfl
      obtain rfl := Option.some.inj (hc.symm.trans hr₁.call)
      exact hover w₁ before hr₁.phase
    rw [hcalls, State.getElem?_callsWith hr₁, if_neg hne, hc]
  cases h with
  | submit r p _ _ _ _ _ hcalls =>
    rw [hcalls, List.getElem?_append_left (List.getElem?_eq_some_iff.mp hc).1, hc]
  | turn _ t c₁ w₁ before launched p _ _ hr₁ _ _ _ hcalls => exact hset _ _ _ _ _ hr₁ hcalls
  | collect i c₁ w₁ before results _ hr₁ _ _ _ _ _ hcalls => exact hset _ _ _ _ _ hr₁ hcalls
  | drop i c₁ w₁ before _ hr₁ _ _ _ _ hcalls => exact hset _ _ _ _ _ hr₁ hcalls
  | hold _ _ _ _ _ _ _ hcalls => rw [hcalls, hc]
  | release _ _ _ _ _ hcalls => rw [hcalls, hc]
  | close _ _ _ _ _ hcalls => rw [hcalls, hc]

/-! ## Calls that are under way after a move -/

/-- Where a call that is under way after a move was before: under way in the same manner, not there
yet, or with one stage less advanced. -/
inductive Origin (s : Settings) (runner : Runner) (σ τ : State) (n : Nat) (c : Call)
    (w : Workspace) (progress : Stage → Progress) : Prop
  | same : σ.Runs n c w progress → Origin s runner σ τ n c w progress
  | housed : n = σ.calls.length → c.request.invalid? s.sourceLimit = none →
      Workspace.create σ.host s.scratchRoot c.request.source = (.ok w, τ.host) →
      progress = (fun _ => .fresh) → Origin s runner σ τ n c w progress
  | turned (c' : Call) (k : Stage) (before : Stage → Progress) (launched : List Start)
      (p : Progress) : σ.Runs n c' w before → c.request = c'.request →
      Turn s runner σ ⟨n, k⟩ c.request w (before k) τ.gate τ.host launched p →
      progress = State.advance before k p → Origin s runner σ τ n c w progress

theorem origin_of_end {c' : Call} {w' : Workspace} {before : Stage → Progress} {i : Nat}
    {p : Phase} (hends : ∀ k, p.progress? k = none) (h : σ.Runs i c' w' before)
    (hcalls : τ.calls = σ.callsWith i c' p) (hr : τ.Runs n c w progress) :
    n ≠ i ∧ σ.Runs n c w progress := by
  have hc := hr.call
  rw [hcalls, State.getElem?_callsWith h] at hc
  split at hc
  · obtain rfl := Option.some.inj hc
    have hp : p = .running w progress := hr.phase
    have hend := hends .ast
    rw [hp] at hend
    cases hend
  · rename_i hn
    exact ⟨hn, hc, hr.phase⟩

theorem runs_of_rule (h : Rule s runner σ m τ) (hr : τ.Runs n c w progress) :
    Origin s runner σ τ n c w progress := by
  have hc := hr.call
  have hphase := hr.phase
  cases h with
  | submit r p _ hp _ _ _ hcalls =>
    rcases getElem?_enrolled hcalls hc with hc | ⟨hn, rfl⟩
    · exact .same ⟨hc, hphase⟩
    · dsimp only at hphase
      subst hphase
      -- Only a call that found a workspace is under way at once.
      cases hp with
      | housed _ _ hvalid hcreate => exact .housed hn hvalid hcreate rfl
  | turn _ t c' w' before launched p _ _ hσ hturn _ _ hcalls =>
    rw [hcalls, State.getElem?_callsWith hσ] at hc
    split at hc
    · rename_i hn
      subst hn
      obtain rfl := Option.some.inj hc
      dsimp only at hphase
      injection hphase with hw hprogress
      subst hw
      exact .turned c' t.stage before launched p hσ rfl hturn hprogress.symm
    · exact .same ⟨hc, hphase⟩
  | collect i c' w' before results _ hσ _ _ _ _ _ hcalls =>
    exact .same (origin_of_end (fun _ => rfl) hσ hcalls hr).2
  | drop i c' w' before _ hσ _ _ _ _ hcalls =>
    exact .same (origin_of_end (fun _ => rfl) hσ hcalls hr).2
  | hold _ _ _ _ _ _ _ hcalls => exact .same ⟨hcalls ▸ hc, hphase⟩
  | release _ _ _ _ _ hcalls => exact .same ⟨hcalls ▸ hc, hphase⟩
  | close _ _ _ _ _ hcalls => exact .same ⟨hcalls ▸ hc, hphase⟩

/-- A call that is under way was so before, in the same workspace, or it is new. -/
theorem Origin.before (h : Origin s runner σ τ n c w progress) :
    (∃ c' before, c'.request = c.request ∧ σ.Runs n c' w before) ∨
      (n = σ.calls.length ∧
        Workspace.create σ.host s.scratchRoot c.request.source = (.ok w, τ.host)) := by
  cases h with
  | same hr => exact .inl ⟨c, progress, rfl, hr⟩
  | housed hn _ hcreate _ => exact .inr ⟨hn, hcreate⟩
  | turned c' _ before _ _ hr hreq _ _ => exact .inl ⟨c', before, hreq.symm, hr⟩

/-- A property of all stages of the calls that are under way. -/
def State.EveryStage (σ : State) (P : Request → Workspace → Stage → Progress → Prop) : Prop :=
  ∀ n c w progress, σ.Runs n c w progress → ∀ k, P c.request w k (progress k)

/-- What holds of fresh stages and is established by every turn holds of all stages. -/
theorem everyStage_of_rule {P : Request → Workspace → Stage → Progress → Prop}
    (h : Rule s runner σ m τ) (hσ : σ.EveryStage P) (hfresh : ∀ r w k, P r w k .fresh)
    (hturn : ∀ n c w before k launched p, σ.Runs n c w before →
      Turn s runner σ ⟨n, k⟩ c.request w (before k) τ.gate τ.host launched p →
      P c.request w k p) : τ.EveryStage P := by
  intro n c w progress hr k
  cases runs_of_rule h hr with
  | same hσr => exact hσ n c w progress hσr k
  | housed _ _ _ hp =>
    rw [hp]
    exact hfresh _ _ _
  | turned c' j before launched p hσr hreq ht hp =>
    rw [hp, hreq]
    rw [hreq] at ht
    by_cases hk : k = j
    · subst hk
      rw [State.advance_self]
      exact hturn n c' w before k launched p hσr ht
    · rw [State.advance_of_ne hk]
      exact hσ n c' w before hσr k

/-! ## What the moves lead to -/

/-- At the start there are no calls. -/
theorem calls_of_start {first : State} {h : Host} (hstart : State.start? s h = some first) :
    first.calls = [] := by
  obtain ⟨g, -, rfl⟩ := Option.map_eq_some_iff.mp hstart
  rfl

theorem everyStage_of_start {first : State} {h : Host} (hstart : State.start? s h = some first)
    (P : Request → Workspace → Stage → Progress → Prop) : first.EveryStage P := by
  intro n c w progress hr
  have hc := hr.call
  rw [calls_of_start hstart] at hc
  cases hc

/-- What holds of fresh stages and is established by every turn holds whatever the moves are. -/
theorem everyStage_of_reachable {first : State} {h : Host}
    {P : Request → Workspace → Stage → Progress → Prop}
    (hstart : State.start? s h = some first) (hfresh : ∀ r w k, P r w k .fresh)
    (hturn : ∀ (σ τ : State) t r w before launched p,
      Turn s runner σ t r w before τ.gate τ.host launched p → P r w t.stage p)
    (hσ : Reachable s runner first σ) : σ.EveryStage P := by
  induction hσ with
  | refl => exact everyStage_of_start hstart P
  | @step σ τ m _ hstep ih =>
    exact everyStage_of_rule (rule_of_step hstep) ih hfresh
      fun n c w before k launched p _ ht => hturn σ τ ⟨n, k⟩ c.request w _ launched p ht

end StageLens.Orchestrator
