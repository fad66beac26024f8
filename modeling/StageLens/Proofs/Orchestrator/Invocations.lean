import StageLens.Proofs.Orchestrator.Cancellation

/-!
# What a call runs

The invocations of a call, read off its trails. While the gate is open a call that has returned has
run the compiler once for each stage, with the command that its result shows, and the demangler on
nothing but what these compilers printed.
-/

namespace StageLens.Orchestrator

/-- An invocation without the directory it runs in. -/
def anywhere (i : Invocation) : Invocation := { i with directory := none }

namespace State

/-- What has been run for a stage, the latest first. -/
def invocationsOf (σ : State) (t : Ticket) (p : Purpose) : List Invocation :=
  ((σ.startsOf t).filter fun e => e.purpose = p).map (·.invocation)

/-- What has been run for a call, the latest first. -/
def invocations (σ : State) (n : Nat) (p : Purpose) : List Invocation :=
  (σ.started.filter fun e => e.ticket.call = n ∧ e.purpose = p).map (·.invocation)

/-- The request of a call and its response, once it has one. -/
def answer? (σ : State) (n : Nat) : Option (Request × Response) :=
  (σ.calls[n]?).bind fun c => match c.phase with
    | .returned (.ok response) => some (c.request, response)
    | _ => none

end State

/-- An invocation of a call has come to an end. -/
def EndedWith (s : Settings) (runner : Runner) (first σ : State) (r : Request) (w : Workspace)
    (e : Start) (ending : Ending) : Prop :=
  ∃ run, Launched s runner first σ r w e run ∧ run.ending = some ending

/-- A state of an orchestrator from its start on, with the gate open. -/
structure Session (s : Settings) (runner : Runner) (first σ : State) : Prop where
  start : State.start? s first.host = some first
  reachable : Reachable s runner first σ
  isOpen : σ.gate.closed = false

variable {s : Settings} {f : Task → Ending} {runner : Runner} {first σ : State}
variable {r : Request} {w : Workspace} {t : Ticket} {n : Nat} {p : Progress} {es : List Start}
variable {response : Response} {result : StageResult}

/-! ## Sessions -/

theorem host_of_start {h : Host} (hstart : State.start? s h = some first) : first.host = h := by
  obtain ⟨g, -, rfl⟩ := Option.map_eq_some_iff.mp hstart
  rfl

/-- At the start all permits are left. -/
theorem held_of_start {h : Host} (hstart : State.start? s h = some first) : first.held = 0 := by
  obtain ⟨g, -, rfl⟩ := Option.map_eq_some_iff.mp hstart
  rfl

theorem session_of_run? {h : Host} {ms : List Move} (hstart : State.start? s h = some first)
    (hrun : run? s runner first ms = some σ) (hopen : σ.gate.closed = false) :
    Session s runner first σ where
  start := by
    rw [host_of_start hstart]
    exact hstart
  reachable := reachable_iff_run?.mpr ⟨ms, hrun⟩
  isOpen := hopen

/-! ## A call and its stages -/

theorem answer?_eq_some_iff :
    σ.answer? n = some (r, response) ↔ σ.calls[n]? = some ⟨r, .returned (.ok response)⟩ := by
  unfold State.answer?
  constructor
  · intro h
    obtain ⟨⟨request, phase⟩, hc, h⟩ := Option.bind_eq_some_iff.mp h
    rw [hc]
    dsimp only at h
    split at h
    · cases h
      rfl
    · cases h
  · intro h
    rw [h]
    rfl

/-- The starts for a call are the starts for its stages. -/
theorem starts_perm (es : List Start) (n : Nat) (p : Purpose) :
    (es.filter fun e => e.ticket.call = n ∧ e.purpose = p).Perm
      (Stage.all.flatMap fun k =>
        (es.filter fun e => e.ticket = ⟨n, k⟩).filter fun e => e.purpose = p) := by
  induction es with
  | nil => simp
  | cons e es ih =>
    obtain ⟨⟨call, stage⟩, purpose, i⟩ := e
    by_cases hmine : call = n ∧ purpose = p
    · obtain ⟨rfl, rfl⟩ := hmine
      rw [List.filter_cons_of_pos (by simp)]
      refine (List.Perm.cons _ ih).trans ?_
      -- The start is for one of the stages, wherever that stands in the catalog.
      rw [List.perm_iff_count]
      intro a
      cases stage <;>
        simp only [Stage.all, List.flatMap_cons, List.flatMap_nil, List.filter_cons,
          List.count_append, List.count_cons, List.append_nil, Ticket.mk.injEq, true_and,
          reduceCtorEq, decide_false, decide_true, if_true, if_false, Bool.false_eq_true] <;>
        omega
    · rw [List.filter_cons_of_neg (by simpa using hmine)]
      refine ih.trans (List.Perm.of_eq ?_)
      refine List.flatMap_congr fun k _ => ?_
      by_cases hk : call = n ∧ stage = k
      · rw [List.filter_cons_of_pos (by simpa using hk), List.filter_cons_of_neg]
        simpa using fun hp => hmine ⟨hk.1, hp⟩
      · rw [List.filter_cons_of_neg (by simpa using hk)]

/-- What has been run for a call has been run for its stages. -/
theorem invocations_perm (σ : State) (n : Nat) (p : Purpose) :
    (σ.invocations n p).Perm (Stage.all.flatMap fun k => σ.invocationsOf ⟨n, k⟩ p) := by
  have hperm := (starts_perm σ.started n p).map (·.invocation)
  rw [List.map_flatMap] at hperm
  exact hperm

/-! ## What trails say -/

/-- The compiler that was started for a stage, at most once. -/
theorem Trail.compilers (h : Trail s runner first σ r w t p es) :
    ∀ e ∈ es, e.purpose = .compile → e = compilerStart s r w t := by
  intro e he hpurpose
  cases h with
  | fresh => cases he
  | waiting => cases he
  | rejected _ => cases he
  | compiling _ _ => exact List.mem_singleton.mp he
  | broken _ _ _ _ => exact List.mem_singleton.mp he
  | plain _ _ _ _ _ => exact List.mem_singleton.mp he
  | demangling _ _ _ _ _ _ _ =>
    rcases List.mem_cons.mp he with rfl | he
    · cases hpurpose
    · exact List.mem_singleton.mp he
  | filtered _ _ _ _ _ _ _ _ _ =>
    rcases List.mem_cons.mp he with rfl | he
    · cases hpurpose
    · exact List.mem_singleton.mp he

/-- The demangler reads what a compiler of the same stage printed. -/
theorem Trail.demanglers (h : Trail s runner first σ r w t p es) :
    ∀ e ∈ es, e.purpose = .demangle → compilerStart s r w t ∈ es ∧ ∃ run o,
      Launched s runner first σ r w (compilerStart s r w t) run ∧ run.ending = some (.ok o) ∧
        e = demanglerStart s t o.combined := by
  intro e he hpurpose
  have hone : ∀ o, e ∈ [demanglerStart s t o, compilerStart s r w t] →
      e = demanglerStart s t o := by
    intro o he
    rcases List.mem_cons.mp he with he | he
    · exact he
    · obtain rfl := List.mem_singleton.mp he
      cases hpurpose
  have hnone : e ∉ [compilerStart s r w t] := by
    intro he
    obtain rfl := List.mem_singleton.mp he
    cases hpurpose
  cases h with
  | fresh => cases he
  | waiting => cases he
  | rejected _ => cases he
  | compiling _ _ => exact absurd he hnone
  | broken _ _ _ _ => exact absurd he hnone
  | plain _ _ _ _ _ => exact absurd he hnone
  | demangling run _ o hrun hend _ _ => exact ⟨by simp, run, o, hrun, hend, hone _ he⟩
  | filtered run _ o _ hrun hend _ _ _ => exact ⟨by simp, run, o, hrun, hend, hone _ he⟩

/-- Whatever has been started for a call is on the trails of its stages. -/
theorem State.Trailed.of_started {c : Call} (hσ : σ.Trailed s runner first)
    (hc : σ.calls[n]? = some c) {e : Start} (he : e ∈ σ.started) (hcall : e.ticket.call = n) :
    ∃ w progress, Trails s runner first σ c.request w n progress := by
  have hphase := hσ.calls n c hc
  cases hp : c.phase with
  | running w progress =>
    rw [hp] at hphase
    exact ⟨w, progress, hphase⟩
  | returned a =>
    cases a with
    | ok response =>
      rw [hp] at hphase
      obtain ⟨w, results, -, htrails⟩ := hphase
      exact ⟨w, _, htrails⟩
    | error refusal =>
      rw [hp] at hphase
      have hnone : σ.startsOf e.ticket = [] := by
        have := hphase e.ticket.stage
        rwa [← hcall] at this
      have hmem := State.mem_startsOf he
      rw [hnone] at hmem
      cases hmem
  | dropped =>
    rw [hp] at hphase
    exact hphase

/-- A result shows the label of its stage and the command of its compiler. -/
theorem Trail.shown (h : Trail s runner first σ r w t (.done result) es) :
    result.label = t.stage.label ∧
      result.command = (compilation s r t.stage w).commandLine := by
  cases h <;> exact ⟨rfl, rfl⟩

/-- While the gate is open, a stage that is done has run its compiler once. -/
theorem Trail.compiled (h : Trail s runner first σ r w t (.done result) (σ.startsOf t))
    (hopen : σ.gate.closed = false) :
    σ.invocationsOf t .compile = [compilation s r t.stage w] := by
  unfold State.invocationsOf
  generalize σ.startsOf t = es at h
  cases h with
  | rejected hclosed =>
    rw [hopen] at hclosed
    cases hclosed
  | broken _ _ _ _ => rfl
  | plain _ _ _ _ _ => rfl
  | filtered _ _ _ _ _ _ _ _ _ => rfl

/-- A call that has returned a response has the trails of its stages. -/
theorem Session.trails (h : Session s runner first σ) (hc : σ.answer? n = some (r, response)) :
    ∃ (w : Workspace) (results : Stage → StageResult),
      response.entries = (Stage.all.map fun k => (k, results k)) ∧
        Trails s runner first σ r w n fun k => .done (results k) :=
  (trailed_of_reachable h.start h.reachable).calls n _ (answer?_eq_some_iff.mp hc)

/-- A call that has returned has run its compilers, one for each stage. -/
theorem Trails.compilers_perm {results : Stage → StageResult}
    (h : Trails s runner first σ r w n fun k => .done (results k))
    (hopen : σ.gate.closed = false) :
    (σ.invocations n .compile).Perm (Stage.all.map fun k => compilation s r k w) := by
  have hone : (Stage.all.flatMap fun k => σ.invocationsOf ⟨n, k⟩ .compile) =
      Stage.all.map fun k => compilation s r k w := by
    rw [List.map_eq_flatMap]
    exact List.flatMap_congr fun k _ => (h.trail k).compiled hopen
  rw [← hone]
  exact invocations_perm σ n .compile

end StageLens.Orchestrator
