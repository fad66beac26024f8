import StageLens.Proofs.Orchestrator.Cancellation
import StageLens.Proofs.Request
import StageLens.Proofs.Workspace.Failure

/-!
# Calls that are refused

A call is refused before anything is run for it, or it is answered. Which of them it is, and why,
can be told from the request and from the host it came to (`Verdict`); what the stages, the
demangler and the removal of the workspace do makes no difference. A refusal leaves nothing behind
but what was missing of the scratch directory (`Refused`), which may stand in the scratch directory
itself (`refused_call_leaves_scaffold`).
-/

namespace StageLens

namespace Orchestrator

/-- What the answer of a call tells of its request and of the host it came to. -/
structure Verdict (s : Settings) (h : Host) (r : Request) (a : Except Refusal Response) : Prop where
  empty : a = .error (.invalid .emptySource) ↔ r.IsBlank
  tooLarge : ∀ size limit, a = .error (.invalid (.sourceTooLarge size limit)) ↔
    ¬ r.IsBlank ∧ s.sourceLimit < r.source.utf8ByteSize ∧ size = r.source.utf8ByteSize ∧
      limit = s.sourceLimit
  homeless : ∀ f, a = .error (.workspace f) ↔
    ¬ r.IsBlank ∧ r.source.utf8ByteSize ≤ s.sourceLimit ∧
      (Workspace.create h s.scratchRoot r.source).1 = .error f
  served : (∃ response, a = .ok response) ↔
    ¬ r.IsBlank ∧ r.source.utf8ByteSize ≤ s.sourceLimit ∧
      ∃ w, (Workspace.create h s.scratchRoot r.source).1 = .ok w

/-- A call that came to a state was refused and is refused for ever, and nothing is left of it. -/
structure Refused (s : Settings) (σ τ : State) (r : Request) (e : Refusal) : Prop where
  atOnce : (submit s σ r).calls[σ.calls.length]? = some ⟨r, .returned (.error e)⟩
  gate : (submit s σ r).gate = σ.gate
  started : (submit s σ r).started = σ.started
  /-- Nothing is run for it later either. -/
  never : ∀ e' ∈ τ.started, e'.ticket.call ≠ σ.calls.length
  /-- None of its stages is at the gate. -/
  absent : ∀ t ∈ τ.gate.handed ++ τ.gate.queue, t.call ≠ σ.calls.length
  /-- A request that is not valid does not touch the file system. -/
  untouched : ∀ i, e = .invalid i → (submit s σ r).host = σ.host
  /-- Of a workspace that could not be made nothing is left, but what was missing of its scratch
  directory. -/
  undone : ∀ f, e = .workspace f → Workspace.Undone s.scratchRoot σ.host (submit s σ r).host

/-- How a call is answered: refused at once, or with a response. -/
inductive Reply (s : Settings) (h : Host) (r : Request) : Except Refusal Response → Prop
  | invalid (e : Invalid) : r.invalid? s.sourceLimit = some e → Reply s h r (.error (.invalid e))
  | homeless (f : Workspace.Failure) : r.invalid? s.sourceLimit = none →
      (Workspace.create h s.scratchRoot r.source).1 = .error f → Reply s h r (.error (.workspace f))
  | served (w : Workspace) (response : Response) : r.invalid? s.sourceLimit = none →
      (Workspace.create h s.scratchRoot r.source).1 = .ok w → Reply s h r (.ok response)

/-- What becomes of a call that comes to a state. -/
structure Handled (s : Settings) (runner : Runner) (σ : State) (r : Request) : Prop where
  /-- It is refused at once, or it is under way in its workspace. -/
  atOnce : (∃ e, (submit s σ r).calls[σ.calls.length]? = some ⟨r, .returned (.error e)⟩) ∨
    ∃ w, ¬ r.IsBlank ∧ r.source.utf8ByteSize ≤ s.sourceLimit ∧
      (Workspace.create σ.host s.scratchRoot r.source).1 = .ok w ∧
      (submit s σ r).Runs σ.calls.length ⟨r, .running w fun _ => .fresh⟩ w fun _ => .fresh
  /-- Whenever it has returned, its answer says why, and a refusal has left nothing. -/
  whenever : ∀ τ a, Reachable s runner (submit s σ r) τ →
    τ.calls[σ.calls.length]? = some ⟨r, .returned a⟩ →
    Verdict s σ.host r a ∧ ∀ e, a = .error e → Refused s σ τ r e
  /-- It does return, unless its caller goes, where all runs end and others leave a permit. -/
  completes : (∀ i h, (runner i h).ending.isSome = true) → σ.held < s.capacity →
    (submit s σ r).Completes s runner

variable {s : Settings} {runner : Runner} {first σ τ : State} {r : Request} {e : Refusal}
variable {n : Nat} {c : Call} {w : Workspace} {progress : Stage → Progress} {host : Host}
variable {a : Except Refusal Response}

/-! ## What an answer tells -/

theorem Reply.verdict (h : Reply s host r a) : Verdict s host r a := by
  constructor
  · rw [← Request.invalid?_eq_emptySource_iff r s.sourceLimit]
    cases h with
    | invalid e he => simp [he]
    | homeless f he _ => simp [he]
    | served w response he _ => simp [he]
  · intro size limit
    rw [← Request.invalid?_eq_sourceTooLarge_iff]
    cases h with
    | invalid e he => simp [he]
    | homeless f he _ => simp [he]
    | served w response he _ => simp [he]
  · intro f
    rw [← and_assoc, ← Request.invalid?_eq_none_iff]
    cases h with
    | invalid e he => simp [he]
    | homeless f' he hcreate => simp [he, hcreate]
    | served w response he hcreate => simp [he, hcreate]
  · rw [← and_assoc, ← Request.invalid?_eq_none_iff]
    cases h with
    | invalid e he => simp [he]
    | homeless f' he hcreate => simp [he, hcreate]
    | served w response he hcreate => simp [he, hcreate]

/-! ## What becomes of a call -/

/-- A call that is over stays as it is, whatever the moves are. -/
theorem over_of_reachable (hτ : Reachable s runner σ τ) (hc : σ.calls[n]? = some c)
    (hover : ∀ w progress, c.phase ≠ .running w progress) : τ.calls[n]? = some c := by
  induction hτ with
  | refl => exact hc
  | step _ hstep ih => exact getElem?_of_over (rule_of_step hstep) ih hover

/-- A call that is under way is never refused any more. -/
theorem not_refused_of_runs (hτ : Reachable s runner σ τ) (hr : σ.Runs n c w progress) :
    (∃ c' progress', τ.Runs n c' w progress') ∨
      ∃ c', τ.calls[n]? = some c' ∧
        (c'.phase = .dropped ∨ ∃ response, c'.phase = .returned (.ok response)) := by
  induction hτ with
  | refl => exact .inl ⟨c, progress, hr⟩
  | step _ hstep ih =>
    have hrule := rule_of_step hstep
    rcases ih with ⟨c', progress', hr'⟩ | ⟨c', hc', hend⟩
    · cases fate_of_rule hrule hr' with
      | stays c'' progress'' _ _ _ hr'' => exact .inl ⟨c'', progress'', hr''⟩
      | collected response _ _ hc => exact .inr ⟨_, hc, .inr ⟨response, rfl⟩⟩
      | dropped _ _ hc => exact .inr ⟨_, hc, .inl rfl⟩
    · refine .inr ⟨c', getElem?_of_over hrule hc' fun w progress hp => ?_, hend⟩
      rw [hp] at hend
      rcases hend with hend | ⟨response, hend⟩ <;> cases hend

/-- However a call returns, its answer was decided when it came. -/
theorem reply_of_reachable (hτ : Reachable s runner (submit s σ r) τ)
    (ha : τ.calls[σ.calls.length]? = some ⟨r, .returned a⟩) :
    Reply s σ.host r a ∧
      ∀ e, a = .error e → (submit s σ r).calls[σ.calls.length]? = some ⟨r, .returned a⟩ := by
  obtain ⟨p, htaken⟩ := exists_taken s σ r
  have hnew := htaken.getElem?
  have hp := htaken.reception
  have hrefused : ∀ e, p = .returned (.error e) → a = .error e := by
    intro e he
    subst he
    have hsame := over_of_reachable hτ hnew (by simp)
    rw [hsame] at ha
    cases ha
    rfl
  generalize (submit s σ r).host = host at hp
  cases hp with
  | invalid e he =>
    obtain rfl := hrefused _ rfl
    exact ⟨.invalid e he, fun _ _ => hnew⟩
  | homeless f _ he hcreate =>
    obtain rfl := hrefused _ rfl
    exact ⟨.homeless f he (by rw [hcreate]), fun _ _ => hnew⟩
  | housed w _ he hcreate =>
    have hr : (submit s σ r).Runs σ.calls.length ⟨r, .running w fun _ => .fresh⟩ w
        fun _ => .fresh := ⟨hnew, rfl⟩
    rcases not_refused_of_runs hτ hr with ⟨c', progress', hr'⟩ | ⟨c', hc', hend⟩
    · have hcall := hr'.call
      rw [ha] at hcall
      obtain rfl := Option.some.inj hcall
      cases hr'.phase
    · rw [ha] at hc'
      obtain rfl := Option.some.inj hc'
      rcases hend with hend | ⟨response, hend⟩
      · cases hend
      · cases hend
        exact ⟨.served w response he (by rw [hcreate]), fun e he => by cases he⟩

/-- A refusal leaves everything as it was, but for directories on the way to the workspaces. -/
theorem refused_of_reachable {h : Host} (hstart : State.start? s h = some first)
    (hσ : Reachable s runner first σ) (ht : σ.host.tree.Proper)
    (hτ : Reachable s runner (submit s σ r) τ)
    (he : τ.calls[σ.calls.length]? = some ⟨r, .returned (.error e)⟩) : Refused s σ τ r e := by
  have hfirst : Reachable s runner first τ :=
    (Reachable.step (m := .submit r) hσ rfl).trans hτ
  have hatOnce := (reply_of_reachable hτ he).2 e rfl
  have hempty : ∀ k, τ.startsOf ⟨σ.calls.length, k⟩ = [] :=
    (trailed_of_reachable hstart hfirst).calls _ _ he
  have hledger := accounted_of_reachable hstart hfirst
  obtain ⟨p, htaken⟩ := exists_taken s σ r
  have hp : p = .returned (.error e) := by
    have hnew := htaken.getElem?
    rw [hatOnce] at hnew
    cases hnew
    rfl
  have hreception := htaken.reception
  rw [hp] at hreception
  refine ⟨hatOnce, htaken.gate, htaken.started, fun e' hstart' hcall => ?_, fun t htwait hcall => ?_,
    fun i hi => ?_, fun f hf => ?_⟩
  · have hmem := State.mem_startsOf hstart'
    have hnone := hempty e'.ticket.stage
    rw [← hcall] at hnone
    rw [hnone] at hmem
    cases hmem
  · have hwait : τ.progress? t = some .waiting := hledger.waits t htwait
    obtain ⟨c, w, progress, hr, -⟩ := State.runs_of_progress? hwait
    have hrcall := hr.call
    rw [hcall, he] at hrcall
    obtain rfl := Option.some.inj hrcall
    cases hr.phase
  · subst hi
    generalize (submit s σ r).host = host at hreception
    cases hreception with
    | invalid => rfl
  · subst hf
    generalize (submit s σ r).host = host at hreception
    cases hreception with
    | homeless _ _ _ hcreate => exact Workspace.undone_of_create_error ht hcreate

/-- A new call is refused at once, or it is under way in its workspace. -/
theorem refused_or_runs (s : Settings) (σ : State) (r : Request) :
    (∃ e, (submit s σ r).calls[σ.calls.length]? = some ⟨r, .returned (.error e)⟩) ∨
      ∃ w, ¬ r.IsBlank ∧ r.source.utf8ByteSize ≤ s.sourceLimit ∧
        (Workspace.create σ.host s.scratchRoot r.source).1 = .ok w ∧
        (submit s σ r).Runs σ.calls.length ⟨r, .running w fun _ => .fresh⟩ w fun _ => .fresh := by
  obtain ⟨p, htaken⟩ := exists_taken s σ r
  have hnew := htaken.getElem?
  have hp := htaken.reception
  generalize (submit s σ r).host = host at hp
  cases hp with
  | invalid e _ => exact .inl ⟨_, hnew⟩
  | homeless f _ _ _ => exact .inl ⟨_, hnew⟩
  | housed w _ he hcreate =>
    obtain ⟨hblank, hsize⟩ := Request.invalid?_eq_none_iff.mp he
    exact .inr ⟨w, hblank, hsize, by rw [hcreate], hnew, rfl⟩

/-- **Calls fail before anything is run for them, or not at all.** A call may come to any state that
comes about, with the gate open, taken or closed, and the file system may refuse what it will. The
call is refused at once or it is under way; whenever it returns, its answer tells of the request and
of the file system what `Verdict` says, whatever the runs and the removal of its workspace did; and
of a refusal nothing is left but the scratch directory and what was missing on the way to it
(`Refused`), all of it above the scratch directory unless its path goes back. -/
theorem calls_fail_before_dispatch {h : Host} (hstart : State.start? s h = some first)
    (hσ : Reachable s runner first σ) (ht : σ.host.tree.Proper) (r : Request) :
    Handled s runner σ r := by
  refine ⟨refused_or_runs s σ r, fun τ a hτ ha => ⟨?_, fun e he => ?_⟩, fun hends hheld => ?_⟩
  · exact (reply_of_reachable hτ ha).1.verdict
  · subst he
    exact refused_of_reachable hstart hσ ht hτ ha
  · obtain ⟨p, htaken⟩ := exists_taken s σ r
    have hnext : Reachable s runner first (submit s σ r) := .step (m := .submit r) hσ rfl
    exact completes_of_runsEnd hstart hnext (htaken.held ▸ hheld) hends

/-! ## A call that finds no space -/

/-- Settings whose scratch directory has to be made, and the one above it. -/
def Settings.nested : Settings :=
  { Settings.narrow with scratchRoot := some (Text.bytes "a/b") }

/-- A host where directories can be made, but no files. -/
def fullHost : Host :=
  { bareHost with refuses := fun | .write _ => some .noSpace | .makeDirectory _ => none }

/-- A call finds the gate closed and no space for its source: its workspace goes again, and the
scratch directory stays. -/
theorem calls_fail_before_dispatch_full :
    ∃ first σ, State.start? .nested fullHost = some first ∧
      run? .nested (prompt treeless) first [.submit ⟨" ", {}⟩, .close] = some σ ∧
      σ.gate.closed = true ∧ σ.held < Settings.nested.capacity ∧
      (Workspace.create σ.host Settings.nested.scratchRoot "x").1 = .error ⟨.noSpace, none⟩ ∧
      (submit .nested σ ⟨"x", {}⟩).host.entries (Text.bytes "/a/b") = .ok [] ∧
      Handled .nested (prompt treeless) σ ⟨"x", {}⟩ := by
  have hview : ((State.start? .nested fullHost).bind fun first =>
      run? .nested (prompt treeless) first [.submit ⟨" ", {}⟩, .close]).any (fun σ =>
        decide (σ.gate.closed = true ∧ σ.held = 0 ∧ σ.host.tree = fullHost.tree ∧
          (Workspace.create σ.host Settings.nested.scratchRoot "x").1 =
            .error ⟨.noSpace, none⟩ ∧
          (submit .nested σ ⟨"x", {}⟩).host.entries (Text.bytes "/a/b") = .ok [])) = true := by
    decide +kernel
  obtain ⟨σ, hσ, hview⟩ := (Option.any_eq_true _ _).mp hview
  obtain ⟨first, hstart, hrun⟩ := Option.bind_eq_some_iff.mp hσ
  obtain ⟨hclosed, hheld, htree, hcreate, hentries⟩ := of_decide_eq_true hview
  have ht : σ.host.tree.Proper := by
    rw [htree]
    exact Tree.proper_empty.put (p := []) rfl rfl
  have hfree : σ.held < Settings.nested.capacity := by
    rw [hheld]
    decide
  exact ⟨first, σ, hstart, hrun, hclosed, hfree, hcreate, hentries,
    calls_fail_before_dispatch hstart (reachable_iff_run?.mpr ⟨_, hrun⟩) ht ⟨"x", {}⟩⟩

/-- Settings whose scratch directory is where the service works, by way of a directory that has to be
made and is named like a workspace. -/
def Settings.winding : Settings :=
  { Settings.narrow with scratchRoot := some (Text.bytes "silscope-r/..") }

/-- A call is refused as there is no space for its source. Its workspace goes again, and the
directory that was made on the way to the scratch directory is listed there. -/
theorem refused_call_leaves_scaffold :
    ∃ first, State.start? .winding fullHost = some first ∧
      first.host.entries (Text.bytes "/") = .ok [Text.bytes "tmp"] ∧
      let σ := submit .winding first ⟨"x", {}⟩
      σ.calls = [⟨⟨"x", {}⟩, .returned (.error (.workspace ⟨.noSpace, none⟩))⟩] ∧
      σ.host.find (Text.bytes "silscope-r/..") = .ok (.there [] .directory) ∧
      σ.host.entries (Text.bytes "silscope-r/..") =
        .ok [Text.bytes "tmp", Text.bytes "silscope-r"] ∧
      σ.host.isDirectory (Text.bytes "silscope-r/../silscope-r") = true := by
  have hview : (State.start? .winding fullHost).any (fun first =>
      let σ := submit .winding first ⟨"x", {}⟩
      decide (first.host.entries (Text.bytes "/") = .ok [Text.bytes "tmp"] ∧
        first.calls.length = 0 ∧
        (Workspace.create first.host Settings.winding.scratchRoot "x").1 =
          .error ⟨.noSpace, none⟩ ∧
        σ.host.find (Text.bytes "silscope-r/..") = .ok (.there [] .directory) ∧
        σ.host.entries (Text.bytes "silscope-r/..") =
          .ok [Text.bytes "tmp", Text.bytes "silscope-r"] ∧
        σ.host.isDirectory (Text.bytes "silscope-r/../silscope-r") = true)) = true := by
    decide +kernel
  obtain ⟨first, hstart, hview⟩ := (Option.any_eq_true _ _).mp hview
  obtain ⟨hbefore, hfirst, hcreate, hafter⟩ := of_decide_eq_true hview
  refine ⟨first, hstart, hbefore, ?_, hafter⟩
  obtain ⟨p, htaken⟩ := exists_taken .winding first ⟨"x", {}⟩
  have hreception := htaken.reception
  rw [htaken.calls, List.length_eq_zero_iff.mp hfirst]
  generalize (submit .winding first ⟨"x", {}⟩).host = h at hreception
  cases hreception with
  | invalid e he =>
    have hnone : Request.invalid? ⟨"x", {}⟩ Settings.winding.sourceLimit = none := by
      decide +kernel
    rw [hnone] at he
    cases he
  | homeless f _ _ hc =>
    rw [hc] at hcreate
    cases hcreate
    rfl
  | housed w _ _ hc =>
    rw [hc] at hcreate
    cases hcreate

end Orchestrator

end StageLens
