import StageLens.Proofs.Orchestrator.Clock
import StageLens.Proofs.Orchestrator.Demangling
import StageLens.Proofs.Orchestrator.Refusals

/-!
# The answer to a request

Where runs behave as their tasks say, a request has one answer on a host (`answerOn`): it is not
valid, or there is no workspace for it, or its stages have their own results. A schedule that the
request comes to gives that answer, whatever else is under way and whatever the times are.
-/

namespace StageLens.Orchestrator

/-- A runner that behaves: each run comes to an end, to the one that its task says, and the sources
in the workspaces stay what they are or are not looked at. -/
structure Behaves (f : Task → Ending) (scratchRoot : Option Bytes) (runner : Runner) : Prop where
  follows : Follows f runner
  ends : ∀ i h, (runner i h).ending.isSome = true
  sources : SparesSources scratchRoot runner ∨ IgnoresSources f

/-- The answer to a request that comes to a host. -/
def answerOn (s : Settings) (f : Task → Ending) (h : Host) (r : Request) :
    Except Refusal Response :=
  match r.invalid? s.sourceLimit with
  | some e => .error (.invalid e)
  | none =>
    match (Workspace.create h s.scratchRoot r.source).1 with
    | .error e => .error (.workspace e)
    | .ok _ => .ok (referenceResponse s f r)

variable {s : Settings} {f : Task → Ending} {runner : Runner} {first σ : State}
variable {r : Request} {n : Nat} {response : Response} {h host : Host} {a : Except Refusal Response}

/-- In an open gate a stage that is done has run its compiler. -/
theorem Trail.compiler_started {w : Workspace} {t : Ticket} {result : StageResult} {es : List Start}
    (h : Trail s runner first σ r w t (.done result) es) (hopen : σ.gate.closed = false) :
    compilerStart s r w t ∈ es := by
  cases h with
  | rejected hclosed =>
    rw [hopen] at hclosed
    cases hclosed
  | broken _ _ _ _ => simp
  | plain _ _ _ _ _ => simp
  | filtered _ _ _ _ _ _ _ _ _ => simp

/-- In an open gate the responses are those that the requests have by themselves. -/
theorem Session.eq_referenceResponse (hsession : Session s runner first σ)
    (hbehaves : Behaves f s.scratchRoot runner) (ht : first.host.tree.Proper)
    (ha : σ.answer? n = some (r, response)) : response = referenceResponse s f r := by
  obtain ⟨w, results, hentries, htrails⟩ := hsession.trails ha
  have hresults : results = reference s f r := by
    funext k
    have htrail := htrails.trail k
    have hcompiler : ∀ run e, Launched s runner first σ r w (compilerStart s r w ⟨n, k⟩) run →
        run.ending = some e → e = f (compileTask s r k) := fun run e hrun he =>
      EndedWith.eq_compileTask hbehaves.follows hbehaves.sources hsession.start ht ⟨run, hrun, he⟩
    exact htrail.eq_reference_of hbehaves.follows hcompiler
      (htrail.compiler_started hsession.isOpen)
  rw [referenceResponse, ← hresults, ← hentries]

/-- A reply is the answer on its host if the response in it is the one of its request. -/
theorem Reply.eq_answerOn (h : Reply s host r a)
    (hresponse : ∀ response, a = .ok response → response = referenceResponse s f r) :
    a = answerOn s f host r := by
  unfold answerOn
  cases h with
  | invalid e he => rw [he]
  | homeless e he hcreate => rw [he, hcreate]
  | served w response he hcreate => rw [he, hcreate, hresponse response rfl]

/-- **A schedule gives each request its answer**, where the gate is open and others leave a permit. -/
theorem Schedule.answer_eq {c : Schedule} (hstart : State.start? s h = some first)
    (ht : h.tree.Proper) (hbehaves : Behaves f s.scratchRoot runner)
    (hc : Arises s runner first c) (hopen : c.state.gate.closed = false)
    (hheld : c.state.held < s.capacity) (r : Request) :
    ∃ d, c.answer s runner [(r, none)] = (d, [.returned (answerOn s f c.state.host r)]) := by
  obtain ⟨d, a, hanswer, hlater, hcall, hclosed⟩ :=
    Schedule.exists_answer hstart hbehaves.ends hc hheld r
  have hsession : Session s runner first d.state := by
    refine ⟨by rw [host_of_start hstart]; exact hstart, ?_, by rw [hclosed, hopen]⟩
    exact (Reachable.step (m := .submit r) hc.reachable rfl).trans hlater
  have hproper : first.host.tree.Proper := by
    rw [host_of_start hstart]
    exact ht
  have ha : a = answerOn s f c.state.host r := by
    refine (reply_of_reachable hlater hcall).1.eq_answerOn fun response hresponse => ?_
    rw [hresponse] at hcall
    exact hsession.eq_referenceResponse hbehaves hproper (answer?_eq_some_iff.mpr hcall)
  exact ⟨d, by rw [hanswer, ha]⟩

end StageLens.Orchestrator
