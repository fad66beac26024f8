import StageLens.Proofs.Orchestrator.Homes
import StageLens.Proofs.Orchestrator.Trails

/-!
# Results without a schedule

A run that depends on its task alone, which is the command with its input and the source it finds,
gives each stage one result that can be told from the request: `reference`. Whatever happens between
the runs, a stage that is done has its reference result, or it was turned away by the closed gate
(`State.Faithful`), and so have the responses (`State.Answers`).
-/

namespace StageLens.Orchestrator

open StageLens.Workspace (scratchDirectory sourceName)

/-- All that a run may depend on. -/
structure Task where
  program : Bytes
  arguments : List String
  input : Option Bytes
  timeout : Duration
  /-- The source in the directory where it runs, if it runs in one that has it. -/
  source : Option Bytes
  deriving DecidableEq, Repr

/-- The task of an invocation on a host. -/
def taskOf (i : Invocation) (h : Host) : Task where
  program := i.program
  arguments := i.arguments
  input := i.input
  timeout := i.timeout
  source := i.directory.bind fun d => (h.read (Path.join d sourceName)).toOption

/-- A run that ends, ends as its task says. -/
def Follows (f : Task → Ending) (runner : Runner) : Prop :=
  ∀ i h e, (runner i h).ending = some e → e = f (taskOf i h)

section Reference

variable (s : Settings) (f : Task → Ending) (r : Request)

/-- The task of the compiler for a stage. -/
def compileTask (k : Stage) : Task :=
  ⟨s.toolchain.compiler, k.arguments r.options s.toolchain, none, s.stageTimeout,
    some (Text.bytes r.source)⟩

/-- The task of the demangler for the output of a compiler. -/
def demangleTask (raw : String) : Task :=
  ⟨s.demangler.program, s.demangler.arguments, some (Text.bytes raw), s.demangler.timeout, none⟩

/-- The result that a stage has by itself: that of its compiler, with the output filtered if it is
to be. -/
def reference (k : Stage) : StageResult :=
  let command := Text.decodeText s.toolchain.compiler :: k.arguments r.options s.toolchain
  match f (compileTask s r k) with
  | .error e => ⟨k.label, command, e.outcome.sentinel?.getD (-1), e.message⟩
  | .ok o =>
    ⟨k.label, command, o.exitCode,
      if Demangler.isWanted k.mayMangle r.options.demangle o.combined then
        Demangler.keep o.combined (f (demangleTask s o.combined))
      else o.combined⟩

/-- What a stage may have come to: its own result, or a rejection once the gate is closed. -/
def IsResult (closed : Bool) (k : Stage) (result : StageResult) : Prop :=
  result = reference s f r k ∨ closed = true ∧ result = rejection s r k

/-- How a stage that is this far stands to its reference. -/
def Progress.Faithful (closed : Bool) (k : Stage) : Progress → Prop
  | .fresh => True
  | .waiting => True
  | .compiling run => ∀ e, run.ending = some e → e = f (compileTask s r k)
  | .demangling code raw run => ∃ o, f (compileTask s r k) = .ok o ∧ code = o.exitCode ∧
      raw = o.combined ∧ Demangler.isWanted k.mayMangle r.options.demangle raw = true ∧
      ∀ e, run.ending = some e → e = f (demangleTask s raw)
  | .done result => IsResult s f r closed k result

end Reference

/-- All stages stand to their references as they are to. -/
def State.Faithful (s : Settings) (f : Task → Ending) (σ : State) : Prop :=
  σ.EveryStage fun r _ k p => p.Faithful s f r σ.gate.closed k

/-- All responses have a result for each stage, in the order of the catalog. -/
def State.Answers (s : Settings) (f : Task → Ending) (σ : State) : Prop :=
  ∀ c ∈ σ.calls, ∀ response, c.phase = .returned (.ok response) → ∃ results : Stage → StageResult,
    response.entries = (Stage.all.map fun k => (k, results k)) ∧
      ∀ k, IsResult s f c.request σ.gate.closed k (results k)

variable {s : Settings} {f : Task → Ending} {runner : Runner} {first σ τ : State} {m : Move}
variable {r : Request} {k : Stage} {dir : Bytes}
variable {n : Nat} {c : Call} {w : Workspace} {progress : Stage → Progress}

/-! ## Tasks of the orchestrator -/

/-- The compiler of a stage finds the source of its request. -/
theorem taskOf_compilation {D : Place} {h : Host} (hd : Path.isAbsolute dir = true)
    (ht : h.tree.Proper) (hw : Workspace.Stands h.tree dir D w r.source) :
    taskOf (compilation s r k w) h = compileTask s r k := by
  have hread : h.read (Path.join w.path sourceName) = .ok (Text.bytes r.source) := hw.read hd ht
  unfold taskOf compilation compileTask
  simp only [Option.bind_some, hread]
  rfl

/-- The demangler finds no source. -/
theorem taskOf_demangler (raw : String) (h : Host) :
    taskOf (s.demangler.invocation raw) h = demangleTask s raw := rfl

/-! ## Runs that were launched -/

section Launched

variable {t : Ticket} {run : Run} {e : Ending} {p : Progress} {es : List Start}

/-- The compiler of a stage ends as the task of the stage says: its workspace stood when it was
launched, so what it found there is the source of its own request. -/
theorem eq_of_compiler (hfollows : Follows f runner)
    (hhoused : ∀ υ, Reachable s runner first υ → υ.Housed s dir)
    (h : Launched s runner first σ r w (compilerStart s r w t) run) (he : run.ending = some e) :
    e = f (compileTask s r t.stage) := by
  obtain ⟨υ, hυ⟩ := h
  obtain ⟨c, progress, hr, hreq⟩ := hυ.runs
  have hhome := hhoused υ hυ.reachable
  obtain ⟨D, hw⟩ := hhome.stands _ c w progress hr
  rw [hυ.launched] at he
  rw [hreq] at hw
  rw [hfollows _ _ e he, ← taskOf_compilation hhome.isAbsolute hhome.proper hw]
  rfl

/-- The demangler ends as the task of filtering says. -/
theorem eq_of_demangler (hfollows : Follows f runner) {raw : String}
    (h : Launched s runner first σ r w (demanglerStart s t raw) run) (he : run.ending = some e) :
    e = f (demangleTask s raw) := by
  obtain ⟨υ, hυ⟩ := h
  rw [hυ.launched] at he
  rw [hfollows _ _ e he, ← taskOf_demangler raw υ.host]
  rfl

/-- A stage that is done has its reference result if its compiler was started and ended as the task
of the stage says. -/
theorem Trail.eq_reference_of (hfollows : Follows f runner)
    (hcompiler : ∀ run e, Launched s runner first σ r w (compilerStart s r w t) run →
      run.ending = some e → e = f (compileTask s r t.stage)) {result : StageResult}
    (h : Trail s runner first σ r w t (.done result) es) (hmem : compilerStart s r w t ∈ es) :
    result = reference s f r t.stage := by
  cases h with
  | rejected _ => cases hmem
  | broken run failure hrun he =>
    unfold reference
    rw [← hcompiler run _ hrun he]
    rfl
  | plain run o hrun he hwanted =>
    unfold reference
    rw [← hcompiler run _ hrun he]
    dsimp only
    rw [hwanted]
    rfl
  | filtered run run' o e hrun he hwanted hrun' he' =>
    unfold reference
    rw [← hcompiler run _ hrun he]
    dsimp only
    rw [hwanted, ← eq_of_demangler hfollows hrun' he']
    rfl

/-- A stage that is done has its reference result if its compiler was started. -/
theorem Trail.eq_reference (hfollows : Follows f runner)
    (hhoused : ∀ υ, Reachable s runner first υ → υ.Housed s dir) {result : StageResult}
    (h : Trail s runner first σ r w t (.done result) es) (hmem : compilerStart s r w t ∈ es) :
    result = reference s f r t.stage :=
  h.eq_reference_of hfollows (fun _ _ hrun he => eq_of_compiler hfollows hhoused hrun he) hmem

/-- A stage that has left a trail stands to its reference as it is to. -/
theorem Trail.faithful (hfollows : Follows f runner)
    (hhoused : ∀ υ, Reachable s runner first υ → υ.Housed s dir)
    (h : Trail s runner first σ r w t p es) : p.Faithful s f r σ.gate.closed t.stage := by
  have htrail := h
  cases h with
  | fresh => trivial
  | waiting => trivial
  | rejected hclosed => exact .inr ⟨hclosed, rfl⟩
  | compiling run hrun => exact fun e he => eq_of_compiler hfollows hhoused hrun he
  | demangling run run' o hrun he hwanted hrun' =>
    refine ⟨o, (eq_of_compiler hfollows hhoused hrun he).symm, rfl, rfl, hwanted, ?_⟩
    exact fun e he => eq_of_demangler hfollows hrun' he
  | broken _ _ _ _ => exact .inl (htrail.eq_reference hfollows hhoused (by simp))
  | plain _ _ _ _ _ => exact .inl (htrail.eq_reference hfollows hhoused (by simp))
  | filtered _ _ _ _ _ _ _ _ _ => exact .inl (htrail.eq_reference hfollows hhoused (by simp))

end Launched

/-- **Results do not depend on the schedule.** In every state that moves lead to, each stage that is
done and each entry of a response is the reference result of its stage and request, or a rejection
by the closed gate. -/
theorem faithful_of_reachable {h : Host} (hstart : State.start? s h = some first)
    (ht : h.tree.Proper) (hspares : SparesWorkspaces s.scratchRoot runner)
    (hfollows : Follows f runner) (hσ : Reachable s runner first σ) :
    σ.Faithful s f ∧ σ.Answers s f := by
  have htrailed := trailed_of_reachable hstart hσ
  have hhoused : ∀ υ, Reachable s runner first υ → υ.Housed s (scratchDirectory h s.scratchRoot) :=
    fun υ hυ => housed_of_reachable hstart ht hspares hυ
  constructor
  · intro n c w progress hr k
    have hphase := htrailed.calls n c hr.call
    rw [hr.phase] at hphase
    exact (hphase.trail k).faithful hfollows hhoused
  · intro c hc response hresponse
    obtain ⟨n, hn⟩ := List.getElem?_of_mem hc
    have hphase := htrailed.calls n c hn
    rw [hresponse] at hphase
    obtain ⟨w, results, hentries, htrails⟩ := hphase
    exact ⟨results, hentries, fun k => (htrails.trail k).faithful hfollows hhoused⟩

end StageLens.Orchestrator
