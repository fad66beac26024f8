import StageLens.Proofs.Orchestrator.Exclusivity
import StageLens.Proofs.Process.Output

/-!
# How long the output of a stage gets

A runner that cuts what it reads bounds every text that a stage shows, over both of its runs: the
text of the compiler is its two streams with a line break and the marker at most, and the text of
the demangler takes its place only if it was not cut itself. Each result is traced back to the runs
it came from by the trail of its stage.
-/

namespace StageLens.Orchestrator

open StageLens.Output (EndsMarked truncationMarker)

section Definitions

variable (s : Settings) (runner : Runner) (first σ : State) (r : Request) (w : Workspace)
  (t : Ticket)

/-- A text is what the demangler of a stage made of the output of its compiler. -/
def Filtered (o : Output) (text : String) : Prop :=
  ∃ e, EndedWith s runner first σ r w (demanglerStart s t o.combined) e ∧
    Demangler.usable? e = some text

/-- A stage shows the output of a compiler that exited, in a text of bounded length. -/
structure ShowsOutput (limit : Nat) (o : Output) (result : StageResult) : Prop where
  exited : EndedWith s runner first σ r w (compilerStart s r w t) (.ok o)
  code : result.exitCode = o.exitCode
  source : result.output = o.combined ∨ Filtered s runner first σ r w t o result.output
  size : result.output.utf8ByteSize ≤ limit + 2 + truncationMarker.utf8ByteSize
  whole : o.truncated = false → result.output.utf8ByteSize ≤ limit + 1
  marked : o.truncated = true → result.output = o.combined → EndsMarked result.output

end Definitions

variable {s : Settings} {runner : Runner} {first σ : State} {r : Request} {w : Workspace}
variable {c : Call} {t : Ticket} {limit : Nat} {o : Output} {result : StageResult} {text : String}

/-! ## The two texts of a stage -/

/-- What a run printed on both streams fits into the budget. -/
theorem size_of_endedWith (hcaptures : runner.Captures limit) {e : Start}
    (h : EndedWith s runner first σ r w e (.ok o)) :
    o.stdout.utf8ByteSize + o.stderr.utf8ByteSize ≤ limit := by
  obtain ⟨run, ⟨υ, hυ⟩, hend⟩ := h
  rw [hυ.launched] at hend
  obtain ⟨out, err, ho⟩ := hcaptures _ _ _ hend
  rw [ho]
  exact Output.size_capture_le _ _ _ _

/-- The demangler prints no more than the budget, however long its input is. -/
theorem Filtered.size_le (hcaptures : runner.Captures limit)
    (h : Filtered s runner first σ r w t o text) : text.utf8ByteSize ≤ limit := by
  obtain ⟨e, hend, husable⟩ := h
  cases e with
  | error f => cases husable
  | ok o' =>
    have hsize := size_of_endedWith hcaptures hend
    have htext : o'.stdout = text := by
      simpa using (Option.ite_none_right_eq_some.mp husable).2
    rw [← htext]
    omega

theorem ShowsOutput.of_combined (hcaptures : runner.Captures limit)
    (hexited : EndedWith s runner first σ r w (compilerStart s r w t) (.ok o)) :
    ShowsOutput s runner first σ r w t limit o
      (completion s r t.stage o.exitCode o.combined) := by
  have hsize := size_of_endedWith hcaptures hexited
  refine ⟨hexited, rfl, .inl rfl, ?_, fun hwhole => ?_, fun hcut _ => ?_⟩
  · have hcombined := Output.size_combined_le o
    show o.combined.utf8ByteSize ≤ _
    omega
  · have hcombined := Output.size_combined_of_whole hwhole
    show o.combined.utf8ByteSize ≤ _
    omega
  · exact Output.endsMarked_combined hcut

theorem ShowsOutput.of_filtered (hcaptures : runner.Captures limit)
    (hexited : EndedWith s runner first σ r w (compilerStart s r w t) (.ok o))
    (h : Filtered s runner first σ r w t o text) :
    ShowsOutput s runner first σ r w t limit o (completion s r t.stage o.exitCode text) := by
  have hsize : (completion s r t.stage o.exitCode text).output.utf8ByteSize ≤ limit :=
    h.size_le hcaptures
  refine ⟨hexited, rfl, .inr h, by omega, fun _ => by omega, fun hcut hkept => ?_⟩
  rw [hkept]
  exact Output.endsMarked_combined hcut

/-- A stage shows that it was turned away, how its compiler broke down, or what it printed. -/
theorem Trail.showsOutput (hcaptures : runner.Captures limit) {es : List Start}
    (h : Trail s runner first σ r w t (.done result) es) :
    (es = [] ∧ result = rejection s r t.stage) ∨
    (∃ f, EndedWith s runner first σ r w (compilerStart s r w t) (.error f) ∧
      result = breakdown s r t.stage f) ∨
    ∃ o, ShowsOutput s runner first σ r w t limit o result := by
  cases h with
  | rejected _ => exact .inl ⟨rfl, rfl⟩
  | broken run f hrun hend => exact .inr (.inl ⟨f, ⟨run, hrun, hend⟩, rfl⟩)
  | plain run o hrun hend _ => exact .inr (.inr ⟨o, .of_combined hcaptures ⟨run, hrun, hend⟩⟩)
  | filtered run run' o e hrun hend _ hrun' hend' =>
    have hexited : EndedWith s runner first σ r w (compilerStart s r w t) (.ok o) :=
      ⟨run, hrun, hend⟩
    refine .inr (.inr ⟨o, ?_⟩)
    unfold Demangler.keep
    cases husable : Demangler.usable? e with
    | none => exact .of_combined hcaptures hexited
    | some text => exact .of_filtered hcaptures hexited ⟨e, ⟨run', hrun', hend'⟩, husable⟩

/-- **The output of a stage is bounded.** The runner that launches processes with a budget of
`limit` bytes, and any other one that reads and cuts output as it does, bounds what each stage of
each call shows, whatever bytes the compiler and the demangler print, and whatever moves have been
made. A stage that has a result was turned away at the closed gate, or its compiler broke down, or
it exited, and then

* the stage shows what the compiler printed or what the demangler made of it;
* the text is at most two line breaks and the marker longer than the budget, and at most one line
  break if the output of the compiler was not cut;
* if that was cut and is shown as it is, the marker is the last line. -/
theorem stage_outputs_are_bounded (limit : Nat) :
    (Runner.launching limit).Captures limit ∧
    ∀ (s : Settings) (runner : Runner) (h : Host) (first σ : State) (t : Ticket) (c : Call)
      (result : StageResult),
      runner.Captures limit → State.start? s h = some first → Reachable s runner first σ →
      σ.calls[t.call]? = some c → σ.result? t = some result →
      ∃ w, (σ.startsOf t = [] ∧ result = rejection s c.request t.stage) ∨
        (∃ f, EndedWith s runner first σ c.request w (compilerStart s c.request w t) (.error f) ∧
          result = breakdown s c.request t.stage f) ∨
        ∃ o, ShowsOutput s runner first σ c.request w t limit o result := by
  refine ⟨Runner.captures_launching limit, ?_⟩
  intro s runner h first σ t c result hcaptures hstart hσ hc hresult
  obtain ⟨w, htrail⟩ := (trailed_of_reachable hstart hσ).of_result hc hresult
  exact ⟨w, htrail.showsOutput hcaptures⟩

/-! ## Tools that print too much -/

/-- What tools print on their two streams, if they do not run out of time: the compiler prints what
is no text for the tree and too much for assembly, and the demangler prints too much for
intermediate code. -/
def wordyStreams (t : Task) : Option (Bytes × Bytes) :=
  if t.input = some (Text.bytes "ab\ncd") then some (Text.bytes "a b c", [])
  else if t.input.isSome then some (Text.bytes "ok", [])
  else if t.arguments.contains "-dump-ast" then some ([0xFF, 0xFF], Text.bytes "e")
  else if t.arguments.contains "-emit-ir" then some (Text.bytes "ab", Text.bytes "cd")
  else if t.arguments.contains "-emit-assembly" then some (Text.bytes "abcde", [])
  else none

/-- Such tools under a budget of four bytes. -/
def wordy (t : Task) : Ending :=
  match wordyStreams t with
  | some (out, err) => .ok (Output.capture 0 (Output.bounded 4 out) (Output.bounded 4 err) 4)
  | none => .error (.timedOut t.program t.timeout)

theorem captures_wordy : (prompt wordy).Captures 4 := by
  intro i h o ho
  have hwordy : wordy (taskOf i h) = .ok o := Option.some.inj ho
  unfold wordy at hwordy
  split at hwordy
  · cases hwordy
    exact ⟨_, _, rfl⟩
  · cases hwordy

/-- Three stages of a call: the tree is cut and takes all the room there can be, intermediate code
fills the budget and stays because its demangler prints too much, and assembly that was cut is
replaced. -/
theorem stage_outputs_are_bounded_four :
    ∃ first σ c tree ir assembly, State.start? .narrow bareHost = some first ∧
      run? .narrow (prompt wordy) first
        [.submit ⟨"x", { demangle := true }⟩, .ask ⟨0, .ast⟩, .finish ⟨0, .ast⟩, .ask ⟨0, .ir⟩,
          .finish ⟨0, .ir⟩, .finish ⟨0, .ir⟩, .ask ⟨0, .assembly⟩, .finish ⟨0, .assembly⟩,
          .finish ⟨0, .assembly⟩] = some σ ∧
      σ.calls[0]? = some c ∧
      σ.result? ⟨0, .ast⟩ = some tree ∧ σ.result? ⟨0, .ir⟩ = some ir ∧
      σ.result? ⟨0, .assembly⟩ = some assembly ∧
      tree.output = "\uFFFD\ne\n[output truncated]" ∧ ir.output = "ab\ncd" ∧
      assembly.output = "ok" ∧
      ∃ w, (σ.startsOf ⟨0, .ast⟩ = [] ∧ tree = rejection .narrow c.request .ast) ∨
        (∃ f, EndedWith .narrow (prompt wordy) first σ c.request w
          (compilerStart .narrow c.request w ⟨0, .ast⟩) (.error f) ∧
          tree = breakdown .narrow c.request .ast f) ∨
        ∃ o, ShowsOutput .narrow (prompt wordy) first σ c.request w ⟨0, .ast⟩ 4 o tree := by
  have hview : ((State.start? .narrow bareHost).bind fun first =>
      run? .narrow (prompt wordy) first
        [.submit ⟨"x", { demangle := true }⟩, .ask ⟨0, .ast⟩, .finish ⟨0, .ast⟩, .ask ⟨0, .ir⟩,
          .finish ⟨0, .ir⟩, .finish ⟨0, .ir⟩, .ask ⟨0, .assembly⟩, .finish ⟨0, .assembly⟩,
          .finish ⟨0, .assembly⟩]).map (fun σ => (σ.calls[0]?.isSome,
        (σ.result? ⟨0, .ast⟩).map (·.output), (σ.result? ⟨0, .ir⟩).map (·.output),
        (σ.result? ⟨0, .assembly⟩).map (·.output))) =
      some (true, some "\uFFFD\ne\n[output truncated]", some "ab\ncd", some "ok") := by
    decide +kernel
  obtain ⟨σ, hσ, hview⟩ := Option.map_eq_some_iff.mp hview
  obtain ⟨first, hstart, hrun⟩ := Option.bind_eq_some_iff.mp hσ
  simp only [Prod.mk.injEq, Option.map_eq_some_iff, Option.isSome_iff_exists] at hview
  obtain ⟨⟨c, hc⟩, ⟨tree, htree, htext⟩, ⟨ir, hir, hirtext⟩, assembly, hassembly, hok⟩ := hview
  exact ⟨first, σ, c, tree, ir, assembly, hstart, hrun, hc, htree, hir, hassembly, htext, hirtext,
    hok, (stage_outputs_are_bounded 4).2 .narrow (prompt wordy) bareHost first σ ⟨0, .ast⟩ c tree
      captures_wordy hstart (reachable_iff_run?.mpr ⟨_, hrun⟩) hc htree⟩

end StageLens.Orchestrator
