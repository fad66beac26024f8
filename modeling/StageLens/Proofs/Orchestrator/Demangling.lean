import StageLens.Proofs.Orchestrator.Invocations

/-!
# What the demangler may change

The same request is made twice, without the demangler and with it, in two sessions that have nothing
in common but the settings and a runner whose runs end as their tasks say. The second response is
the first one, stage by stage, but for the text of those stages whose demangler could be used; the
compilers are the same, and the demangler runs for no stage that the first response shows to be none
of its affairs. Schedules do not matter, nor do the other calls.
-/

namespace StageLens.Orchestrator

open StageLens.Workspace (scratchDirectory)

/-- The request without the demangler. -/
abbrev plainly (source : String) (o : Options) : Request := ⟨source, { o with demangle := false }⟩

/-- The request with the demangler. -/
abbrev demangled (source : String) (o : Options) : Request := ⟨source, { o with demangle := true }⟩

section Toggled

variable (s : Settings) (runner : Runner)

/-- A stage whose output is not to be filtered: it shows no mangled names, its compiler gave no exit
status, or it is blank. -/
def Unfiltered (first σ : State) (r : Request) (w : Workspace) (t : Ticket) (output : String) :
    Prop :=
  t.stage.mayMangle = false ∨
    (∃ e, EndedWith s runner first σ r w (compilerStart s r w t) (.error e)) ∨
    Text.isBlankText output = true

/-- What asking for the demangler makes of the result of a stage. -/
structure StageToggled (firstA σA : State) (rA : Request) (wA : Workspace) (tA : Ticket)
    (a : StageResult) (firstB σB : State) (rB : Request) (wB : Workspace) (tB : Ticket)
    (b : StageResult) : Prop where
  label : b.label = a.label
  command : b.command = a.command
  exitCode : b.exitCode = a.exitCode
  kept : Unfiltered s runner firstA σA rA wA tA a.output →
    b = a ∧ σB.invocationsOf tB .demangle = []
  filtered : ¬ Unfiltered s runner firstA σA rA wA tA a.output →
    σB.invocationsOf tB .demangle = [s.demangler.invocation a.output] ∧
      ∃ e, EndedWith s runner firstB σB rB wB (demanglerStart s tB a.output) e ∧
        b = { a with output := (Demangler.usable? e).getD a.output }

/-- What asking for the demangler makes of the response of a call. -/
structure Toggled (source : String) (o : Options) (firstA σA : State) (nA : Nat) (a : Response)
    (firstB σB : State) (nB : Nat) (b : Response) : Prop where
  stages : ∃ (wA wB : Workspace) (x y : Stage → StageResult),
    a.entries = (Stage.all.map fun k => (k, x k)) ∧
    b.entries = (Stage.all.map fun k => (k, y k)) ∧
    ∀ k, StageToggled s runner firstA σA (plainly source o) wA ⟨nA, k⟩ (x k)
      firstB σB (demangled source o) wB ⟨nB, k⟩ (y k)
  /-- The compilers are the same but for the directories. -/
  compilers : ((σA.invocations nA .compile).map anywhere).Perm
    ((σB.invocations nB .compile).map anywhere)
  /-- Without the demangler it does not run. -/
  unasked : σA.invocations nA .demangle = []

end Toggled

/-- Runs do not depend on the source in their directory. -/
def IgnoresSources (f : Task → Ending) : Prop := ∀ task source, f { task with source } = f task

variable {s : Settings} {f : Task → Ending} {runner : Runner} {first firstA firstB σ σA σB : State}
variable {source : String} {o : Options} {r : Request} {w wA wB : Workspace} {n nA nB : Nat}
variable {k : Stage} {t : Ticket} {a b : StageResult} {ending : Ending}

/-! ## One stage of both calls -/

/-- How a compiler ends is told by its stage and its request, where the source stays what it is or
is not looked at. -/
theorem EndedWith.eq_compileTask (hfollows : Follows f runner)
    (hsources : SparesSources s.scratchRoot runner ∨ IgnoresSources f)
    (hstart : State.start? s first.host = some first) (ht : first.host.tree.Proper)
    (h : EndedWith s runner first σ r w (compilerStart s r w t) ending) :
    ending = f (compileTask s r t.stage) := by
  obtain ⟨run, hrun, he⟩ := h
  rcases hsources with hspares | hignores
  · have hhoused : ∀ υ, Reachable s runner first υ →
        υ.Housed s (scratchDirectory first.host s.scratchRoot) :=
      fun υ hυ => housed_of_sparesSources hstart ht hspares hυ
    exact eq_of_compiler hfollows hhoused hrun he
  · obtain ⟨υ, hυ⟩ := hrun
    rw [hυ.launched] at he
    rw [hfollows _ _ _ he]
    exact (hignores (taskOf (compilation s r t.stage w) υ.host) (some (Text.bytes r.source))).symm

/-- Without the demangler a stage shows how its compiler ended. -/
theorem Trail.of_plainly (hopen : σ.gate.closed = false)
    (h : Trail s runner first σ (plainly source o) w t (.done a) (σ.startsOf t)) :
    σ.invocationsOf t .demangle = [] ∧
    ((∃ e, EndedWith s runner first σ (plainly source o) w
        (compilerStart s (plainly source o) w t) (.error e) ∧
        a = breakdown s (plainly source o) t.stage e) ∨
      ∃ out, EndedWith s runner first σ (plainly source o) w
        (compilerStart s (plainly source o) w t) (.ok out) ∧
        a = completion s (plainly source o) t.stage out.exitCode out.combined) := by
  unfold State.invocationsOf
  generalize σ.startsOf t = es at h
  cases h with
  | rejected hclosed =>
    rw [hopen] at hclosed
    cases hclosed
  | broken run e hrun he => exact ⟨rfl, .inl ⟨e, ⟨run, hrun, he⟩, rfl⟩⟩
  | plain run out hrun he _ => exact ⟨rfl, .inr ⟨out, ⟨run, hrun, he⟩, rfl⟩⟩
  | filtered run run' out e _ _ hwanted _ _ => simp [Demangler.isWanted] at hwanted

/-- With the demangler a stage shows how its compiler ended, or what became of its output. -/
theorem Trail.of_demangled (hopen : σ.gate.closed = false)
    (h : Trail s runner first σ (demangled source o) w t (.done b) (σ.startsOf t)) :
    (σ.invocationsOf t .demangle = [] ∧
      ∃ e, EndedWith s runner first σ (demangled source o) w
        (compilerStart s (demangled source o) w t) (.error e) ∧
        b = breakdown s (demangled source o) t.stage e) ∨
    ∃ out, EndedWith s runner first σ (demangled source o) w
      (compilerStart s (demangled source o) w t) (.ok out) ∧
      ((σ.invocationsOf t .demangle = [] ∧
          (t.stage.mayMangle = false ∨ Text.isBlankText out.combined = true) ∧
          b = completion s (demangled source o) t.stage out.exitCode out.combined) ∨
        (σ.invocationsOf t .demangle = [s.demangler.invocation out.combined] ∧
          t.stage.mayMangle = true ∧ Text.isBlankText out.combined = false ∧
          ∃ e, EndedWith s runner first σ (demangled source o) w
            (demanglerStart s t out.combined) e ∧
            b = completion s (demangled source o) t.stage out.exitCode
              (Demangler.keep out.combined e))) := by
  unfold State.invocationsOf
  generalize σ.startsOf t = es at h
  cases h with
  | rejected hclosed =>
    rw [hopen] at hclosed
    cases hclosed
  | broken run e hrun he => exact .inl ⟨rfl, e, ⟨run, hrun, he⟩, rfl⟩
  | plain run out hrun he hwanted =>
    refine .inr ⟨out, ⟨run, hrun, he⟩, .inl ⟨rfl, ?_, rfl⟩⟩
    cases hmangle : t.stage.mayMangle with
    | false => exact .inl rfl
    | true => exact .inr (by simpa [Demangler.isWanted, hmangle] using hwanted)
  | filtered run run' out e hrun he hwanted hrun' he' =>
    have hwanted' : t.stage.mayMangle = true ∧ Text.isBlankText out.combined = false := by
      simpa [Demangler.isWanted] using hwanted
    exact .inr ⟨out, ⟨run, hrun, he⟩,
      .inr ⟨rfl, hwanted'.1, hwanted'.2, e, ⟨run', hrun', he'⟩, rfl⟩⟩

/-- Where both compilers of a stage have ended in the same way, the results differ in no more than
what the demangler made of the output. -/
theorem toggled_of_trails (hopenA : σA.gate.closed = false) (hopenB : σB.gate.closed = false)
    (hends : ∀ x y, EndedWith s runner firstA σA (plainly source o) wA
        (compilerStart s (plainly source o) wA ⟨nA, k⟩) x →
      EndedWith s runner firstB σB (demangled source o) wB
        (compilerStart s (demangled source o) wB ⟨nB, k⟩) y → x = y)
    (hA : Trail s runner firstA σA (plainly source o) wA ⟨nA, k⟩ (.done a) (σA.startsOf ⟨nA, k⟩))
    (hB : Trail s runner firstB σB (demangled source o) wB ⟨nB, k⟩ (.done b)
      (σB.startsOf ⟨nB, k⟩)) :
    StageToggled s runner firstA σA (plainly source o) wA ⟨nA, k⟩ a
      firstB σB (demangled source o) wB ⟨nB, k⟩ b := by
  rcases (hA.of_plainly hopenA).2 with ⟨e, hend, rfl⟩ | ⟨out, hend, rfl⟩
  · rcases hB.of_demangled hopenB with ⟨hnone, e', hend', rfl⟩ | ⟨out', hend', -⟩
    · obtain rfl : e = e' := Except.error.inj (hends _ _ hend hend')
      refine ⟨rfl, rfl, rfl, fun _ => ⟨rfl, hnone⟩, fun hfilter => ?_⟩
      exact absurd (.inr (.inl ⟨e, hend⟩)) hfilter
    · cases hends _ _ hend hend'
  · rcases hB.of_demangled hopenB with ⟨-, e', hend', -⟩ | ⟨out', hend', hcases⟩
    · cases hends _ _ hend hend'
    obtain rfl : out = out' := Except.ok.inj (hends _ _ hend hend')
    rcases hcases with ⟨hnone, hunfit, rfl⟩ | ⟨hone, hmangle, hblank, e, hend'', rfl⟩
    · refine ⟨rfl, rfl, rfl, fun _ => ⟨rfl, hnone⟩, fun hfilter => ?_⟩
      exact absurd (hunfit.imp_right .inr) hfilter
    · refine ⟨rfl, rfl, rfl, fun hkept => ?_, fun _ => ⟨hone, e, hend'', rfl⟩⟩
      rcases hkept with hplain | ⟨e', herror⟩ | hempty
      · rw [hmangle] at hplain
        cases hplain
      · cases hends _ _ herror hend'
      · have hempty' : Text.isBlankText out.combined = true := hempty
        rw [hblank] at hempty'
        cases hempty'

/-! ## Both calls -/

/-- Without the demangler a call does not run it. -/
theorem Trails.unasked {results : Stage → StageResult} (hopen : σ.gate.closed = false)
    (h : Trails s runner first σ (plainly source o) w n fun k => .done (results k)) :
    σ.invocations n .demangle = [] := by
  have hnone : (Stage.all.flatMap fun k => σ.invocationsOf ⟨n, k⟩ .demangle) = [] := by
    rw [List.flatMap_eq_nil_iff]
    exact fun k _ => ((h.trail k).of_plainly hopen).1
  have hperm := invocations_perm σ n .demangle
  rw [hnone] at hperm
  exact hperm.eq_nil

/-- **The demangler changes the text of its own stages and nothing else.** The same request is made
without the demangler and with it, in sessions with open gates and with runs that end as their tasks
say, which leave the sources alone or do not look at them. Whatever the orders of the moves are, and
whatever the other calls do,

* both responses have the stages of the catalog in its order, with the same labels, commands and
  exit codes, and the compilers that ran are the same but for their directories;
* a stage that shows no mangled names, whose compiler gave no exit status or whose output is blank
  has the same result in both, and the demangler does not run for it;
* for any other stage the demangler runs once, on the output without it, and its text is taken if it
  can be used, or else that output stays.

Where all runs end and a permit is left, calls return in every fair run. -/
theorem demangling_is_confined (hfollows : Follows f runner)
    (hsources : SparesSources s.scratchRoot runner ∨ IgnoresSources f)
    (hA : Session s runner firstA σA) (htA : firstA.host.tree.Proper)
    (hB : Session s runner firstB σB) (htB : firstB.host.tree.Proper)
    (source : String) (o : Options) :
    (∀ nA nB a b, σA.answer? nA = some (plainly source o, a) →
      σB.answer? nB = some (demangled source o, b) →
      Toggled s runner source o firstA σA nA a firstB σB nB b) ∧
    ((∀ i h, (runner i h).ending.isSome = true) → ∀ first σ, Session s runner first σ →
      σ.held < s.capacity → σ.Completes s runner) := by
  constructor
  · intro nA nB a b ha hb
    obtain ⟨wA, x, hentriesA, htrailsA⟩ := hA.trails ha
    obtain ⟨wB, y, hentriesB, htrailsB⟩ := hB.trails hb
    refine ⟨⟨wA, wB, x, y, hentriesA, hentriesB, fun k => ?_⟩, ?_, ?_⟩
    · refine toggled_of_trails hA.isOpen hB.isOpen (fun e e' he he' => ?_) (htrailsA.trail k)
        (htrailsB.trail k)
      -- The task of a compiler does not know of the demangler.
      have hsame : compileTask s (demangled source o) k = compileTask s (plainly source o) k := rfl
      rw [he.eq_compileTask hfollows hsources hA.start htA,
        he'.eq_compileTask hfollows hsources hB.start htB]
      exact congrArg f hsame.symm
    · have hpermA := (htrailsA.compilers_perm hA.isOpen).map anywhere
      have hpermB := (htrailsB.compilers_perm hB.isOpen).map anywhere
      rw [List.map_map] at hpermA hpermB
      exact hpermA.trans hpermB.symm
    · exact htrailsA.unasked hA.isOpen
  · intro hends first σ h hheld
    exact completes_of_runsEnd h.start h.reachable hheld hends

/-! ## Two calls in turns -/

/-- Tools of which the compiler shows no tree and an empty line for assembly, and the demangler
cannot be used for intermediate code. -/
def patchy (t : Task) : Ending :=
  if t.input = some (Text.bytes "$sI") then .ok { exitCode := 1, stderr := "?" }
  else if t.input.isSome then .ok { stdout := "main" }
  else if t.arguments.contains "-dump-ast" then .error (.timedOut t.program t.timeout)
  else if t.arguments.contains "-emit-assembly" then .ok { stdout := "\n" }
  else if t.arguments.contains "-emit-ir" then .ok { exitCode := 1, stderr := "$sI" }
  else .ok { stdout := "$s" }

/-- Two calls that take turns at one permit, the second one with the demangler. -/
def inTurns : List Move :=
  [.submit ⟨"x", {}⟩, .submit ⟨"x", { demangle := true }⟩] ++
  (Stage.all.flatMap fun k =>
    [.ask ⟨1, k⟩, .ask ⟨0, k⟩, .finish ⟨1, k⟩, .ask ⟨0, k⟩, .finish ⟨0, k⟩]) ++
  [.finish ⟨1, .ir⟩, .finish ⟨1, .silRaw⟩, .finish ⟨1, .silCanonical⟩, .collect 0, .collect 1]

/-- The outputs of a response. -/
def outputs (response : Response) : List String := response.entries.map (·.2.output)

/-- Two calls of one session: the demangler can be used for two stages, and for a third it fails. -/
theorem demangling_is_confined_patchy :
    ∃ first σ a b, State.start? .narrow bareHost = some first ∧
      run? .narrow (prompt patchy) first inTurns = some σ ∧ σ.gate.closed = false ∧
      σ.answer? 0 = some (plainly "x" {}, a) ∧ σ.answer? 1 = some (demangled "x" {}, b) ∧
      outputs a = ["$s", "$s", "'swiftc' timed out after 1s and was terminated", "$s", "$sI",
        "\n"] ∧
      outputs b = ["main", "main", "'swiftc' timed out after 1s and was terminated", "$s", "$sI",
        "\n"] ∧
      (∀ nA nB a b, σ.answer? nA = some (plainly "x" {}, a) →
        σ.answer? nB = some (demangled "x" {}, b) →
        Toggled .narrow (prompt patchy) "x" {} first σ nA a first σ nB b) ∧
      ((∀ i h, (prompt patchy i h).ending.isSome = true) → ∀ first σ,
        Session .narrow (prompt patchy) first σ → σ.held < Settings.narrow.capacity →
        σ.Completes .narrow (prompt patchy)) := by
  have hview : ((State.start? .narrow bareHost).bind fun first =>
      run? .narrow (prompt patchy) first inTurns).map (fun σ => (σ.gate.closed,
        (σ.answer? 0).map (fun x => (x.1, outputs x.2)),
        (σ.answer? 1).map (fun x => (x.1, outputs x.2)))) = some (false,
      some (plainly "x" {}, ["$s", "$s", "'swiftc' timed out after 1s and was terminated", "$s",
        "$sI", "\n"]),
      some (demangled "x" {}, ["main", "main", "'swiftc' timed out after 1s and was terminated",
        "$s", "$sI", "\n"])) := by
    decide +kernel
  obtain ⟨σ, hσ, hview⟩ := Option.map_eq_some_iff.mp hview
  obtain ⟨first, hstart, hrun⟩ := Option.bind_eq_some_iff.mp hσ
  simp only [Prod.mk.injEq, Option.map_eq_some_iff] at hview
  obtain ⟨hopen, ⟨⟨rA, a⟩, ha, rfl, hA⟩, ⟨rB, b⟩, hb, rfl, hB⟩ := hview
  have hsession := session_of_run? hstart hrun hopen
  have ht : first.host.tree.Proper := by
    rw [host_of_start hstart]
    exact Tree.proper_empty.put (p := []) rfl rfl
  have hspares : SparesSources Settings.narrow.scratchRoot (prompt patchy) :=
    (sparesWorkspaces_of_host_eq fun _ _ => rfl).sparesSources
  exact ⟨first, σ, a, b, hstart, hrun, hopen, ha, hb, hA, hB,
    demangling_is_confined (fun _ _ _ he => (Option.some.inj he).symm) (.inl hspares) hsession ht
      hsession ht "x" {}⟩

end StageLens.Orchestrator
