import StageLens.CommandLine.Basic
import StageLens.Proofs.Orchestrator.Clock
import StageLens.Proofs.Orchestrator.Independence
import StageLens.Proofs.Orchestrator.Invocations
import StageLens.Proofs.Stage.Response
import StageLens.Proofs.Wire.Response

/-!
# What the command line displays

A response that a call returns has the results of all stages in their order
(`Returns.exists_results`), and a filter keeps those that were asked for (`entries_select`). What is
displayed, and the exit code, are made of these entries, so that no other stage has a part in them.
-/

namespace StageLens

namespace Orchestrator

/-- A response that a call returns, under some settings, on some host, whatever the runner does and
in whichever order the moves come. -/
def Returns (m : Response) : Prop :=
  ∃ (s : Settings) (runner : Runner) (h : Host) (first σ : State) (n : Nat) (r : Request),
    State.start? s h = some first ∧ Reachable s runner first σ ∧ σ.answer? n = some (r, m)

theorem Returns.exists_results {m : Response} (hm : Returns m) :
    ∃ results : Stage → StageResult, m.entries = Stage.all.map fun k => (k, results k) := by
  obtain ⟨s, runner, h, first, σ, n, r, hstart, hσ, ha⟩ := hm
  obtain ⟨w, results, hentries, -⟩ :=
    (trailed_of_reachable hstart hσ).calls n _ (answer?_eq_some_iff.mp ha)
  exact ⟨results, hentries⟩

end Orchestrator

namespace CommandLine

open Orchestrator (Returns Settings Schedule State)

/-! ## Stages that are asked for -/

/-- Whether a filter asks for a stage; without a filter all stages are asked for. -/
def Requested (stages : List Stage) (s : Stage) : Prop := stages = [] ∨ s ∈ stages

instance (stages : List Stage) : DecidablePred (Requested stages) :=
  fun s => inferInstanceAs (Decidable (stages = [] ∨ s ∈ stages))

/-- The words that ask for these stages of what comes on standard input. -/
def filterWords (stages : List Stage) : List Octets :=
  Octets.ofText "compile" ::
    stages.flatMap fun s => [Octets.ofText "--stage", Octets.ofText s.key]

/-- How a response is displayed under a filter. -/
structure Displays (stages : List Stage) (m displayed : Response) : Prop where
  /-- Each stage that is asked for stands once, in the order of all stages. -/
  keys : displayed.keys = Stage.all.filter fun s => Requested stages s
  /-- Its result is the one in the full response. -/
  results : ∀ s r, (s, r) ∈ displayed.entries ↔ Requested stages s ∧ m.get? s = some r
  nonempty : displayed.isEmpty = false

/-- An outcome that tells of a displayed response. -/
structure Tells (f : Format) (displayed : Response) (o : Outcome) : Prop where
  output : render f displayed = .ok o.output
  success : o.exitCode = 0 ↔ ∀ s r, (s, r) ∈ displayed.entries → r.exitCode = 0
  failure : o.exitCode ≠ 0 → o.exitCode = 1

variable {stages : List Stage} {m m' : Response} {results results' : Stage → StageResult}
variable {f : Format}

/-! ## Filters on the command line -/

theorem stage?_key (s : Stage) : Key.stage? (Octets.ofText s.key) = some s := by
  cases s <;> decide +kernel

theorem isValue_key (s : Stage) : Given.isValue (Octets.ofText s.key) = true := by
  cases s <;> decide +kernel

theorem takeDashed?_stage (g : Given) :
    g.takeDashed? (some .compile) (Octets.ofText "--stage") = some (.ok (g, some .stage)) := by
  have hword : Octets.ofText "--stage" = '-' :: '-' :: "stage".toList := by decide +kernel
  have hname : "stage".toList.takeWhile (· ≠ '=') = "stage".toList := by decide +kernel
  have hfind : (Key.allowed (some .compile)).find? (·.long.toList == "stage".toList) =
      some .stage := by
    decide +kernel
  rw [hword]
  show some (g.takeLong (some .compile) "stage".toList) = _
  unfold Given.takeLong
  dsimp only
  rw [hname, hfind, List.drop_length]
  rfl

theorem takeOption_stage (g : Given) (s : Stage) :
    g.takeOption (some .compile) .stage (Octets.ofText s.key) =
      .ok { g with options := g.options ++ [(.stage, Octets.ofText s.key)] } := by
  have haccepts : Key.stage.accepts (Octets.ofText s.key) = true := by
    unfold Key.accepts
    rw [stage?_key]
    rfl
  unfold Given.takeOption
  rw [haccepts]
  rfl

/-- What has been given when these stages have been asked for. -/
def Given.asking (g : Given) (stages : List Stage) : Given :=
  { g with options := g.options ++ stages.map fun s => (.stage, Octets.ofText s.key) }

/-- Each stage that is named is taken as one more value of the option. -/
theorem read_filter (g : Given) (stages : List Stage) : g.read (some .compile) none
    (stages.flatMap fun s => [Octets.ofText "--stage", Octets.ofText s.key]) =
    .ok (g.asking stages, none) := by
  induction stages generalizing g with
  | nil =>
    unfold Given.asking
    rw [List.map_nil, List.append_nil]
    rfl
  | cons s stages ih =>
    have hword : Octets.ofText "--stage" ≠ ['-', '-'] := by decide +kernel
    rw [List.flatMap_cons, List.cons_append, List.cons_append, List.nil_append, Given.read,
      if_neg hword, takeDashed?_stage]
    dsimp only
    -- The option waits for its value, and the next word can be one.
    rw [Given.read, if_pos (isValue_key s), takeOption_stage]
    dsimp only
    rw [ih]
    unfold Given.asking
    rw [List.map_cons, List.append_assoc, List.singleton_append]

theorem has_asking {k : Key} (hk : k ≠ .stage) (stages : List Stage) :
    (({} : Given).asking stages).has k = false := by
  unfold Given.has Given.asking
  rw [List.any_eq_false]
  intro e he
  obtain ⟨s, -, rfl⟩ := List.mem_map.mp he
  simpa using hk.symm

theorem values_asking_of_ne {k : Key} (hk : k ≠ .stage) (stages : List Stage) :
    (({} : Given).asking stages).values k = [] := by
  unfold Given.values Given.asking
  rw [List.filterMap_eq_nil_iff]
  intro e he
  obtain ⟨s, -, rfl⟩ := List.mem_map.mp he
  exact if_neg hk.symm

theorem values_asking (stages : List Stage) :
    (({} : Given).asking stages).values .stage = stages.map fun s => Octets.ofText s.key := by
  show (stages.map _).filterMap _ = _
  rw [List.filterMap_map]
  exact congrFun List.filterMap_eq_map' stages

/-- **Every filter can be asked for**, in any order and with any repetitions. -/
theorem readArguments_filterWords (stages : List Stage) :
    readArguments (filterWords stages) = .ok ⟨none, .compile none {} stages .text⟩ := by
  have hverb : ({} : Given).read none none (filterWords stages) =
      .ok ({}, some (Octets.ofText "compile", stages.flatMap fun s =>
        [Octets.ofText "--stage", Octets.ofText s.key])) := by
    have hword : Octets.ofText "compile" ≠ ['-', '-'] := by decide +kernel
    have hdashed : ({} : Given).takeDashed? none (Octets.ofText "compile") = none := by
      have hspelled : Octets.ofText "compile" = 'c' :: "ompile".toList := by decide +kernel
      rw [hspelled]
      rfl
    unfold filterWords
    rw [Given.read, if_neg hword, hdashed]
    rfl
  have hkeys : (stages.map fun s => Octets.ofText s.key).filterMap Key.stage? = stages := by
    rw [List.filterMap_map]
    simp [stage?_key]
  have hcompile : Verb.ofWord? (Octets.ofText "compile") = some .compile := by decide +kernel
  unfold readArguments
  rw [hverb]
  simp only [bind, Except.bind]
  rw [hcompile]
  dsimp only
  rw [read_filter]
  dsimp only
  rw [values_asking_of_ne (by decide) stages]
  unfold errandOf optionsOf
  dsimp only
  rw [values_asking, hkeys, values_asking_of_ne (by decide) stages, has_asking (by decide),
    has_asking (by decide), has_asking (by decide), has_asking (by decide)]
  rfl

/-! ## What a filter keeps -/

/-- Of a response with all stages a filter keeps the entries that are asked for. -/
theorem entries_select (hm : m.entries = Stage.all.map fun k => (k, results k)) :
    (m.select stages).entries =
      (Stage.all.filter fun s => Requested stages s).map fun k => (k, results k) := by
  unfold Response.select
  split
  · rename_i hempty
    have hall : ∀ s ∈ Stage.all, decide (Requested stages s) = true := fun s _ =>
      decide_eq_true (.inl (List.isEmpty_iff.mp hempty))
    rw [hm, List.filter_eq_self.mpr hall]
  · rename_i hsome
    have hne : stages ≠ [] := fun hnil => hsome (List.isEmpty_iff.mpr hnil)
    have hasked : ∀ s ∈ Stage.all, stages.contains s = decide (Requested stages s) := by
      intro s _
      rw [List.contains_eq_mem, decide_eq_decide]
      exact ⟨.inr, fun h => h.resolve_left hne⟩
    show m.entries.filter _ = _
    rw [hm, List.filter_map, ← List.filter_congr hasked]
    rfl

theorem get?_eq_some_iff (hm : m.entries = Stage.all.map fun k => (k, results k)) {s : Stage}
    {r : StageResult} : m.get? s = some r ↔ r = results s := by
  have hkeys : (m.entries.map Prod.fst).Nodup := by
    rw [hm, List.map_map]
    exact Stage.all_nodup
  unfold Response.get?
  rw [Response.lookup_eq_some_iff_mem hkeys, hm, List.mem_map]
  constructor
  · rintro ⟨k, -, hk⟩
    cases hk
    rfl
  · rintro rfl
    exact ⟨s, Stage.mem_all s, rfl⟩

/-- Some stage is asked for, with or without a filter. -/
theorem exists_requested (stages : List Stage) : ∃ s, Requested stages s := by
  cases stages with
  | nil => exact ⟨.ast, .inl rfl⟩
  | cons s rest => exact ⟨s, .inr List.mem_cons_self⟩

theorem displays_select (hm : m.entries = Stage.all.map fun k => (k, results k)) :
    Displays stages m (m.select stages) where
  keys := by
    unfold Response.keys
    rw [entries_select hm, List.map_map]
    exact List.map_id _
  results s r := by
    rw [entries_select hm, get?_eq_some_iff hm, List.mem_map]
    constructor
    · rintro ⟨k, hk, he⟩
      cases he
      exact ⟨of_decide_eq_true (List.mem_filter.mp hk).2, rfl⟩
    · rintro ⟨hs, rfl⟩
      exact ⟨s, List.mem_filter.mpr ⟨Stage.mem_all s, decide_eq_true hs⟩, rfl⟩
  nonempty := by
    obtain ⟨s, hs⟩ := exists_requested stages
    have hmem : s ∈ Stage.all.filter fun s => Requested stages s :=
      List.mem_filter.mpr ⟨Stage.mem_all s, decide_eq_true hs⟩
    unfold Response.isEmpty
    rw [entries_select hm, List.isEmpty_map, List.isEmpty_eq_false_iff]
    exact List.ne_nil_of_mem hmem

/-- Responses that agree on what is asked for are displayed alike. -/
theorem select_congr (hm : m.entries = Stage.all.map fun k => (k, results k))
    (hm' : m'.entries = Stage.all.map fun k => (k, results' k))
    (hagree : ∀ s, Requested stages s → m'.get? s = m.get? s) :
    m'.select stages = m.select stages := by
  have hentries : (m'.select stages).entries = (m.select stages).entries := by
    rw [entries_select hm, entries_select hm']
    refine List.map_congr_left fun s hs => ?_
    have hrequested : Requested stages s := of_decide_eq_true (List.mem_filter.mp hs).2
    have hresult : m'.get? s = some (results s) := by
      rw [hagree s hrequested]
      exact (get?_eq_some_iff hm).mpr rfl
    rw [(get?_eq_some_iff hm').mp hresult]
  cases hd : m.select stages
  cases hd' : m'.select stages
  rw [hd, hd'] at hentries
  exact congrArg Response.mk hentries

/-- A response is always shown, since it can always be written. -/
theorem exists_shown (stages : List Stage) (f : Format) (m : Response) (σ : State) :
    ∃ output, render f (m.select stages) = .ok output ∧
      shown stages f m σ =
        { exitCode := if (m.select stages).allSucceeded then 0 else 1, output, host := σ.host
          started := σ.started } := by
  obtain ⟨output, houtput⟩ := exists_render f (m.select stages)
  refine ⟨output, houtput, ?_⟩
  unfold shown
  dsimp only
  rw [houtput]

theorem complaint_shown (stages : List Stage) (f : Format) (m : Response) (σ : State) :
    (shown stages f m σ).complaint = none := by
  obtain ⟨output, -, hshown⟩ := exists_shown stages f m σ
  rw [hshown]

theorem tells_shown (stages : List Stage) (f : Format) (m : Response) (σ : State) :
    Tells f (m.select stages) (shown stages f m σ) := by
  obtain ⟨output, houtput, hshown⟩ := exists_shown stages f m σ
  rw [hshown]
  refine ⟨houtput, ?_, ?_⟩
  · have hall := Response.allSucceeded_iff (m.select stages)
    rw [Prod.forall] at hall
    rw [← hall]
    dsimp only
    cases (m.select stages).allSucceeded <;> decide
  · dsimp only
    cases (m.select stages).allSucceeded <;> decide

/-! ## What a run shows -/

variable {s : Settings} {runner : Runner} {runners : Nat → Runner} {h : Host} {first : State}
variable {input : Bytes} {arguments : List Octets} {config path : Option Bytes} {o : Options}
variable {r : Request}

/-- Where a request is answered without a complaint, its call has returned what is shown. -/
theorem exists_returns_of_answer (hstart : State.start? s h = some first)
    (hnone : (answer s runner first r stages f).complaint = none) :
    ∃ m σ, Returns m ∧ answer s runner first r stages f = shown stages f m σ := by
  have harises : Schedule.Arises s runner first
      (({ state := first } : Schedule).answer s runner [(r, none)]).1 :=
    Schedule.Arises.start.answer r
  unfold answer at hnone ⊢
  generalize hanswer : ({ state := first } : Schedule).answer s runner [(r, none)] = x
    at hnone harises ⊢
  obtain ⟨d, phases⟩ := x
  dsimp only at hnone harises ⊢
  split at hnone
  · rename_i m
    have hphases : (d.state.calls.drop first.calls.length).map Orchestrator.Call.phase =
        [.returned (.ok m)] := by
      have hd : (Schedule.answer s runner { state := first } [(r, none)]).1 = d :=
        congrArg Prod.fst hanswer
      have hp : (Schedule.answer s runner { state := first } [(r, none)]).2 =
          [.returned (.ok m)] := congrArg Prod.snd hanswer
      rw [← hp, ← hd]
      rfl
    obtain ⟨c, hlast, hphase⟩ := List.map_eq_singleton_iff.mp hphases
    -- The call of the request is the one that was added.
    have hcall : d.state.calls[first.calls.length]? = some ⟨c.request, .returned (.ok m)⟩ := by
      rw [← hphase, ← Nat.add_zero first.calls.length, ← List.getElem?_drop, hlast]
      rfl
    have hreturns : Returns m := ⟨s, runner, h, first, d.state, first.calls.length, c.request,
      hstart, harises.reachable, Orchestrator.answer?_eq_some_iff.mpr hcall⟩
    exact ⟨m, d.state, hreturns, rfl⟩
  · cases hnone
  · cases hnone

/-- A run that has nothing to complain about shows a response that a call has returned. -/
theorem exists_returns_of_run {p : Platform}
    (harguments : readArguments arguments = .ok ⟨config, .compile path o stages f⟩)
    (hnone : (run p h runners input arguments).complaint = none) :
    ∃ m σ, Returns m ∧ run p h runners input arguments = shown stages f m σ := by
  rw [run, harguments] at hnone ⊢
  dsimp only at hnone ⊢
  unfold compile at hnone ⊢
  split at hnone
  · cases hnone
  split at hnone
  · cases hnone
  dsimp only at hnone ⊢
  split at hnone
  · cases hnone
  · rename_i hstart
    exact exists_returns_of_answer hstart hnone

/-- **What is displayed is what was asked for, and nothing else counts.** Every filter can be asked
for. Whatever response a call returns, a filter displays each stage that it asks for once, in the
order of all stages and with its full result, and never nothing; the exit code is 0 if every result
that is displayed has exit code 0, and 1 otherwise. Responses that agree on the stages that are
asked for are displayed by the same text with the same exit code. What a run of the command line
shows is such a response under its own filter. -/
theorem filter_decides_display (stages : List Stage) (f : Format) :
    readArguments (filterWords stages) = .ok ⟨none, .compile none {} stages .text⟩ ∧
    (∀ m, Returns m → Displays stages m (m.select stages) ∧
      ∀ σ, Tells f (m.select stages) (shown stages f m σ)) ∧
    (∀ m m', Returns m → Returns m' → (∀ s, Requested stages s → m'.get? s = m.get? s) →
      ∀ σ σ', (shown stages f m' σ').output = (shown stages f m σ).output ∧
        (shown stages f m' σ').exitCode = (shown stages f m σ).exitCode) ∧
    ∀ p h runners input arguments config path o,
      readArguments arguments = .ok ⟨config, .compile path o stages f⟩ →
      (run p h runners input arguments).complaint = none →
      ∃ m σ, Returns m ∧ run p h runners input arguments = shown stages f m σ := by
  refine ⟨readArguments_filterWords stages, fun m hm => ?_, fun m m' hm hm' hagree σ σ' => ?_,
    fun p h runners input arguments config path o => exists_returns_of_run⟩
  · obtain ⟨results, hentries⟩ := hm.exists_results
    exact ⟨displays_select hentries, tells_shown stages f m⟩
  · obtain ⟨results, hentries⟩ := hm.exists_results
    obtain ⟨results', hentries'⟩ := hm'.exists_results
    obtain ⟨output, houtput, hshown⟩ := exists_shown stages f m σ
    obtain ⟨output', houtput', hshown'⟩ := exists_shown stages f m' σ'
    rw [select_congr hentries hentries' hagree] at houtput' hshown'
    rw [houtput] at houtput'
    obtain rfl := Except.ok.inj houtput'
    rw [hshown, hshown']
    exact ⟨rfl, rfl⟩

/-- Tools of which one fails. -/
def irless (t : Orchestrator.Task) : Ending :=
  if t.arguments.contains "-emit-ir" then .ok { exitCode := 1, stderr := "error" }
  else .ok { exitCode := 0, stdout := "fine" }

/-- The stage that fails is not asked for, and the run succeeds; two others are, one of them twice
and the later one first. -/
theorem filter_decides_display_irless :
    let stages : List Stage := [.assembly, .silRaw, .assembly]
    let o := run ⟨"x86_64", "linux"⟩ Orchestrator.bareHost (fun _ => Orchestrator.prompt irless)
      (Text.bytes "let x = 1") (filterWords stages)
    o.output = "== SIL Raw [silRaw] exit 0\n$ swiftc main.swift -emit-silgen\nfine\n\n" ++
      "== Assembly [assembly] exit 0\n$ swiftc main.swift -emit-assembly\nfine\n\n" ∧
    o.exitCode = 0 ∧
    ∃ m, Returns m ∧ Displays stages m (m.select stages) ∧ Tells .text (m.select stages) o := by
  intro stages o
  have hview : (o.output, o.exitCode, o.complaint) =
      ("== SIL Raw [silRaw] exit 0\n$ swiftc main.swift -emit-silgen\nfine\n\n" ++
        "== Assembly [assembly] exit 0\n$ swiftc main.swift -emit-assembly\nfine\n\n",
        0, none) := by
    decide +kernel
  simp only [Prod.mk.injEq] at hview
  obtain ⟨houtput, hcode, hnone⟩ := hview
  obtain ⟨harguments, hdisplay, -, hruns⟩ := filter_decides_display stages .text
  obtain ⟨m, σ, hm, ho⟩ := hruns _ _ _ _ _ _ _ _ harguments hnone
  refine ⟨houtput, hcode, m, hm, (hdisplay m hm).1, ?_⟩
  show Tells .text (m.select stages) (run _ _ _ _ _)
  rw [ho]
  exact (hdisplay m hm).2 σ

end CommandLine

end StageLens
