import StageLens.Proofs.Orchestrator.Invocations

/-!
# Sources and commands

What is run for a request is decided by the settings and the options. The source reaches the
compiler as the contents of a file, and the demangler reads what the compiler printed; so two
requests that differ in their sources alone run the same commands, whatever becomes of them.
-/

namespace StageLens.Orchestrator

/-- The compiler of a stage in some directory. -/
def compilerIn (s : Settings) (o : Options) (k : Stage) (directory : Bytes) : Invocation :=
  { program := s.toolchain.compiler, arguments := k.arguments o s.toolchain,
    directory := some directory, timeout := s.stageTimeout }

/-- Two calls have run the same compilers in their directories, and show the same commands. -/
structure SameCommands (s : Settings) (o : Options) (σ₁ : State) (n₁ : Nat) (a₁ : Response)
    (σ₂ : State) (n₂ : Nat) (a₂ : Response) : Prop where
  stages : ∃ d₁ d₂ : Bytes, ∀ k,
    σ₁.invocationsOf ⟨n₁, k⟩ .compile = [compilerIn s o k d₁] ∧
    σ₂.invocationsOf ⟨n₂, k⟩ .compile = [compilerIn s o k d₂]
  /-- No more has been run for the calls than for their stages. -/
  compilers : ((σ₁.invocations n₁ .compile).map anywhere).Perm
    ((σ₂.invocations n₂ .compile).map anywhere)
  commands : a₁.entries.map (fun e => (e.1, e.2.command)) =
    a₂.entries.map fun e => (e.1, e.2.command)

/-- The demanglers of a call are the configured one, each on what one of the call's own compilers
printed. -/
def FiltersOwnOutput (s : Settings) (runner : Runner) (first σ : State) (n : Nat) (r : Request) :
    Prop :=
  ∀ e ∈ σ.started, e.ticket.call = n → e.purpose = .demangle →
    e.invocation.program = s.demangler.program ∧
    e.invocation.arguments = s.demangler.arguments ∧
    e.invocation.timeout = s.demangler.timeout ∧ e.invocation.directory = none ∧
    ∃ w o, compilerStart s r w e.ticket ∈ σ.started ∧
      EndedWith s runner first σ r w (compilerStart s r w e.ticket) (.ok o) ∧
      e.invocation.input = some (Text.bytes o.combined)

variable {s : Settings} {runner runner₁ runner₂ : Runner} {first first₁ first₂ σ σ₁ σ₂ : State}
variable {o : Options} {n : Nat} {c : Call} {r : Request} {response : Response}

/-- The compilers and commands of a call, told from the settings and the options. -/
theorem Session.commands (h : Session s runner first σ) (ha : σ.answer? n = some (r, response)) :
    (∃ d, (∀ k, σ.invocationsOf ⟨n, k⟩ .compile = [compilerIn s r.options k d]) ∧
      ((σ.invocations n .compile).map anywhere).Perm
        (Stage.all.map fun k => anywhere (compilerIn s r.options k d))) ∧
    response.entries.map (fun e => (e.1, e.2.command)) =
      Stage.all.map fun k => (k, k.command r.options s.toolchain) := by
  obtain ⟨w, results, hentries, htrails⟩ := h.trails ha
  refine ⟨⟨w.path, fun k => (htrails.trail k).compiled h.isOpen, ?_⟩, ?_⟩
  · have hperm := (htrails.compilers_perm h.isOpen).map anywhere
    rw [List.map_map] at hperm
    exact hperm
  · rw [hentries, List.map_map]
    refine List.map_congr_left fun k _ => ?_
    rw [Function.comp_apply, (htrails.trail k).shown.2]
    rfl

theorem filtersOwnOutput (h : Session s runner first σ) (hc : σ.calls[n]? = some c) :
    FiltersOwnOutput s runner first σ n c.request := by
  intro e he hcall hpurpose
  have hmem := State.mem_startsOf he
  obtain ⟨w, progress, htrails⟩ :=
    (trailed_of_reachable h.start h.reachable).of_started hc he hcall
  subst hcall
  obtain ⟨hcompiler, run, out, hrun, hend, hstart⟩ :=
    (htrails.trail e.ticket.stage).demanglers e hmem hpurpose
  have hinvocation : e.invocation = s.demangler.invocation out.combined := by
    rw [hstart]
    rfl
  rw [hinvocation]
  exact ⟨rfl, rfl, rfl, rfl, w, out, (List.mem_filter.mp hcompiler).1, ⟨run, hrun, hend⟩, rfl⟩

/-- **The source decides no command.** Two requests with the same options are made in sessions with
open gates, of which nothing but the settings need be the same; the runs may end as they like. When
both calls have returned

* the compiler has run once for each of their stages, with the same program, arguments and timeout
  and without input, in a directory for each of the calls;
* their results show the same commands.

Every demangler that is run for a call is the configured one, and its input is what a compiler of
the same call and stage printed. Where all runs end and a permit is left, calls return in every fair
run. -/
theorem source_decides_no_command (h₁ : Session s runner₁ first₁ σ₁)
    (h₂ : Session s runner₂ first₂ σ₂) (o : Options) :
    (∀ n₁ n₂ source₁ source₂ a₁ a₂, σ₁.answer? n₁ = some (⟨source₁, o⟩, a₁) →
      σ₂.answer? n₂ = some (⟨source₂, o⟩, a₂) → SameCommands s o σ₁ n₁ a₁ σ₂ n₂ a₂) ∧
    (∀ n c, σ₁.calls[n]? = some c → FiltersOwnOutput s runner₁ first₁ σ₁ n c.request) ∧
    (∀ n c, σ₂.calls[n]? = some c → FiltersOwnOutput s runner₂ first₂ σ₂ n c.request) ∧
    ((∀ i h, (runner₁ i h).ending.isSome = true) → σ₁.held < s.capacity →
      σ₁.Completes s runner₁) ∧
    ((∀ i h, (runner₂ i h).ending.isSome = true) → σ₂.held < s.capacity →
      σ₂.Completes s runner₂) := by
  refine ⟨?_, fun n c hc => filtersOwnOutput h₁ hc, fun n c hc => filtersOwnOutput h₂ hc, ?_, ?_⟩
  · intro n₁ n₂ source₁ source₂ a₁ a₂ ha₁ ha₂
    obtain ⟨⟨d₁, hstages₁, hperm₁⟩, hcommands₁⟩ := h₁.commands ha₁
    obtain ⟨⟨d₂, hstages₂, hperm₂⟩, hcommands₂⟩ := h₂.commands ha₂
    refine ⟨⟨d₁, d₂, fun k => ⟨hstages₁ k, hstages₂ k⟩⟩, ?_, ?_⟩
    · exact hperm₁.trans hperm₂.symm
    · rw [hcommands₁, hcommands₂]
  · intro hends hheld
    exact completes_of_runsEnd h₁.start h₁.reachable hheld hends
  · intro hends hheld
    exact completes_of_runsEnd h₂.start h₂.reachable hheld hends

/-! ## Two sources -/

/-- Tools of which the compiler shows the source `x` and cannot be launched for any other. -/
def choosy (t : Task) : Ending :=
  if t.input.isSome then .ok { stdout := "main" }
  else if t.source = some (Text.bytes "x") then .ok { stdout := "$s", stderr := "warning" }
  else .error (.launch t.program .notFound)

/-- Two calls with different sources that take turns. -/
def withTwoSources : List Move :=
  [.submit ⟨"x", { demangle := true }⟩, .submit ⟨"y", { demangle := true }⟩] ++
  (Stage.all.flatMap fun k =>
    [.ask ⟨0, k⟩, .finish ⟨0, k⟩, .ask ⟨1, k⟩, .finish ⟨1, k⟩]) ++
  [.finish ⟨0, .ir⟩, .finish ⟨0, .silRaw⟩, .finish ⟨0, .assembly⟩, .finish ⟨0, .silCanonical⟩,
    .collect 0, .collect 1]

/-- Two calls of one session: all stages of the first one have results, and four of them go to the
demangler; none of the second one's compilers can be launched. -/
theorem source_decides_no_command_choosy :
    ∃ first σ a₁ a₂, State.start? .narrow bareHost = some first ∧
      run? .narrow (prompt choosy) first withTwoSources = some σ ∧ σ.gate.closed = false ∧
      σ.answer? 0 = some (⟨"x", { demangle := true }⟩, a₁) ∧
      σ.answer? 1 = some (⟨"y", { demangle := true }⟩, a₂) ∧
      (σ.invocations 0 .demangle).length = 4 ∧ (σ.invocations 1 .demangle).length = 0 ∧
      ((∀ n₁ n₂ source₁ source₂ a₁ a₂,
        σ.answer? n₁ = some (⟨source₁, { demangle := true }⟩, a₁) →
        σ.answer? n₂ = some (⟨source₂, { demangle := true }⟩, a₂) →
        SameCommands .narrow { demangle := true } σ n₁ a₁ σ n₂ a₂) ∧
      (∀ n c, σ.calls[n]? = some c →
        FiltersOwnOutput .narrow (prompt choosy) first σ n c.request) ∧
      (∀ n c, σ.calls[n]? = some c →
        FiltersOwnOutput .narrow (prompt choosy) first σ n c.request) ∧
      ((∀ i h, (prompt choosy i h).ending.isSome = true) → σ.held < Settings.narrow.capacity →
        σ.Completes .narrow (prompt choosy)) ∧
      ((∀ i h, (prompt choosy i h).ending.isSome = true) → σ.held < Settings.narrow.capacity →
        σ.Completes .narrow (prompt choosy))) := by
  have hview : ((State.start? .narrow bareHost).bind fun first =>
      run? .narrow (prompt choosy) first withTwoSources).map (fun σ => (σ.gate.closed,
        (σ.answer? 0).map Prod.fst, (σ.answer? 1).map Prod.fst,
        (σ.invocations 0 .demangle).length, (σ.invocations 1 .demangle).length)) = some (false,
      some ⟨"x", { demangle := true }⟩, some ⟨"y", { demangle := true }⟩, 4, 0) := by
    decide +kernel
  obtain ⟨σ, hσ, hview⟩ := Option.map_eq_some_iff.mp hview
  obtain ⟨first, hstart, hrun⟩ := Option.bind_eq_some_iff.mp hσ
  simp only [Prod.mk.injEq, Option.map_eq_some_iff] at hview
  obtain ⟨hopen, ⟨⟨r₁, a₁⟩, ha₁, rfl⟩, ⟨⟨r₂, a₂⟩, ha₂, rfl⟩, hfour, hnone⟩ := hview
  have hsession := session_of_run? hstart hrun hopen
  exact ⟨first, σ, a₁, a₂, hstart, hrun, hopen, ha₁, ha₂, hfour, hnone,
    source_decides_no_command hsession hsession { demangle := true }⟩

end StageLens.Orchestrator
