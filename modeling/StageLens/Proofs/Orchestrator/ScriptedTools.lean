import StageLens.Proofs.Orchestrator.Answers
import StageLens.Proofs.Process.Script

/-!
# Calls of the scripted tools

The scripted compiler and demangler end as their tasks say (`follows_swiftLike`), so a request has
one response with the demangler and one without it. The two agree on the stages that show no mangled
names, and of the others the first one is the second one without the symbol
(`scripted_tools_demangle_completely`).
-/

namespace StageLens.Orchestrator

/-- The invocation that a task is of, in no directory. -/
def Task.invocation (t : Task) : Invocation :=
  { program := t.program, arguments := t.arguments, input := t.input, timeout := t.timeout }

/-- How the scripted tools end for a task. -/
def scriptedEnding (t : Task) : Ending :=
  .ok (if Script.isDemangler t.invocation then Script.demangle t.invocation
    else Script.compile t.invocation (t.source.bind Text.decode?))

/-- The results of a stage without the demangler and with it. -/
structure Cleaned (d : Demangler) (k : Stage) (source : String) (a b : StageResult) : Prop where
  label : b.label = a.label
  command : b.command = a.command
  exitCode : b.exitCode = a.exitCode
  /-- What there is to demangle. -/
  shown : Script.Shows k source a.output
  /-- A stage that shows no mangled names is left alone, whatever is in its source. -/
  kept : k.mayMangle = false → b = a
  /-- Every occurrence of the symbol is replaced. -/
  replaced : k.mayMangle = true → Text.Replaced Script.mangled.toList Script.demangled.toList
    a.output.toList b.output.toList
  /-- The symbol is not in the text. -/
  clean : k.mayMangle = true → Text.contains b.output Script.mangled = false
  /-- Demangling again changes nothing. -/
  settled : k.mayMangle = true → ∀ h, ∃ events,
    d.filter (Script.runner Script.swiftLike) h true true b.output = some (b.output, events)

variable {s : Settings} {first firstA firstB σ σA σB : State} {source : String} {o : Options}
variable {nA nB : Nat} {a b : Response} {k : Stage}

/-! ## The tools -/

theorem toOption_readText (h : Host) (p : Bytes) :
    (h.readText p).toOption = (h.read p).toOption.bind Text.decode? := by
  unfold Host.readText
  cases h.read p with
  | error e => rfl
  | ok contents =>
    dsimp only [bind, Except.bind, Except.toOption, Option.bind]
    cases Text.decode? contents <;> rfl

/-- The compiler looks at nothing of the host but the source of its task. -/
theorem source?_eq (i : Invocation) (h : Host) :
    Script.source? i h = (taskOf i h).source.bind Text.decode? := by
  unfold Script.source? taskOf
  dsimp only
  cases i.directory with
  | none => rfl
  | some d => exact toOption_readText h _

theorem follows_swiftLike : Follows scriptedEnding (Script.runner Script.swiftLike) := by
  intro i h e he
  rw [Script.ending_swiftLike, Script.swiftOutput, source?_eq] at he
  exact (Option.some.inj he).symm

theorem behaves_swiftLike (scratchRoot : Option Bytes) :
    Behaves scriptedEnding scratchRoot (Script.runner Script.swiftLike) where
  follows := follows_swiftLike
  ends := fun _ _ => rfl
  sources := .inl (sparesWorkspaces_of_host_eq fun _ _ => rfl).sparesSources

/-! ## One stage -/

/-- The output of the compiler for a stage. -/
def scriptedOutput (s : Settings) (r : Request) (k : Stage) : Output :=
  Script.compile (compileTask s r k).invocation (some r.source)

theorem scriptedEnding_compileTask
    (hcompiler : Text.contains (Text.decodeText s.toolchain.compiler) "demangle" = false)
    (r : Request) (k : Stage) :
    scriptedEnding (compileTask s r k) = .ok (scriptedOutput s r k) := by
  have hnot : Script.isDemangler (compileTask s r k).invocation = false := hcompiler
  have hsource : (compileTask s r k).source.bind Text.decode? = some r.source :=
    Text.decode?_eq_some_iff.mpr rfl
  rw [scriptedEnding, hnot, hsource]
  rfl

theorem scriptedEnding_demangleTask
    (hdemangler : Text.contains (Text.decodeText s.demangler.program) "demangle" = true)
    (raw : String) :
    scriptedEnding (demangleTask s raw) = .ok { stdout := Script.clean raw } := by
  have hits : Script.isDemangler (s.demangler.invocation raw) = true := hdemangler
  have hsame : (demangleTask s raw).invocation = s.demangler.invocation raw := rfl
  rw [scriptedEnding, hsame, if_pos hits, Script.demangle_invocation]

/-- A stage with the demangler has the text that is left of the one without it. -/
theorem cleaned_reference
    (hdemangler : Text.contains (Text.decodeText s.demangler.program) "demangle" = true)
    (hcompiler : Text.contains (Text.decodeText s.toolchain.compiler) "demangle" = false)
    (source : String) (o : Options) (k : Stage) :
    Cleaned s.demangler k source (reference s scriptedEnding (plainly source o) k)
      (reference s scriptedEnding (demangled source o) k) := by
  -- Neither compiler knows whether its output is to be demangled.
  have hsame : scriptedOutput s (demangled source o) k =
      scriptedOutput s (plainly source o) k := rfl
  unfold reference
  rw [scriptedEnding_compileTask hcompiler, scriptedEnding_compileTask hcompiler, hsame]
  dsimp only
  generalize hraw : (scriptedOutput s (plainly source o) k).combined = raw
  rw [scriptedEnding_demangleTask hdemangler]
  have hshows : Script.Shows k source raw := by
    rw [← hraw]
    exact Script.shows_compile (o := o) (t := s.toolchain) rfl source
  rw [Script.ite_isWanted, Script.ite_isWanted, Bool.and_false, Bool.and_true,
    if_neg Bool.false_ne_true]
  cases hmangle : k.mayMangle with
  | false =>
    rw [if_neg Bool.false_ne_true]
    have hnone : ¬ k.mayMangle = true := by
      rw [hmangle]
      exact Bool.false_ne_true
    exact ⟨rfl, rfl, rfl, hshows, fun _ => rfl, fun h => absurd h hnone, fun h => absurd h hnone,
      fun h => absurd h hnone⟩
  | true =>
    rw [if_pos rfl]
    refine ⟨rfl, rfl, rfl, hshows, fun hnone => ?_, fun _ => Script.replaced_clean raw,
      fun _ => Script.contains_clean raw, fun _ h => Script.exists_filter_clean hdemangler h raw⟩
    rw [hmangle] at hnone
    cases hnone

/-! ## Calls -/

/-- **The scripted tools demangle completely.** The demangler is a program with `demangle` in its
path, and the compiler is not. A source is compiled with any options without the demangler and with
it, in sessions with open gates, whatever the orders of the moves are and whatever else is compiled.
Then the two responses have the stages of the catalog with the same labels, commands and exit codes,
and

* a stage that shows mangled names has the text that it has without the demangler with every
  occurrence of the symbol replaced; the symbol is not in it, and the demangler makes nothing else
  of it;
* a stage that shows none is the same in both, whatever is in the source.

Calls return in every fair run where a permit is left. -/
theorem scripted_tools_demangle_completely
    (hdemangler : Text.contains (Text.decodeText s.demangler.program) "demangle" = true)
    (hcompiler : Text.contains (Text.decodeText s.toolchain.compiler) "demangle" = false)
    (hA : Session s (Script.runner Script.swiftLike) firstA σA) (htA : firstA.host.tree.Proper)
    (hB : Session s (Script.runner Script.swiftLike) firstB σB) (htB : firstB.host.tree.Proper)
    (source : String) (o : Options) :
    (∀ nA nB a b, σA.answer? nA = some (plainly source o, a) →
      σB.answer? nB = some (demangled source o, b) →
      ∃ x y : Stage → StageResult, a.entries = (Stage.all.map fun k => (k, x k)) ∧
        b.entries = (Stage.all.map fun k => (k, y k)) ∧
        ∀ k, Cleaned s.demangler k source (x k) (y k)) ∧
    (∀ first σ, Session s (Script.runner Script.swiftLike) first σ → σ.held < s.capacity →
      σ.Completes s (Script.runner Script.swiftLike)) := by
  have hbehaves := behaves_swiftLike s.scratchRoot
  constructor
  · intro nA nB a b ha hb
    obtain rfl := hA.eq_referenceResponse hbehaves htA ha
    obtain rfl := hB.eq_referenceResponse hbehaves htB hb
    exact ⟨_, _, rfl, rfl, cleaned_reference hdemangler hcompiler source o⟩
  · intro first σ h hheld
    exact completes_of_runsEnd h.start h.reachable hheld hbehaves.ends

/-- A source in which the symbol stands between pieces of itself. -/
def entangledSource : String := "$s4main5hello" ++ Script.mangled ++ "yyF"

/-- A call whose stages are done one by one. -/
def oneByOne (r : Request) : List Move :=
  .submit r :: (Stage.all.flatMap fun k => [.ask ⟨0, k⟩, .finish ⟨0, k⟩] ++
    if k.demangles r.options then [.finish ⟨0, k⟩] else []) ++ [.collect 0]

/-- The symbol in the source is shown as it is, and that of the compiler is not. -/
theorem scripted_tools_demangle_completely_entangled :
    ∃ first σA σB a b,
      Text.contains (Text.decodeText Settings.narrow.demangler.program) "demangle" = true ∧
      Text.contains (Text.decodeText Settings.narrow.toolchain.compiler) "demangle" = false ∧
      State.start? .narrow bareHost = some first ∧
      run? .narrow (Script.runner Script.swiftLike) first
        (oneByOne (plainly entangledSource {})) = some σA ∧
      run? .narrow (Script.runner Script.swiftLike) first
        (oneByOne (demangled entangledSource {})) = some σB ∧
      σA.answer? 0 = some (plainly entangledSource {}, a) ∧
      σB.answer? 0 = some (demangled entangledSource {}, b) ∧
      (outputs a)[4]? = some "define swiftcc void @\"$s4main5helloyyF\"() ; main.swift -emit-ir" ∧
      (outputs b)[4]? =
        some "define swiftcc void @\"main.hello() -> ()\"() ; main.swift -emit-ir" ∧
      (outputs b)[3]? = (outputs a)[3]? ∧
      (∃ x y : Stage → StageResult, a.entries = (Stage.all.map fun k => (k, x k)) ∧
        b.entries = (Stage.all.map fun k => (k, y k)) ∧
        ∀ k, Cleaned Settings.narrow.demangler k entangledSource (x k) (y k)) := by
  have hviewA : ((State.start? .narrow bareHost).bind fun first =>
      run? .narrow (Script.runner Script.swiftLike) first
        (oneByOne (plainly entangledSource {}))).map (fun σ => (σ.gate.closed,
          (σ.answer? 0).map fun x => (x.1, (outputs x.2)[3]?, (outputs x.2)[4]?))) =
      some (false, some (plainly entangledSource {},
        some ("(source_file \"main.swift\"\n  (top_level_code_decl " ++ entangledSource ++ "))"),
        some "define swiftcc void @\"$s4main5helloyyF\"() ; main.swift -emit-ir")) := by
    decide +kernel
  have hviewB : ((State.start? .narrow bareHost).bind fun first =>
      run? .narrow (Script.runner Script.swiftLike) first
        (oneByOne (demangled entangledSource {}))).map (fun σ => (σ.gate.closed,
          (σ.answer? 0).map fun x => (x.1, (outputs x.2)[3]?, (outputs x.2)[4]?))) =
      some (false, some (demangled entangledSource {},
        some ("(source_file \"main.swift\"\n  (top_level_code_decl " ++ entangledSource ++ "))"),
        some "define swiftcc void @\"main.hello() -> ()\"() ; main.swift -emit-ir")) := by
    decide +kernel
  obtain ⟨σA, hσA, hviewA⟩ := Option.map_eq_some_iff.mp hviewA
  obtain ⟨first, hstart, hrunA⟩ := Option.bind_eq_some_iff.mp hσA
  obtain ⟨σB, hσB, hviewB⟩ := Option.map_eq_some_iff.mp hviewB
  rw [hstart, Option.bind_some] at hσB
  simp only [Prod.mk.injEq, Option.map_eq_some_iff] at hviewA hviewB
  obtain ⟨hopenA, ⟨rA, a⟩, ha, rfl, hparseA, hirA⟩ := hviewA
  obtain ⟨hopenB, ⟨rB, b⟩, hb, rfl, hparseB, hirB⟩ := hviewB
  have ht : first.host.tree.Proper := by
    rw [host_of_start hstart]
    exact Tree.proper_empty.put (p := []) rfl rfl
  have hdemangler : Text.contains (Text.decodeText Settings.narrow.demangler.program) "demangle" =
      true := by decide +kernel
  have hcompiler : Text.contains (Text.decodeText Settings.narrow.toolchain.compiler) "demangle" =
      false := by decide +kernel
  have hstages := (scripted_tools_demangle_completely hdemangler hcompiler
    (session_of_run? hstart hrunA hopenA) ht
    (session_of_run? hstart hσB hopenB) ht entangledSource {}).1 0 0 a b ha hb
  exact ⟨first, σA, σB, a, b, hdemangler, hcompiler, hstart, hrunA, hσB, ha, hb, hirA, hirB,
    hparseB.trans hparseA.symm, hstages⟩

end StageLens.Orchestrator
