import StageLens.CommandLine.Basic
import StageLens.Proofs.Lists
import StageLens.Proofs.Orchestrator.Invocations
import StageLens.Proofs.Text.Pieces

/-!
# What the listing of stages tells

The listing shows each stage on a line with its name and a line with its command, whose words stand
between blanks as they are. So it has two lines for each stage where no line break is shown, and its
command lines tell commands apart for one toolchain, and for several ones whose module names have no
blank (`stage_listing_shows_commands`). A module name with a blank can look like flags
(`stage_listing_is_ambiguous`).
-/

namespace StageLens.CommandLine

open Orchestrator (Settings)

/-! ## Words of a command -/

/-- The words that no configuration decides. -/
def fixedWords : List String :=
  [Stage.sourceName, "-parse-as-library", "-module-name", "-O", "-whole-module-optimization"] ++
    Stage.all.map Stage.emitFlag

/-- The flags for a source that is read as a library. -/
def libraryFlags (o : Options) (t : Toolchain) : List String :=
  if o.asLibrary then ["-parse-as-library", "-module-name", t.moduleName] else []

/-- The flags for optimization. -/
def optimizationFlags (k : Stage) (o : Options) : List String :=
  if k.isOptimizable && o.optimize then
    "-O" :: (if o.optimizesWholeModule then ["-whole-module-optimization"] else [])
  else []

/-- The character is in nothing that is shown of a toolchain. -/
structure Free (c : Char) (o : Options) (t : Toolchain) : Prop where
  compiler : c ∉ (Text.decodeText t.compiler).toList
  moduleName : o.asLibrary = true → c ∉ t.moduleName.toList

/-- What is printed for a stage, line by line. -/
def stageLines (o : Options) (t : Toolchain) (k : Stage) : List String :=
  [headline k o, commandLine k o t]

/-- What a text tells that lists the stages for some settings. -/
structure Lists (s : Settings) (h : Host) (o : Options) (text : String) : Prop where
  /-- There are two lines for each stage if no line break is shown, and more if one is. -/
  length_iff : (Text.lines text).length = 2 * Stage.all.length ↔ Free '\n' o s.toolchain
  /-- The lines of a stage are its name and its command, in the order of the catalog. -/
  lines : Free '\n' o s.toolchain →
    Text.lines text = Stage.all.flatMap (stageLines o s.toolchain)
  /-- A compiler is started with the command of its stage. -/
  started : ∀ runner first σ e, Orchestrator.State.start? s h = some first →
    Orchestrator.Reachable s runner first σ → e ∈ σ.started → e.purpose = .compile →
    ∃ call, σ.calls[e.ticket.call]? = some call ∧
      e.invocation.commandLine = e.ticket.stage.command call.request.options s.toolchain
  /-- For the same settings a line tells the command. -/
  tells : ∀ k o', commandLine k o s.toolchain = commandLine k o' s.toolchain →
    k.command o s.toolchain = k.command o' s.toolchain

variable {k : Stage} {o o' : Options} {t t' : Toolchain} {c : Char}

theorem command_eq (k : Stage) (o : Options) (t : Toolchain) : k.command o t =
    Text.decodeText t.compiler :: Stage.sourceName :: k.emitFlag ::
      (libraryFlags o t ++ optimizationFlags k o) := rfl

/-- A fixed word has neither blanks nor line breaks. -/
theorem notMem_of_fixed (hc : c = ' ' ∨ c = '\n') {word : String} (h : word ∈ fixedWords) :
    c ∉ word.toList := by
  have hall : ∀ word ∈ fixedWords, ' ' ∉ word.toList ∧ '\n' ∉ word.toList := by decide +kernel
  rcases hc with rfl | rfl
  · exact (hall word h).1
  · exact (hall word h).2

theorem emitFlag_fixed (k : Stage) : k.emitFlag ∈ fixedWords :=
  List.mem_append_right _ (List.mem_map_of_mem (Stage.mem_all k))

theorem fixed_of_optimizationFlags {word : String} (h : word ∈ optimizationFlags k o) :
    word ∈ fixedWords := by
  unfold optimizationFlags at h
  split at h
  · rcases List.mem_cons.mp h with rfl | h
    · decide +kernel
    · split at h
      · obtain rfl := List.mem_singleton.mp h
        decide +kernel
      · cases h
  · cases h

/-- Of the flags for a library the name of the module is the one that a configuration decides. -/
theorem free_libraryFlags_iff (hc : c = ' ' ∨ c = '\n') :
    (∀ word ∈ libraryFlags o t, c ∉ word.toList) ↔
      (o.asLibrary = true → c ∉ t.moduleName.toList) := by
  have hread : c ∉ "-parse-as-library".toList := notMem_of_fixed hc (by decide +kernel)
  have hname : c ∉ "-module-name".toList := notMem_of_fixed hc (by decide +kernel)
  unfold libraryFlags
  cases o.asLibrary with
  | true => simp [hread, hname, -String.reduceToList]
  | false => simp

/-- A command has a blank or a line break where the toolchain brings one in. -/
theorem free_iff (hc : c = ' ' ∨ c = '\n') (k : Stage) :
    Free c o t ↔ ∀ word ∈ k.command o t, c ∉ word.toList := by
  have hsource : c ∉ Stage.sourceName.toList := notMem_of_fixed hc (by decide +kernel)
  have hflag : c ∉ k.emitFlag.toList := notMem_of_fixed hc (emitFlag_fixed k)
  have hoptimization : ∀ word ∈ optimizationFlags k o, c ∉ word.toList :=
    fun word hword => notMem_of_fixed hc (fixed_of_optimizationFlags hword)
  rw [command_eq, List.forall_mem_cons, List.forall_mem_cons, List.forall_mem_cons,
    List.forall_mem_append, free_libraryFlags_iff hc]
  constructor
  · intro h
    exact ⟨h.compiler, hsource, hflag, h.moduleName, hoptimization⟩
  · intro h
    exact ⟨h.1, h.2.2.2.1⟩

/-! ## Words of a line -/

/-- What a command falls apart into where it is split at blanks. -/
theorem pieces_command (k : Stage) (o : Options) (t : Toolchain) :
    (k.command o t).flatMap (Text.pieces ' ') =
      Text.pieces ' ' (Text.decodeText t.compiler) ++ Stage.sourceName :: k.emitFlag ::
        ((libraryFlags o t).flatMap (Text.pieces ' ') ++ optimizationFlags k o) := by
  have hsource : Text.pieces ' ' Stage.sourceName = [Stage.sourceName] :=
    Text.pieces_of_notMem (notMem_of_fixed (.inl rfl) (by decide +kernel))
  have hflag : Text.pieces ' ' k.emitFlag = [k.emitFlag] :=
    Text.pieces_of_notMem (notMem_of_fixed (.inl rfl) (emitFlag_fixed k))
  have hoptimization : (optimizationFlags k o).flatMap (Text.pieces ' ') = optimizationFlags k o :=
    Text.flatMap_pieces_of_notMem fun word hword =>
      notMem_of_fixed (.inl rfl) (fixed_of_optimizationFlags hword)
  rw [command_eq, List.flatMap_cons, List.flatMap_cons, List.flatMap_cons, List.flatMap_append,
    hsource, hflag, hoptimization]
  rfl

/-- Equal lines fall apart into the same pieces. -/
theorem pieces_eq_of_commandLine_eq (h : commandLine k o t = commandLine k o' t') :
    (k.command o t).flatMap (Text.pieces ' ') = (k.command o' t').flatMap (Text.pieces ' ') := by
  unfold commandLine at h
  have hwords := (String.append_right_inj _).mp h
  rw [command_eq, command_eq] at hwords ⊢
  rw [← Text.pieces_join, ← Text.pieces_join, hwords]

/-- The source file is named before the flag that selects the stage and not again before it, even
where a module has the name of the file. -/
theorem not_pair_in_flags (k : Stage) (o : Options) (t : Toolchain) :
    ¬ [Stage.sourceName, k.emitFlag] <:+:
      k.emitFlag :: (libraryFlags o t ++ optimizationFlags k o) := by
  have hsource : Stage.sourceName ≠ k.emitFlag := by cases k <;> decide
  have hlevel : k.emitFlag ≠ "-O" := by cases k <;> decide
  have hother : Stage.sourceName ≠ "-parse-as-library" ∧ Stage.sourceName ≠ "-module-name" ∧
      Stage.sourceName ≠ "-O" ∧ Stage.sourceName ≠ "-whole-module-optimization" := by decide
  obtain ⟨hread, hname, hoptimize, hwhole⟩ := hother
  unfold libraryFlags optimizationFlags
  cases o.asLibrary <;> cases k.isOptimizable && o.optimize <;> cases o.optimizesWholeModule <;>
    simp [List.infix_cons_iff, hsource, hlevel, hread, hname, hoptimize, hwhole]

/-! ## Lines that tell commands -/

/-- **A line tells a command** whose module has a name without blanks, whatever the compiler is. -/
theorem command_eq_of_commandLine_eq (hname : o.asLibrary = true → ' ' ∉ t.moduleName.toList)
    (hname' : o'.asLibrary = true → ' ' ∉ t'.moduleName.toList)
    (h : commandLine k o t = commandLine k o' t') : k.command o t = k.command o' t' := by
  have hwhole : (libraryFlags o t).flatMap (Text.pieces ' ') = libraryFlags o t :=
    Text.flatMap_pieces_of_notMem ((free_libraryFlags_iff (.inl rfl)).mpr hname)
  have hwhole' : (libraryFlags o' t').flatMap (Text.pieces ' ') = libraryFlags o' t' :=
    Text.flatMap_pieces_of_notMem ((free_libraryFlags_iff (.inl rfl)).mpr hname')
  have hpieces := pieces_eq_of_commandLine_eq h
  rw [pieces_command, pieces_command, hwhole, hwhole'] at hpieces
  obtain ⟨hcompiler, hflags⟩ :=
    List.eq_of_last_pair (not_pair_in_flags k o t) (not_pair_in_flags k o' t') hpieces
  rw [command_eq, command_eq, Text.eq_of_pieces hcompiler, hflags]

/-- Optimization does not begin like reading a library. -/
theorem optimizationFlags_ne_cons (k : Stage) (o : Options) (rest : List String) :
    optimizationFlags k o ≠ "-parse-as-library" :: rest := by
  unfold optimizationFlags
  split <;> simp

/-- The lines of one toolchain tell its commands, whatever it is called. -/
theorem command_eq_of_commandLine_eq_self (h : commandLine k o t = commandLine k o' t) :
    k.command o t = k.command o' t := by
  have hread : Text.pieces ' ' "-parse-as-library" = ["-parse-as-library"] :=
    Text.pieces_of_notMem (notMem_of_fixed (.inl rfl) (by decide +kernel))
  have hpieces := pieces_eq_of_commandLine_eq h
  rw [pieces_command, pieces_command] at hpieces
  have hflags := (List.cons.inj (List.cons.inj (List.append_cancel_left hpieces)).2).2
  rw [command_eq, command_eq]
  unfold libraryFlags at hflags ⊢
  revert hflags
  cases o.asLibrary <;> cases o'.asLibrary <;> intro hflags
  case false.false => rw [List.append_cancel_left hflags]
  case true.true => rw [List.append_cancel_left hflags]
  case false.true =>
    rw [if_pos rfl, List.flatMap_cons, hread] at hflags
    exact absurd hflags (optimizationFlags_ne_cons k o _)
  case true.false =>
    rw [if_pos rfl, List.flatMap_cons, hread] at hflags
    exact absurd hflags.symm (optimizationFlags_ne_cons k o' _)

/-! ## The listing -/

theorem notMem_headline (k : Stage) (o : Options) : '\n' ∉ (headline k o).toList := by
  obtain ⟨demangle, optimize, wholeModule, asLibrary⟩ := o
  have hall : ∀ k ∈ Stage.all, ∀ demangle : Bool, '\n' ∉ (headline k { demangle }).toList := by
    decide +kernel
  exact hall k (Stage.mem_all k) demangle

/-- The lines of a listing, of which each command may take more than one. -/
theorem lines_stageListing (o : Options) (t : Toolchain) :
    Text.lines (stageListing o t) =
      (Stage.all.flatMap (stageLines o t)).flatMap (Text.pieces '\n') := by
  have hlisting : ∀ ks : List Stage,
      String.join (ks.map fun k => headline k o ++ "\n" ++ commandLine k o t ++ "\n") =
        String.join ((ks.flatMap (stageLines o t)).map (· ++ "\n")) := by
    intro ks
    induction ks with
    | nil => rfl
    | cons k ks ih =>
      rw [List.map_cons, String.join_cons, ih, List.flatMap_cons, List.map_append]
      simp [stageLines, String.join_cons, String.append_assoc]
  rw [← Text.lines_join, ← hlisting]
  rfl

theorem notMem_commandLine_iff (k : Stage) (o : Options) (t : Toolchain) :
    '\n' ∉ (commandLine k o t).toList ↔ Free '\n' o t := by
  rw [free_iff (.inr rfl) k, commandLine, String.toList_append, List.mem_append,
    Text.mem_join_iff (by decide)]
  simp

theorem free_lines_iff (o : Options) (t : Toolchain) :
    (∀ line ∈ Stage.all.flatMap (stageLines o t), '\n' ∉ line.toList) ↔ Free '\n' o t := by
  constructor
  · intro h
    have hmem : commandLine .ast o t ∈ Stage.all.flatMap (stageLines o t) :=
      List.mem_flatMap.mpr ⟨.ast, Stage.mem_all _, by simp [stageLines]⟩
    exact (notMem_commandLine_iff .ast o t).mp (h _ hmem)
  · intro h line hline
    obtain ⟨k, -, hk⟩ := List.mem_flatMap.mp hline
    rcases List.mem_pair.mp hk with rfl | rfl
    · exact notMem_headline k o
    · exact (notMem_commandLine_iff k o t).mpr h

/-- Each stage has its two lines and no more where no line break is shown. -/
theorem length_lines_iff (o : Options) (t : Toolchain) :
    (Text.lines (stageListing o t)).length = 2 * Stage.all.length ↔ Free '\n' o t := by
  have hlength : (Stage.all.flatMap (stageLines o t)).length = 2 * Stage.all.length := rfl
  rw [lines_stageListing, ← hlength, Text.length_flatMap_pieces_eq_iff, free_lines_iff]

theorem lines_of_free (h : Free '\n' o t) :
    Text.lines (stageListing o t) = Stage.all.flatMap (stageLines o t) := by
  rw [lines_stageListing]
  exact Text.flatMap_pieces_of_notMem ((free_lines_iff o t).mpr h)

/-! ## What is run -/

/-- Whatever the compiler is started for, it is started with the command of its stage. -/
theorem commandLine_of_started {s : Settings} {runner : Runner} {h : Host}
    {first σ : Orchestrator.State} {e : Orchestrator.Start}
    (hstart : Orchestrator.State.start? s h = some first)
    (hσ : Orchestrator.Reachable s runner first σ) (he : e ∈ σ.started)
    (hpurpose : e.purpose = .compile) :
    ∃ call, σ.calls[e.ticket.call]? = some call ∧
      e.invocation.commandLine = e.ticket.stage.command call.request.options s.toolchain := by
  have htrailed := Orchestrator.trailed_of_reachable hstart hσ
  have hmem := Orchestrator.State.mem_startsOf he
  have hlt : e.ticket.call < σ.calls.length := by
    by_contra hge
    rw [htrailed.others e.ticket (Nat.not_lt.mp hge)] at hmem
    cases hmem
  obtain ⟨call, hcall⟩ : ∃ call, σ.calls[e.ticket.call]? = some call :=
    ⟨_, List.getElem?_eq_getElem hlt⟩
  obtain ⟨w, progress, htrails⟩ := htrailed.of_started hcall he rfl
  have hinvocation : e.invocation = Orchestrator.compilation s call.request e.ticket.stage w :=
    congrArg Orchestrator.Start.invocation
      ((htrails.trail e.ticket.stage).compilers e hmem hpurpose)
  refine ⟨call, hcall, ?_⟩
  rw [hinvocation]
  rfl

/-- **What the listing of stages shows.** A run that lists the stages for a configuration that can
be loaded prints two lines for each stage of the catalog in its order, its name and its command, if
no line break is shown of the toolchain; otherwise there are more lines. The command is the one that
the compiler is started with for a call with the same options. Lines for one stage that are the same
have the same command

* if they are for the same configuration;
* if they are for any two, and no name of a module with a blank is shown. -/
theorem stage_listing_shows_commands {h : Host} {config : Option Bytes} {c : Config}
    (hload : Config.load h config = .ok c) (o : Options) :
    (∀ p runners input arguments, readArguments arguments = .ok ⟨config, .listStages o⟩ →
      run p h runners input arguments =
        { exitCode := 0, output := stageListing o (Settings.ofConfig h c).toolchain, host := h }) ∧
    Lists (Settings.ofConfig h c) h o (stageListing o (Settings.ofConfig h c).toolchain) ∧
    ∀ k o' h' config' c', Config.load h' config' = .ok c' →
      (o.asLibrary = true → ' ' ∉ c.tools.moduleName.toList) →
      (o'.asLibrary = true → ' ' ∉ c'.tools.moduleName.toList) →
      commandLine k o (Settings.ofConfig h c).toolchain =
        commandLine k o' (Settings.ofConfig h' c').toolchain →
      k.command o (Settings.ofConfig h c).toolchain =
        k.command o' (Settings.ofConfig h' c').toolchain := by
  refine ⟨?_, ?_, ?_⟩
  · intro p runners input arguments harguments
    rw [run, harguments]
    dsimp only
    rw [listStages, hload]
  · refine ⟨length_lines_iff o _, lines_of_free, ?_, ?_⟩
    · intro runner first σ e hstart hσ he hpurpose
      exact commandLine_of_started hstart hσ he hpurpose
    · intro k o' hline
      exact command_eq_of_commandLine_eq_self hline
  · intro k o' h' config' c' _ hname hname' hline
    exact command_eq_of_commandLine_eq hname hname' hline

/-- A host with a configuration that names the module. -/
def naming (name : String) : Host :=
  let folder := Text.bytes ".silscope"
  let text := "[toolchain]\nmodule_name = \"" ++ name ++ "\"\n"
  { tree := ⟨[([folder], .directory), ([folder, Text.bytes "config.toml"],
      .file (Text.bytes text) false)]⟩ }

/-- What is loaded there. -/
def namingConfig (name : String) : Config := { tools := { moduleName := name } }

/-- The toolchain of the configuration. -/
def namingToolchain (name : String) : Toolchain :=
  (Settings.ofConfig (naming name) (namingConfig name)).toolchain

/-- The arguments that list the stages for a library. -/
def listingWords : List Octets := ["stages", "--parse-as-library"].map Octets.ofText

/-- The listings of two modules. -/
theorem stage_listing_shows_commands_named :
    Config.load (naming "A") none = .ok (namingConfig "A") ∧
    Config.load (naming "B") none = .ok (namingConfig "B") ∧
    readArguments listingWords = .ok ⟨none, .listStages { asLibrary := true }⟩ ∧
    (∀ p runners input, (run p (naming "A") runners input listingWords).output =
      stageListing { asLibrary := true } (namingToolchain "A")) ∧
    (Text.lines (stageListing { asLibrary := true } (namingToolchain "A"))).length = 12 ∧
    ∀ k o', commandLine k { asLibrary := true } (namingToolchain "A") =
        commandLine k o' (namingToolchain "B") →
      k.command { asLibrary := true } (namingToolchain "A") =
        k.command o' (namingToolchain "B") := by
  have hloadA : Config.load (naming "A") none = .ok (namingConfig "A") := by decide +kernel
  have hloadB : Config.load (naming "B") none = .ok (namingConfig "B") := by decide +kernel
  have harguments : readArguments listingWords = .ok ⟨none, .listStages { asLibrary := true }⟩ := by
    decide +kernel
  have hfree : Free '\n' { asLibrary := true } (namingToolchain "A") :=
    ⟨by decide +kernel, fun _ => by decide +kernel⟩
  obtain ⟨hrun, hlists, htell⟩ := stage_listing_shows_commands hloadA { asLibrary := true }
  refine ⟨hloadA, hloadB, harguments, fun p runners input => ?_, hlists.length_iff.mpr hfree, ?_⟩
  · rw [hrun p runners input listingWords harguments]
    rfl
  · intro k o' hline
    exact htell k o' _ _ _ hloadB (fun _ => by decide +kernel) (fun _ => by decide +kernel) hline

/-- A name with a blank looks like a name and a flag, so that two commands have one line; a name
with a line break makes lines too many. -/
theorem stage_listing_is_ambiguous :
    Config.load (naming "A -O") none = .ok (namingConfig "A -O") ∧
    Config.load (naming "A") none = .ok (namingConfig "A") ∧
    commandLine .ir { asLibrary := true } (namingToolchain "A -O") =
      commandLine .ir { asLibrary := true, optimize := true } (namingToolchain "A") ∧
    Stage.ir.command { asLibrary := true } (namingToolchain "A -O") ≠
      Stage.ir.command { asLibrary := true, optimize := true } (namingToolchain "A") ∧
    Config.load (naming "A\\nB") none = .ok (namingConfig "A\nB") ∧
    (Text.lines (stageListing { asLibrary := true }
      (Settings.ofConfig (naming "A\\nB") (namingConfig "A\nB")).toolchain)).length ≠
        2 * Stage.all.length := by
  refine ⟨by decide +kernel, by decide +kernel, by decide +kernel, by decide +kernel,
    by decide +kernel, fun hlines => ?_⟩
  exact ((length_lines_iff _ _).mp hlines).moduleName rfl (by decide +kernel)

end StageLens.CommandLine
