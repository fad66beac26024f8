import StageLens.Proofs.CommandLine.Display
import StageLens.Proofs.Config.Selection
import StageLens.Proofs.Json.Documents
import StageLens.Proofs.Orchestrator.Refusals
import StageLens.Proofs.Orchestrator.Startup
import StageLens.Proofs.Text.Decoding

/-!
# How a compilation on the command line ends

A run reads its input, loads its configuration, checks the source and makes a workspace, and the
first of these that fails decides the exit code. What a run finds is told from the host, the input
and the arguments alone (`Finds`); something is found in any case (`exists_finds`), and each finding
leads to its own exit codes and leaves what `Aftermath` says.
-/

namespace StageLens

namespace Host

variable {h : Host} {p : Bytes}

theorem readText_eq_ok_iff {s : String} : h.readText p = .ok s ↔ h.read p = .ok (Text.bytes s) := by
  unfold readText
  rw [bind_eq_ok_iff]
  constructor
  · rintro ⟨contents, hread, htext⟩
    split at htext
    · rename_i s' hs'
      obtain rfl := Except.ok.inj htext
      rw [hread, Text.decode?_eq_some_iff.mp hs']
    · cases htext
  · intro hread
    exact ⟨_, hread, by rw [Text.decode?_eq_some_iff.mpr rfl]⟩

/-- What can be read is there. -/
theorem exists?_of_read {contents : Bytes} (hread : h.read p = .ok contents) :
    h.exists? p = true := by
  obtain ⟨r, hfind, hnode⟩ := bind_eq_ok_iff.mp hread
  cases r with
  | there place n =>
    unfold exists? node?
    rw [hfind]
    rfl
  | missing directory name => cases hnode

end Host

namespace CommandLine

open Orchestrator (Returns Settings Schedule State Refusal)

/-! ## What a run finds -/

/-- A file is named as the input, and there is none. A path that stands for standard input names no
file. -/
def InputMissing (h : Host) (path : Option Bytes) : Prop :=
  ∃ p, path = some p ∧ isStandardInput p = false ∧ h.exists? p = false

/-- The text that is the input: the contents of the file that is named, or what comes on standard
input. -/
inductive IsSource (h : Host) (input : Bytes) : Option Bytes → String → Prop
  | unnamed (source : String) : input = Text.bytes source → IsSource h input none source
  | dash (p : Bytes) (source : String) : isStandardInput p = true → input = Text.bytes source →
      IsSource h input (some p) source
  | file (p : Bytes) (source : String) : isStandardInput p = false →
      h.read p = .ok (Text.bytes source) → IsSource h input (some p) source

/-- A source has been read and a configuration loaded. -/
structure Prepared (h : Host) (input : Bytes) (config path : Option Bytes) (source : String)
    (c : Config) : Prop where
  source : IsSource h input path source
  config : Config.load h config = .ok c

/-- What decides how a run ends. -/
inductive Finding where
  | inputMissing
  | inputUnreadable
  | misconfigured
  | invalid
  | homeless
  | answered
  deriving DecidableEq, Repr

/-- The exit codes of a run that finds this. -/
def Finding.exitCodes : Finding → List Nat
  | inputMissing => [66]
  | inputUnreadable => [74]
  | misconfigured => [78]
  | invalid => [65]
  | homeless => [73]
  | answered => [0, 1]

/-- What a run finds: the first thing that is wrong, or nothing. -/
inductive Finds (h : Host) (input : Bytes) (config path : Option Bytes) (o : Options) :
    Finding → Prop
  | inputMissing : InputMissing h path → Finds h input config path o .inputMissing
  | inputUnreadable : ¬ InputMissing h path → (∀ source, ¬ IsSource h input path source) →
      Finds h input config path o .inputUnreadable
  | misconfigured (source : String) (e : Config.Failure) : IsSource h input path source →
      Config.load h config = .error e → Finds h input config path o .misconfigured
  | invalid (source : String) (c : Config) : Prepared h input config path source c →
      (⟨source, o⟩ : Request).IsBlank ∨ c.limits.sourceBytes < source.utf8ByteSize →
      Finds h input config path o .invalid
  | homeless (source : String) (c : Config) (e : Workspace.Failure) :
      Prepared h input config path source c →
      ¬ (⟨source, o⟩ : Request).IsBlank ∧ source.utf8ByteSize ≤ c.limits.sourceBytes →
      (Workspace.create h c.scratchRoot source).1 = .error e →
      Finds h input config path o .homeless
  | answered (source : String) (c : Config) (w : Workspace) :
      Prepared h input config path source c →
      ¬ (⟨source, o⟩ : Request).IsBlank ∧ source.utf8ByteSize ≤ c.limits.sourceBytes →
      (Workspace.create h c.scratchRoot source).1 = .ok w →
      Finds h input config path o .answered

/-- How a run ends that finds this, and what it leaves. -/
structure Aftermath (h : Host) (config : Option Bytes) (stages : List Stage) (f : Format)
    (x : Finding) (out : Outcome) : Prop where
  code : out.exitCode ∈ x.exitCodes
  /-- Where something is wrong nothing is printed and no process is started. -/
  silent : x ≠ .answered → out.output = "" ∧ out.started = []
  untouched : x ≠ .answered → x ≠ .homeless → out.host = h
  /-- Of a workspace that could not be made nothing is left. -/
  undone : x = .homeless → ∃ c, Config.load h config = .ok c ∧
    Workspace.Undone c.scratchRoot h out.host
  /-- A response is always printed, and as JSON it is read back as what was displayed. -/
  printed : x = .answered → ∃ m, Returns m ∧ render f (m.select stages) = .ok out.output ∧
    (f = .json → Wire.document Wire.readResponse out.output.toList = .ok (m.select stages))

variable {h : Host} {input : Bytes} {config path : Option Bytes} {o : Options} {source : String}
variable {stages : List Stage} {f : Format} {x : Finding} {out : Outcome} {c : Config}
variable {s : Settings} {runner : Runner} {runners : Nat → Runner} {first : State} {r : Request}
variable {arguments : List Octets} {e : Refusal} {m : Response}

/-! ## Reading the input -/

theorem readStandardInput_eq_ok_iff :
    readStandardInput input = .ok source ↔ input = Text.bytes source := by
  rw [← Text.decode?_eq_some_iff]
  unfold readStandardInput
  split
  · rename_i s hs
    rw [hs, Except.ok.injEq, Option.some.injEq]
  · rename_i hs
    rw [hs]
    exact ⟨nofun, nofun⟩

theorem readSource_eq_ok_iff : readSource h input path = .ok source ↔
    IsSource h input path source := by
  constructor
  · intro hread
    unfold readSource at hread
    split at hread
    · exact .unnamed source (readStandardInput_eq_ok_iff.mp hread)
    · rename_i p
      split at hread
      · rename_i hdash
        exact .dash p source hdash (readStandardInput_eq_ok_iff.mp hread)
      · rename_i hdash
        split at hread
        · split at hread
          · rename_i s hs
            obtain rfl := Except.ok.inj hread
            exact .file p s (by simpa using hdash) (Host.readText_eq_ok_iff.mp hs)
          · cases hread
        · cases hread
  · intro hsource
    unfold readSource
    cases hsource with
    | unnamed _ hinput => exact readStandardInput_eq_ok_iff.mpr hinput
    | dash p _ hdash hinput =>
      dsimp only
      rw [if_pos hdash]
      exact readStandardInput_eq_ok_iff.mpr hinput
    | file p _ hdash hread =>
      dsimp only
      rw [hdash, if_neg Bool.false_ne_true, if_pos (Host.exists?_of_read hread),
        Host.readText_eq_ok_iff.mpr hread]

theorem readSource_of_missing (input : Bytes) (hmissing : InputMissing h path) :
    ∃ p, readSource h input path = .error (.inputMissing p) := by
  obtain ⟨p, rfl, hdash, hnone⟩ := hmissing
  unfold readSource
  dsimp only
  rw [hdash, if_neg Bool.false_ne_true, hnone, if_neg Bool.false_ne_true]
  exact ⟨p, rfl⟩

/-- Reading the input fails because its file is missing, or because it is no text. -/
theorem readSource_error {complaint : Complaint}
    (hread : readSource h input path = .error complaint) :
    InputMissing h path ∨ ∃ cause, complaint = .input cause := by
  have hstandard : readStandardInput input = .error complaint →
      ∃ cause, complaint = .input cause := by
    intro hread
    unfold readStandardInput at hread
    split at hread
    · cases hread
    · exact ⟨_, (Except.error.inj hread).symm⟩
  unfold readSource at hread
  split at hread
  · exact .inr (hstandard hread)
  rename_i p
  split at hread
  · exact .inr (hstandard hread)
  rename_i hdash
  split at hread
  · split at hread
    · cases hread
    · exact .inr ⟨_, (Except.error.inj hread).symm⟩
  · rename_i hnone
    exact .inl ⟨p, rfl, by simpa using hdash, by simpa using hnone⟩

/-! ## Something is found -/

theorem exists_finds (h : Host) (input : Bytes) (config path : Option Bytes) (o : Options) :
    ∃ x, Finds h input config path o x := by
  by_cases hmissing : InputMissing h path
  · exact ⟨_, .inputMissing hmissing⟩
  by_cases hsource : ∃ source, IsSource h input path source
  swap
  · exact ⟨_, .inputUnreadable hmissing (not_exists.mp hsource)⟩
  obtain ⟨source, hsource⟩ := hsource
  cases hload : Config.load h config with
  | error e => exact ⟨_, .misconfigured source e hsource hload⟩
  | ok c =>
    by_cases hvalid : ¬ (⟨source, o⟩ : Request).IsBlank ∧
        source.utf8ByteSize ≤ c.limits.sourceBytes
    swap
    · refine ⟨_, .invalid source c ⟨hsource, hload⟩ ?_⟩
      rwa [not_and_or, not_not, Nat.not_le] at hvalid
    cases hcreate : (Workspace.create h c.scratchRoot source).1 with
    | error e => exact ⟨_, .homeless source c e ⟨hsource, hload⟩ hvalid hcreate⟩
    | ok w => exact ⟨_, .answered source c w ⟨hsource, hload⟩ hvalid hcreate⟩

/-- The finding that an exit code tells of. -/
def Finding.ofExitCode? : Nat → Option Finding
  | 66 => some .inputMissing
  | 74 => some .inputUnreadable
  | 78 => some .misconfigured
  | 65 => some .invalid
  | 73 => some .homeless
  | 0 | 1 => some .answered
  | _ => none

theorem Finding.ofExitCode?_of_mem {code : Nat} (hx : code ∈ x.exitCodes) :
    ofExitCode? code = some x := by
  cases x with
  | answered => rcases List.mem_pair.mp hx with rfl | rfl <;> rfl
  | _ =>
    obtain rfl := List.mem_singleton.mp hx
    rfl

/-! ## What a finding leads to -/

/-- A complaint before the orchestrator is asked leaves everything as it was. -/
theorem aftermath_failed {complaint : Complaint} (hcode : complaint.exitCode ∈ x.exitCodes)
    (hanswered : x ≠ .answered) (hhomeless : x ≠ .homeless) :
    Aftermath h config stages f x (.failed complaint h) where
  code := hcode
  silent _ := ⟨rfl, rfl⟩
  untouched _ _ := rfl
  undone hx := absurd hx hhomeless
  printed hx := absurd hx hanswered

/-- A request that is refused at once starts nothing. -/
theorem answer_refused {host : Host} {events : List Event}
    (hstart : State.start? s h = some first)
    (hsubmit : Orchestrator.submit s first r =
      ({ first with host }.enroll r (.returned (.error e))).report events) :
    answer s runner first r stages f = .failed (.refused e) host := by
  have hrefused : (Orchestrator.submit s first r).calls = [⟨r, .returned (.error e)⟩] := by
    rw [hsubmit]
    show first.calls ++ _ = _
    rw [Orchestrator.calls_of_start hstart]
    rfl
  have hanswer := Schedule.answer_of_refused runner hrefused
    (Orchestrator.calls_of_start hstart)
  have hstarted : first.started = [] := by
    obtain ⟨g, -, rfl⟩ := Option.map_eq_some_iff.mp hstart
    rfl
  unfold answer
  rw [hanswer, hsubmit]
  show { Outcome.failed (.refused e) host with started := first.started } = _
  rw [hstarted]
  rfl

/-- What is printed as JSON is read back. -/
theorem document_render {output : String} (hm : m.keys.Nodup)
    (houtput : render .json m = .ok output) :
    Wire.document Wire.readResponse output.toList = .ok m := by
  rw [render_json] at houtput
  obtain rfl := Except.ok.inj houtput
  rw [Wire.document_of_read (Json.read_pretty_line _), Wire.readResponse_draft hm]

/-- A response that is shown is printed in full. -/
theorem aftermath_shown {m : Response} {σ : State} (hm : Returns m) :
    Aftermath h config stages f .answered (shown stages f m σ) := by
  have hdisplay : Displays stages m (m.select stages) := by
    obtain ⟨results, hentries⟩ := hm.exists_results
    exact displays_select hentries
  have hnodup : (m.select stages).keys.Nodup := by
    rw [hdisplay.keys]
    exact Stage.all_nodup.filter _
  obtain ⟨output, houtput, hshown⟩ := exists_shown stages f m σ
  rw [hshown]
  constructor
  case code =>
    show (if (m.select stages).allSucceeded then 0 else 1) ∈ [0, 1]
    split <;> decide
  case printed =>
    refine fun _ => ⟨m, hm, houtput, ?_⟩
    rintro rfl
    exact document_render hnodup houtput
  case undone => exact nofun
  all_goals exact fun hx => absurd rfl hx

/-- A request that is not valid is refused before anything is touched. -/
theorem aftermath_invalid {invalid : Invalid} (hstart : State.start? s h = some first)
    (hinvalid : r.invalid? s.sourceLimit = some invalid) :
    Aftermath h config stages f .invalid (answer s runner first r stages f) := by
  have hsubmit : Orchestrator.submit s first r =
      (first.enroll r (.returned (.error (.invalid invalid)))).report [.requestRejected] := by
    unfold Orchestrator.submit
    rw [hinvalid]
  rw [answer_refused hstart hsubmit, Orchestrator.host_of_start hstart]
  exact aftermath_failed (List.mem_singleton_self _) (by decide) (by decide)

/-- Where there is no workspace for a request, nothing of one is left. -/
theorem aftermath_homeless {failure : Workspace.Failure} (hstart : State.start? s h = some first)
    (ht : h.tree.Proper) (hload : Config.load h config = .ok c)
    (hroot : s.scratchRoot = c.scratchRoot) (hvalid : r.invalid? s.sourceLimit = none)
    (hcreate : (Workspace.create h s.scratchRoot r.source).1 = .error failure) :
    Aftermath h config stages f .homeless (answer s runner first r stages f) := by
  have hmade : Workspace.create first.host s.scratchRoot r.source =
      (.error failure, (Workspace.create h s.scratchRoot r.source).2) := by
    rw [Orchestrator.host_of_start hstart, ← hcreate]
  have hsubmit : Orchestrator.submit s first r =
      ({ first with host := (Workspace.create h s.scratchRoot r.source).2 }.enroll r
        (.returned (.error (.workspace failure)))).report [.workspaceFailed] := by
    unfold Orchestrator.submit
    rw [hvalid, hmade]
  have hundone : Workspace.Undone c.scratchRoot h
      (Workspace.create h s.scratchRoot r.source).2 := by
    rw [← hroot]
    exact Workspace.undone_of_create_error ht (Prod.ext hcreate rfl)
  rw [answer_refused hstart hsubmit]
  constructor
  case code => exact List.mem_singleton_self _
  case silent => exact fun _ => ⟨rfl, rfl⟩
  case untouched => exact fun _ hx => absurd rfl hx
  case undone => exact fun _ => ⟨c, hload, hundone⟩
  case printed => exact nofun

/-- A request that has its workspace is answered by the clock. -/
theorem aftermath_answered {w : Workspace} (hstart : State.start? s h = some first)
    (hends : ∀ i g, (runner i g).ending.isSome = true) (hcapacity : 0 < s.capacity)
    (hvalid : r.invalid? s.sourceLimit = none)
    (hcreate : (Workspace.create h s.scratchRoot r.source).1 = .ok w) :
    Aftermath h config stages f .answered (answer s runner first r stages f) := by
  have hheld : first.held < s.capacity := by
    rw [Orchestrator.held_of_start hstart]
    exact hcapacity
  obtain ⟨d, a, hanswer, hlater, hcall, -⟩ :=
    Schedule.exists_answer hstart hends .start hheld r
  -- The answer was decided when the request came, and it is no refusal.
  have hreply := (Orchestrator.reply_of_reachable hlater hcall).1
  rw [Orchestrator.host_of_start hstart] at hreply
  have hserved : ∃ response, a = .ok response := by
    cases hreply with
    | invalid e he => simp [hvalid] at he
    | homeless e _ he => simp [hcreate] at he
    | served w response _ _ => exact ⟨response, rfl⟩
  obtain ⟨response, rfl⟩ := hserved
  have hnone : (answer s runner first r stages f).complaint = none := by
    unfold answer
    rw [hanswer]
    exact complaint_shown stages f response d.state
  obtain ⟨m, σ, hm, hshown⟩ := exists_returns_of_answer hstart hnone
  rw [hshown]
  exact aftermath_shown hm

/-! ## What a run leads to -/

variable {p : Platform}

/-- Where a source has been read and a configuration loaded, a run makes its request. -/
theorem exists_run_eq_answer (runners : Nat → Runner)
    (hprepared : Prepared h input config path source c)
    (hcapacity : c.limits.invocations ≤ Gate.greatestCapacity) :
    ∃ first, State.start? (Settings.ofConfig h c) h = some first ∧
      compile h runners input config path o stages f =
        answer (Settings.ofConfig h c) (runners c.limits.outputBytes) first ⟨source, o⟩
          stages f := by
  obtain ⟨first, hstart⟩ := Option.isSome_iff_exists.mp
    (Orchestrator.isSome_start?_iff.mpr hcapacity :
      (State.start? (Settings.ofConfig h c) h).isSome = true)
  refine ⟨first, hstart, ?_⟩
  unfold compile
  rw [readSource_eq_ok_iff.mpr hprepared.source, hprepared.config]
  dsimp only
  rw [hstart]

theorem aftermath_of_finds (ht : h.tree.Proper)
    (hends : ∀ limit i g, (runners limit i g).ending.isSome = true)
    (hcapacity : ∀ c, Config.load h config = .ok c → c.limits.invocations ≤ Gate.greatestCapacity)
    (hfinds : Finds h input config path o x) :
    Aftermath h config stages f x (compile h runners input config path o stages f) := by
  cases hfinds with
  | inputMissing hmissing =>
    obtain ⟨p, hread⟩ := readSource_of_missing input hmissing
    unfold compile
    rw [hread]
    exact aftermath_failed (List.mem_singleton_self _) (by decide) (by decide)
  | inputUnreadable hthere hnone =>
    cases hread : readSource h input path with
    | ok source => exact absurd (readSource_eq_ok_iff.mp hread) (hnone source)
    | error complaint =>
      obtain ⟨cause, rfl⟩ := (readSource_error hread).resolve_left hthere
      unfold compile
      rw [hread]
      exact aftermath_failed (List.mem_singleton_self _) (by decide) (by decide)
  | misconfigured source e hsource hload =>
    unfold compile
    rw [readSource_eq_ok_iff.mpr hsource, hload]
    exact aftermath_failed (List.mem_singleton_self _) (by decide) (by decide)
  | invalid source c hprepared hwrong =>
    obtain ⟨first, hstart, hrun⟩ :=
      exists_run_eq_answer runners hprepared (hcapacity c hprepared.config)
    have hinvalid : (⟨source, o⟩ : Request).invalid? c.limits.sourceBytes ≠ none := by
      rw [Ne, Request.invalid?_eq_none_iff, not_and_or, not_not, Nat.not_le]
      exact hwrong
    obtain ⟨e, he⟩ := Option.ne_none_iff_exists'.mp hinvalid
    rw [hrun]
    exact aftermath_invalid hstart he
  | homeless source c e hprepared hvalid hcreate =>
    obtain ⟨first, hstart, hrun⟩ :=
      exists_run_eq_answer runners hprepared (hcapacity c hprepared.config)
    rw [hrun]
    exact aftermath_homeless hstart ht hprepared.config rfl
      (Request.invalid?_eq_none_iff.mpr hvalid) hcreate
  | answered source c w hprepared hvalid hcreate =>
    obtain ⟨first, hstart, hrun⟩ :=
      exists_run_eq_answer runners hprepared (hcapacity c hprepared.config)
    rw [hrun]
    exact aftermath_answered hstart (hends _) (Config.usable_of_load hprepared.config).invocations
      (Request.invalid?_eq_none_iff.mpr hvalid) hcreate

/-- **The first failure decides the exit code.** Whatever the input, the files and the configuration
are, and however the runs end, as long as they do: the exit code of a compilation tells what it has
found, and what it has found has its exit code. So a file that is missing comes before an input that
is no text, that before a configuration that cannot be loaded, that before a source that is blank or
too large, and that before a workspace that cannot be made. There is no other way to fail: a
response can always be printed, so that the exit code for one that cannot, 70, never comes up. Where
something is wrong nothing is printed, no process is started, and nothing is left of a workspace. -/
theorem first_failure_decides_exit_code (p : Platform) (input : Bytes) (ht : h.tree.Proper)
    (harguments : readArguments arguments = .ok ⟨config, .compile path o stages f⟩)
    (hends : ∀ limit i g, (runners limit i g).ending.isSome = true)
    (hcapacity : ∀ c, Config.load h config = .ok c → c.limits.invocations ≤ 2 ^ 61 - 1) :
    let out := run p h runners input arguments
    (∀ x : Finding, out.exitCode ∈ x.exitCodes ↔ Finds h input config path o x) ∧
    (∃ x, Aftermath h config stages f x out) ∧ out.exitCode ≠ 70 := by
  intro out
  have hout : out = compile h runners input config path o stages f := by
    show run p h runners input arguments = _
    rw [run, harguments]
  have hleads : ∀ x, Finds h input config path o x → Aftermath h config stages f x out := by
    intro x hx
    rw [hout]
    exact aftermath_of_finds ht hends hcapacity hx
  -- Something is found in any case, and its exit codes are those of no other finding.
  obtain ⟨found, hfound⟩ := exists_finds h input config path o
  have hafter := hleads found hfound
  have htells := Finding.ofExitCode?_of_mem hafter.code
  refine ⟨fun x => ⟨fun hx => ?_, fun hx => (hleads x hx).code⟩, ⟨found, hafter⟩, fun hcode => ?_⟩
  · rw [Finding.ofExitCode?_of_mem hx] at htells
    obtain rfl := Option.some.inj htells
    exact hfound
  · rw [hcode] at htells
    cases htells

/-- A host without room for files, whose configuration asks for a scratch directory that has to be
made. -/
def crowdedHost : Host :=
  { Orchestrator.fullHost with
    tree := ⟨[([Text.bytes ".silscope"], .directory),
      ([Text.bytes ".silscope", Text.bytes "config.toml"],
        .file (Text.bytes "[workspace]\nscratch_root = \"a/b\"\n") false)]⟩ }

/-- The source on standard input is good and the configuration is loaded, but there is no room for
the source in a workspace: the scratch directory stays, and nothing is in it. -/
theorem first_failure_decides_exit_code_crowded :
    let path := Text.bytes "-"
    let out := run ⟨"x86_64", "linux"⟩ crowdedHost
      (fun _ => Orchestrator.prompt Orchestrator.treeless) (Text.bytes "let x = 1")
      [Octets.ofText "compile", Octets.ofText "-"]
    out.exitCode = 73 ∧ out.host.entries (Text.bytes "/a/b") = .ok [] ∧
    Finds crowdedHost (Text.bytes "let x = 1") none (some path) {} .homeless ∧
    ∃ x, Aftermath crowdedHost none [] .text x out := by
  intro path out
  have hview : out.exitCode = 73 ∧ out.host.entries (Text.bytes "/a/b") = .ok [] := by
    decide +kernel
  have ht : crowdedHost.tree.Proper := Tree.proper_of_entries (by decide +kernel)
  have harguments : readArguments [Octets.ofText "compile", Octets.ofText "-"] =
      .ok ⟨none, .compile (some path) {} [] .text⟩ := by
    decide +kernel
  have hload : Config.load crowdedHost none = .ok { scratchRoot := some (Text.bytes "a/b") } := by
    decide +kernel
  have hcapacity : ∀ c, Config.load crowdedHost none = .ok c →
      c.limits.invocations ≤ 2 ^ 61 - 1 := by
    intro c hc
    rw [hload] at hc
    obtain rfl := Except.ok.inj hc
    decide
  let runners : Nat → Runner := fun _ => Orchestrator.prompt Orchestrator.treeless
  have hends : ∀ limit i g, (runners limit i g).ending.isSome = true := fun _ _ _ => rfl
  obtain ⟨hfinds, hafter, -⟩ := first_failure_decides_exit_code ⟨"x86_64", "linux"⟩
    (Text.bytes "let x = 1") ht harguments hends hcapacity
  refine ⟨hview.1, hview.2, (hfinds .homeless).mp ?_, hafter⟩
  show out.exitCode ∈ [73]
  rw [hview.1]
  exact List.mem_singleton_self _

end CommandLine

end StageLens
