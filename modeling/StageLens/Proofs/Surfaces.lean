import StageLens.CommandLine.Basic
import StageLens.Proofs.CommandLine.Display
import StageLens.Proofs.Json.Documents
import StageLens.Proofs.Orchestrator.Answers
import StageLens.Proofs.Orchestrator.Journals
import StageLens.Proofs.Orchestrator.Startup
import StageLens.Proofs.Stage.Response
import StageLens.Proofs.Wire.Request
import StageLens.Proofs.Workspace.OtherNames
import StageLens.Server.Service

/-!
# The service and the command line

A request can be posted to the service or made on the command line. Both hand it to an orchestrator
and make what they say of the answer alone (`reply_of_posts`, `run_of_requests`), so that it is
enough to compare two answers. Each of them is the answer of the request on its host
(`Schedule.answer_eq`), and where the hosts are alike the two answers differ in no more than the
name of a workspace (`sameAnswer_answerOn`). What follows from that is read off the answers, one case for
each kind (`Agree`).
-/

namespace StageLens

open CommandLine (Platform)
open Orchestrator (Settings Schedule State Refusal Behaves Task Move answerOn)
open Workspace (SameOutcome BlindToNames nextName)

/-! ## What each side makes of an answer -/

namespace Server

/-- A message that posts a request: as JSON, in a body that is not too large. -/
structure Posts (limit : Nat) (m : Message) (r : Request) : Prop where
  method : m.method = "POST"
  route : Route.ofTarget? m.target = some .compile
  isJson : isJson m = true
  size : m.body.length ≤ limit
  request : Wire.document Wire.readRequest (characters m.body) = .ok r

variable {s : Settings} {f : Task → Ending} {runner : Runner} {c d : Schedule} {m : Message}
variable {r : Request} {a : Except Refusal Response} {first : State} {h h₀ : Host}

theorem Posts.read {limit : Nat} (h : Posts limit m r) : read limit m = .compile r := by
  have hbody : readBody limit m = .ok r := by
    rw [readBody, h.isJson, if_neg (by decide), if_neg (Nat.not_lt.mpr h.size), h.request]
  unfold Server.read
  dsimp only
  rw [h.method, h.route, if_neg (by decide)]
  dsimp only
  rw [if_neg (by decide), hbody]

/-- A response is always written. -/
theorem replyOf_ok (m : Response) :
    replyOf (.ok m) = { status := 200, content := .json (Wire.ofResponse m) } := by
  unfold replyOf
  dsimp only
  rw [Wire.json?_responseDatum]

/-- The reply to a request that is posted is made of its answer. -/
theorem reply_of_posts (h : Posts (bodyLimit s.sourceLimit) m r)
    (ha : c.answer s runner [(r, none)] = (d, [.returned a])) :
    (serve s runner c m).2 = some (replyOf a) := by
  rw [serve, h.read]
  dsimp only
  rw [ha]

/-! ## A service in the course of time -/

/-- The schedules that a service comes to: calls and others make their moves, time goes by, and
messages are served. -/
inductive Life (s : Settings) (runner : Runner) (first : State) : Schedule → Prop
  | start : Life s runner first { state := first }
  | move {c d : Schedule} (m : Move) : Life s runner first c →
      Schedule.take s runner c m = some d → Life s runner first d
  | wait {c : Schedule} (now : Nat) : Life s runner first c →
      Life s runner first { c with now }
  | serve {c : Schedule} (m : Message) : Life s runner first c →
      Life s runner first (serve s runner c m).1

/-- But for its journal, a service is at a schedule that moves and waiting lead to. -/
theorem Life.arises (hc : Life s runner first c) :
    ∃ b, Schedule.Arises s runner first b ∧ c.silent = b.silent := by
  induction hc with
  | start => exact ⟨_, .start, rfl⟩
  | move m _ htake ih =>
    obtain ⟨b, hb, hsame⟩ := ih
    rcases Schedule.take_cases s runner hsame m with ⟨hnone, -⟩ | ⟨c', b', hc', hb', hnext⟩
    · rw [hnone] at htake
      cases htake
    · rw [hc'] at htake
      obtain rfl := Option.some.inj htake
      exact ⟨b', .move m hb hb', hnext⟩
  | wait now _ ih =>
    obtain ⟨b, hb, hsame⟩ := ih
    exact ⟨{ b with now }, .wait now hb, congrArg (fun c : Schedule => { c with now }) hsame⟩
  | @serve c m _ ih =>
    obtain ⟨b, hb, hsame⟩ := ih
    cases hread : read (bodyLimit s.sourceLimit) m with
    | reply reply =>
      have hserve : Server.serve s runner c m = (c, some reply) := by
        unfold Server.serve
        rw [hread]
      exact ⟨b, hb, by rw [hserve]; exact hsame⟩
    | compile r =>
      refine ⟨_, hb.answer r, ?_⟩
      rw [← (Schedule.answer_congr s runner [(r, none)] hsame).1]
      unfold Server.serve
      rw [hread]
      dsimp only
      split
      · rename_i hanswer
        rw [hanswer]
        rfl
      · rename_i hanswer
        rw [hanswer]

/-- A service that is open: it has started on a host, the gate is not closed, and others leave a
permit. Services start with no more permits than a gate can have. -/
structure Open (s : Settings) (runner : Runner) (h₀ : Host) (c : Schedule) : Prop where
  life : ∃ first, State.start? s h₀ = some first ∧ Life s runner first c
  isOpen : c.state.gate.closed = false
  spare : c.state.held < s.capacity

/-- An open service gives each request its answer. -/
theorem Open.exists_answer (hopen : Open s runner h₀ c)
    (ht : h₀.tree.Proper) (hbehaves : Behaves f s.scratchRoot runner) (r : Request) :
    ∃ d, c.answer s runner [(r, none)] = (d, [.returned (answerOn s f c.state.host r)]) := by
  obtain ⟨first, hstart, hlife⟩ := hopen.life
  obtain ⟨b, hb, hsame⟩ := hlife.arises
  have hstate : ∀ {α : Type} (g : State → α), (∀ σ, g σ.silent = g σ) → g b.state = g c.state :=
    fun g hg => Schedule.eq_of_silent (fun c => g c.state) (fun c => hg c.state) hsame.symm
  have hclosed : b.state.gate.closed = false := by
    rw [hstate (·.gate.closed) fun _ => rfl]
    exact hopen.isOpen
  have hspare : b.state.held < s.capacity := by
    rw [hstate (·.held) fun _ => rfl]
    exact hopen.spare
  obtain ⟨d, hd⟩ := Schedule.answer_eq hstart ht hbehaves hb hclosed hspare r
  have hphases := (Schedule.answer_congr s runner [(r, none)] hsame).2
  rw [hd, hstate (·.host) fun _ => rfl] at hphases
  exact ⟨_, Prod.ext rfl hphases⟩

end Server

namespace CommandLine

/-- Arguments and input that make a request, for all stages as JSON. -/
def Requests (h : Host) (input : Bytes) (arguments : List Octets) (config : Option Bytes)
    (r : Request) : Prop :=
  ∃ path, readArguments arguments = .ok ⟨config, .compile path r.options [] .json⟩ ∧
    readSource h input path = .ok r.source

/-- Words that ask for all stages as JSON of what comes on standard input. -/
def words (o : Options) : List Octets :=
  (["compile", "--format", "json"] ++ (if o.demangle then ["--demangle"] else []) ++
    (if o.optimize then ["-O"] else []) ++ (if o.wholeModule then ["--wmo"] else []) ++
    if o.asLibrary then ["--parse-as-library"] else []).map Octets.ofText

/-- Every combination of options can be asked for. -/
theorem readArguments_words (o : Options) :
    readArguments (words o) = .ok ⟨none, .compile none o [] .json⟩ := by
  obtain ⟨demangle, optimize, wholeModule, asLibrary⟩ := o
  revert demangle optimize wholeModule asLibrary
  decide +kernel

/-- The outcome of an answer. -/
def outcomeOf (a : Except Refusal Response) (σ : State) : Outcome :=
  match a with
  | .ok m => shown [] .json m σ
  | .error e => { Outcome.failed (.refused e) σ.host with started := σ.started }

variable {h : Host} {runners : Nat → Runner} {input : Bytes} {arguments : List Octets}
variable {config : Option Bytes} {cfg : Config} {r : Request} {first : State} {d : Schedule}
variable {a : Except Refusal Response} {s : Settings} {f : Task → Ending} {runner : Runner}

theorem outcomeOf_ok (m : Response) (σ : State) :
    outcomeOf (.ok m) σ =
      { exitCode := if m.allSucceeded then 0 else 1, output := (Wire.ofResponse m).pretty ++ "\n"
        host := σ.host, started := σ.started } := by
  -- Without a filter the whole response is displayed.
  obtain ⟨output, (houtput : render .json m = .ok output), hshown⟩ := exists_shown [] .json m σ
  rw [render_json] at houtput
  obtain rfl := Except.ok.inj houtput
  exact hshown

/-- The outcome of a run that makes a request is made of its answer. -/
theorem run_of_requests (p : Platform) (hr : Requests h input arguments config r)
    (hload : Config.load h config = .ok cfg)
    (hstart : State.start? (Settings.ofConfig h cfg) h = some first)
    (ha : ({ state := first } : Schedule).answer (Settings.ofConfig h cfg)
      (runners cfg.limits.outputBytes) [(r, none)] = (d, [.returned a])) :
    run p h runners input arguments = outcomeOf a d.state := by
  obtain ⟨path, harguments, hsource⟩ := hr
  rw [run, harguments]
  dsimp only
  rw [compile, hsource]
  dsimp only
  rw [hload]
  dsimp only
  rw [hstart]
  dsimp only
  rw [answer, ha]
  cases a <;> rfl

/-- A run of the command line gives a request its answer: its gate is its own, and open. -/
theorem exists_answer (hstart : State.start? s h = some first)
    (hpositive : 0 < s.capacity) (ht : h.tree.Proper) (hbehaves : Behaves f s.scratchRoot runner)
    (r : Request) : ∃ d, ({ state := first } : Schedule).answer s runner [(r, none)] =
      (d, [.returned (answerOn s f h r)]) := by
  have hhost : first.host = h := Orchestrator.host_of_start hstart
  have hheld : first.held < s.capacity := by
    rw [Orchestrator.held_of_start hstart]
    exact hpositive
  obtain ⟨d, hd⟩ := Schedule.answer_eq hstart ht hbehaves .start
    (Orchestrator.opens_of_start hstart).isOpen hheld r
  rw [hhost] at hd
  exact ⟨d, hd⟩

end CommandLine

namespace Surfaces

variable {s : Settings} {f : Task → Ending} {h host h₀ : Host} {r : Request} {c : Schedule}
variable {runner : Runner} {runners : Nat → Runner} {cfg : Config} {config : Option Bytes}
variable {m : Server.Message} {input : Bytes} {arguments : List Octets}

/-! ## Two answers -/

/-- Answers that differ in no more than the name of a workspace. A response has all stages. -/
inductive SameAnswer : Except Refusal Response → Except Refusal Response → Prop
  | response (m : Response) : m.keys = Stage.all → SameAnswer (.ok m) (.ok m)
  | invalid (e : Invalid) : SameAnswer (.error (.invalid e)) (.error (.invalid e))
  | homeless (e e' : Workspace.Failure) : e.Alike e' →
      SameAnswer (.error (.workspace e)) (.error (.workspace e'))

/-- A host as it is for the service and as it is for a run of the command line: the same but for
the names of workspaces, which are equally long and do not matter to the system. -/
structure SameMachine (scratchRoot : Option Bytes) (host h : Host) : Prop where
  alike : host.Alike h
  proper : h.tree.Proper
  blind : BlindToNames h
  length : (nextName host scratchRoot).length = (nextName h scratchRoot).length

/-- On hosts that are alike a request has the same answer. -/
theorem sameAnswer_answerOn (hsame : SameMachine s.scratchRoot host h) :
    SameAnswer (answerOn s f host r) (answerOn s f h r) := by
  have htree : h.tree = host.tree := by
    rw [hsame.alike]
    rfl
  have hrefuses : h.refuses = host.refuses := by
    rw [hsame.alike]
    rfl
  have hproper : host.tree.Proper := htree ▸ hsame.proper
  have hblind : BlindToNames host :=
    ⟨hrefuses ▸ hsame.blind.directory, hrefuses ▸ hsame.blind.source⟩
  unfold answerOn
  cases r.invalid? s.sourceLimit with
  | some e => exact .invalid e
  | none =>
    have hcreate : SameOutcome (Workspace.create host s.scratchRoot r.source).1
        (Workspace.create h s.scratchRoot r.source).1 :=
      Workspace.sameOutcome_create hsame.alike hproper hblind hsame.length
    dsimp only
    generalize (Workspace.create host s.scratchRoot r.source).1 = x at hcreate
    generalize (Workspace.create h s.scratchRoot r.source).1 = y at hcreate
    cases hcreate with
    | made w w' => exact .response _ rfl
    | failed e e' halike => exact .homeless e e' halike

/-! ## Replies and outcomes -/

/-- A reply of the service and an outcome of the command line that agree. -/
structure Agree (reply : Server.Reply) (o : CommandLine.Outcome) : Prop where
  known : reply.status = 200 ∨ reply.status = 400 ∨ reply.status = 500
  answered : reply.status = 200 ↔ o.exitCode = 0 ∨ o.exitCode = 1
  invalid : reply.status = 400 ↔ o.exitCode = 65
  homeless : reply.status = 500 ↔ o.exitCode = 73
  /-- Both texts are read as the document of one response, which has all stages in their order. -/
  document : reply.status = 200 → ∃ m : Response, m.keys = Stage.all ∧
    reply.content = .json (Wire.ofResponse m) ∧
    Json.read (Wire.ofResponse m).compact.toList = ⟨Json.draft (Wire.ofResponse m), false⟩ ∧
    Json.read o.output.toList = ⟨Json.draft (Wire.ofResponse m), false⟩ ∧
    (o.exitCode = 0 ↔ ∀ e ∈ m.entries, e.2.exitCode = 0) ∧ o.complaint = none
  /-- What is wrong with a request is said in the same words. -/
  invalidText : reply.status = 400 → ∃ complaint, o.complaint = some complaint ∧
    reply.content = .json (.object [("error", .text complaint.message)])
  /-- Why there is no workspace is said in the same words, but for its name. -/
  homelessText : reply.status = 500 → ∃ e e' : Workspace.Failure, e.Alike e' ∧
    reply.content = .json (.object [("error", .text (Refusal.workspace e).message)]) ∧
    o.complaint = some (.refused (.workspace e'))

/-- What is made of two answers that are the same agrees. -/
theorem agree_of_sameAnswer {a b : Except Refusal Response} (h : SameAnswer a b) (σ : State) :
    Agree (Server.replyOf a) (CommandLine.outcomeOf b σ) := by
  cases h with
  | response m hkeys =>
    have hreply := Server.replyOf_ok m
    have hstatus : (Server.replyOf (.ok m)).status = 200 := by rw [hreply]
    have hshown := CommandLine.outcomeOf_ok m σ
    have hcode : (CommandLine.outcomeOf (.ok m) σ).exitCode = 0 ∨
        (CommandLine.outcomeOf (.ok m) σ).exitCode = 1 := by
      rw [hshown]
      dsimp only
      split
      · exact .inl rfl
      · exact .inr rfl
    have hsucceeded : (CommandLine.outcomeOf (.ok m) σ).exitCode = 0 ↔ m.allSucceeded = true := by
      rw [hshown]
      dsimp only
      cases m.allSucceeded <;> decide
    constructor
    case document =>
      refine fun _ => ⟨m, hkeys, ?_, Json.read_compact _, ?_,
        hsucceeded.trans (Response.allSucceeded_iff m), ?_⟩
      · rw [hreply]
      · rw [hshown]
        exact Json.read_pretty_line _
      · rw [hshown]
    all_goals omega
  | invalid e =>
    have hstatus : (Server.replyOf (.error (.invalid e))).status = 400 := rfl
    have hexit : (CommandLine.outcomeOf (.error (.invalid e)) σ).exitCode = 65 := rfl
    constructor
    case invalidText => exact fun _ => ⟨.refused (.invalid e), rfl, rfl⟩
    all_goals omega
  | homeless e e' halike =>
    have hstatus : (Server.replyOf (.error (.workspace e))).status = 500 := rfl
    have hexit : (CommandLine.outcomeOf (.error (.workspace e')) σ).exitCode = 73 := rfl
    constructor
    case homelessText => exact fun _ => ⟨e, e', halike, rfl, rfl⟩
    all_goals omega

/-- Only a workspace that cannot be made is an error that is not the client's. -/
theorem status_replyOf_iff : (Server.replyOf (answerOn s f h r)).status = 500 ↔
    r.invalid? s.sourceLimit = none ∧
      ∃ e, (Workspace.create h s.scratchRoot r.source).1 = .error e := by
  unfold answerOn
  cases r.invalid? s.sourceLimit with
  | some e => simp [Server.replyOf, Refusal.isClientError]
  | none =>
    dsimp only
    cases (Workspace.create h s.scratchRoot r.source).1 with
    | error e => simp [Server.replyOf, Refusal.isClientError]
    | ok w => simp [Server.replyOf_ok]

/-- **The service and the command line agree.** One configuration with its tools at the same paths,
machines that are alike and tools that behave alike: whatever the service has done before, its reply
to a message that posts a request agrees with what the command line makes of that request. An error
that is not the client's comes only of a workspace that cannot be made, whatever the source is and
the tools do. -/
theorem service_and_command_line_agree (p : Platform) (hload : Config.load h config = .ok cfg)
    (hopen : Server.Open (Settings.ofConfig h cfg) runner h₀ c) (ht : h₀.tree.Proper)
    (hsame : SameMachine cfg.scratchRoot c.state.host h)
    (hservice : Behaves f cfg.scratchRoot runner)
    (hline : Behaves f cfg.scratchRoot (runners cfg.limits.outputBytes))
    (hposts : Server.Posts (Server.bodyLimit cfg.limits.sourceBytes) m r)
    (hrequests : CommandLine.Requests h input arguments config r) :
    ∃ reply, (Server.serve (Settings.ofConfig h cfg) runner c m).2 = some reply ∧
      Agree reply (CommandLine.run p h runners input arguments) ∧
      (reply.status = 500 ↔ r.invalid? cfg.limits.sourceBytes = none ∧
        ∃ e, (Workspace.create c.state.host cfg.scratchRoot r.source).1 = .error e) := by
  obtain ⟨d, hreply⟩ := hopen.exists_answer ht hservice r
  have hserve : (Server.serve (Settings.ofConfig h cfg) runner c m).2 = some _ :=
    Server.reply_of_posts hposts hreply
  -- The command line has room for as many permits as the service.
  obtain ⟨first, hstart, -⟩ := hopen.life
  have hcapacity := Orchestrator.isSome_start?_iff.mp (Option.isSome_of_eq_some hstart)
  obtain ⟨first', hstart'⟩ := Option.isSome_iff_exists.mp
    (Orchestrator.isSome_start?_iff.mpr hcapacity : (State.start? _ h).isSome = true)
  have hpositive := Nat.zero_lt_of_lt hopen.spare
  obtain ⟨d', hanswer⟩ := CommandLine.exists_answer hstart' hpositive hsame.proper hline r
  refine ⟨_, hserve, ?_, status_replyOf_iff⟩
  rw [CommandLine.run_of_requests p hrequests hload hstart' hanswer]
  exact agree_of_sameAnswer (sameAnswer_answerOn hsame) d'.state

/-- A request to optimize one line. -/
def oneLine : Request := ⟨"let x = 1", { optimize := true }⟩

/-- A message that posts it. -/
def posting : Server.Message where
  method := "POST"
  target := "/api/compile"
  headers := [("Content-Type", "application/json")]
  body := Text.bytes (Wire.ofRequest oneLine).compact

/-- A service that has just started and a run where five names have been given out already: the
compiler times out for one stage and fails for the others. -/
theorem service_and_command_line_agree_started :
    let h : Host := Orchestrator.bareHost.numbered 5
    let s := Settings.ofConfig h {}
    let runner := Orchestrator.prompt Orchestrator.treeless
    ∃ first reply, State.start? s Orchestrator.bareHost = some first ∧
      (Server.serve s runner { state := first } posting).2 = some reply ∧
      Agree reply (CommandLine.run ⟨"x86_64", "linux"⟩ h (fun _ => runner)
        (Text.bytes oneLine.source) (CommandLine.words oneLine.options)) := by
  intro h s runner
  obtain ⟨first, hstart⟩ : ∃ first, State.start? s Orchestrator.bareHost = some first :=
    ⟨_, rfl⟩
  have hhost := Orchestrator.host_of_start hstart
  have hopens := Orchestrator.opens_of_start hstart
  have hload : Config.load h none = .ok {} := by decide +kernel
  have hopen : Server.Open s runner Orchestrator.bareHost { state := first } :=
    ⟨⟨first, hstart, .start⟩, hopens.isOpen, by cases hstart; decide⟩
  have hproper : Orchestrator.bareHost.tree.Proper := Tree.proper_empty.put (p := []) rfl rfl
  have hsame : SameMachine none first.host h := by
    rw [hhost]
    exact ⟨rfl, hproper, ⟨fun _ _ _ => rfl, fun _ _ _ => rfl⟩, by decide +kernel⟩
  have hbehaves : Behaves Orchestrator.treeless none runner :=
    ⟨fun _ _ _ he => (Option.some.inj he).symm, fun _ _ => rfl,
      .inl (Orchestrator.sparesWorkspaces_of_host_eq fun _ _ => rfl).sparesSources⟩
  let runners : Nat → Runner := fun _ => runner
  have hline : Behaves Orchestrator.treeless none
      (runners ({} : Config).limits.outputBytes) := hbehaves
  have hbody : Server.characters posting.body =
      (Wire.ofRequest oneLine).compact.toList := by
    decide +kernel
  have hread : Wire.document Wire.readRequest (Server.characters posting.body) =
      .ok oneLine := by
    rw [hbody, Wire.document_of_read (Json.read_compact _), Wire.readRequest_draft]
  have hposts : Server.Posts (Server.bodyLimit s.sourceLimit) posting oneLine :=
    ⟨rfl, by decide +kernel, by decide +kernel, by decide +kernel, hread⟩
  have hrequests : CommandLine.Requests h (Text.bytes oneLine.source)
      (CommandLine.words oneLine.options) none oneLine :=
    ⟨none, CommandLine.readArguments_words oneLine.options, by decide +kernel⟩
  obtain ⟨reply, hserve, hagree, -⟩ := service_and_command_line_agree ⟨"x86_64", "linux"⟩
    hload hopen hproper hsame hbehaves hline hposts hrequests
  exact ⟨first, reply, hstart, hserve, hagree⟩

end Surfaces

end StageLens
