import StageLens.Orchestrator.Basic

/-!
# What a move does

`Rule` lists what a move of the orchestrator can do to a state: what becomes of the gate, the calls,
the host and the record of starts. `Turn` is the part of it that concerns one stage. Every step is
an instance of a rule (`rule_of_step`), and that is all that the other modules know of `step`.
-/

namespace StageLens.Orchestrator

/-- Call `n` is under way in its workspace. -/
structure State.Runs (σ : State) (n : Nat) (c : Call) (w : Workspace)
    (progress : Stage → Progress) : Prop where
  call : σ.calls[n]? = some c
  phase : c.phase = .running w progress

/-- The state with another phase of one call. -/
def State.callsWith (σ : State) (n : Nat) (c : Call) (p : Phase) : List Call :=
  σ.calls.set n { c with phase := p }

section Rules

variable (s : Settings) (runner : Runner) (σ : State)

/-- A new call is turned away, finds no workspace, or is under way. -/
inductive Reception (r : Request) : Phase → Host → Prop
  | invalid (e : Invalid) : r.invalid? s.sourceLimit = some e →
      Reception r (.returned (.error (.invalid e))) σ.host
  | homeless (f : Workspace.Failure) (h : Host) : r.invalid? s.sourceLimit = none →
      Workspace.create σ.host s.scratchRoot r.source = (.error f, h) →
      Reception r (.returned (.error (.workspace f))) h
  | housed (w : Workspace) (h : Host) : r.invalid? s.sourceLimit = none →
      Workspace.create σ.host s.scratchRoot r.source = (.ok w, h) →
      Reception r (.running w fun _ => .fresh) h

/-- The turn of a stage: from its progress to the next, with the gate and the host afterwards and
what is started. -/
inductive Turn (t : Ticket) (r : Request) (w : Workspace) :
    Progress → Gate Ticket → Host → List Start → Progress → Prop
  | wait (p : Progress) (g : Gate Ticket) : p = .fresh ∨ p = .waiting →
      σ.gate.poll t = (g, .pending) → Turn t r w p g σ.host [] .waiting
  | reject (p : Progress) (g : Gate Ticket) : p = .fresh ∨ p = .waiting →
      σ.gate.poll t = (g, .closed) →
      Turn t r w p g σ.host [] (.done (rejection s r t.stage))
  | begin (p : Progress) (g : Gate Ticket) : p = .fresh ∨ p = .waiting →
      σ.gate.poll t = (g, .admitted) →
      Turn t r w p g (runner (compilation s r t.stage w) σ.host).host
        [⟨t, .compile, compilation s r t.stage w⟩]
        (.compiling (runner (compilation s r t.stage w) σ.host))
  | breakDown (run : Run) (f : Failure) : run.ending = some (.error f) →
      Turn t r w (.compiling run) σ.gate.release σ.host [] (.done (breakdown s r t.stage f))
  | filter (run : Run) (o : Output) : run.ending = some (.ok o) →
      Demangler.isWanted t.stage.mayMangle r.options.demangle o.combined = true →
      Turn t r w (.compiling run) σ.gate.release
        (runner (s.demangler.invocation o.combined) σ.host).host
        [⟨t, .demangle, s.demangler.invocation o.combined⟩]
        (.demangling o.exitCode o.combined (runner (s.demangler.invocation o.combined) σ.host))
  | complete (run : Run) (o : Output) : run.ending = some (.ok o) →
      Demangler.isWanted t.stage.mayMangle r.options.demangle o.combined = false →
      Turn t r w (.compiling run) σ.gate.release σ.host []
        (.done (completion s r t.stage o.exitCode o.combined))
  | filtered (code : Int32) (raw : String) (run : Run) (e : Ending) : run.ending = some e →
      Turn t r w (.demangling code raw run) σ.gate σ.host []
        (.done (completion s r t.stage code (Demangler.keep raw e)))

/-- The gate after the stages of a call have given back what they had of it. -/
def abandonAll (n : Nat) (progress : Stage → Progress) (stages : List Stage)
    (gate : Gate Ticket) : Gate Ticket :=
  stages.foldl (fun gate stage => abandon gate ⟨n, stage⟩ (progress stage)) gate

/-- What a move can do. -/
inductive Rule : Move → State → Prop
  | submit (r : Request) (p : Phase) (τ : State) : Reception s σ r p τ.host →
      τ.gate = σ.gate → τ.held = σ.held → τ.started = σ.started →
      τ.calls = σ.calls ++ [⟨r, p⟩] → Rule (.submit r) τ
  | turn (m : Move) (t : Ticket) (c : Call) (w : Workspace) (progress : Stage → Progress)
      (launched : List Start) (p : Progress) (τ : State) :
      m = .ask t ∨ m = .finish t → σ.Runs t.call c w progress →
      Turn s runner σ t c.request w (progress t.stage) τ.gate τ.host launched p →
      τ.held = σ.held → τ.started = launched ++ σ.started →
      τ.calls = σ.callsWith t.call c (.running w (State.advance progress t.stage p)) →
      Rule m τ
  | collect (n : Nat) (c : Call) (w : Workspace) (progress : Stage → Progress)
      (results : List (Stage × StageResult)) (τ : State) : σ.Runs n c w progress →
      State.results? progress = some results → τ.gate = σ.gate → τ.held = σ.held →
      τ.started = σ.started → τ.host = w.dispose σ.host →
      τ.calls = σ.callsWith n c (.returned (.ok (Response.ofList results))) →
      Rule (.collect n) τ
  | drop (n : Nat) (c : Call) (w : Workspace) (progress : Stage → Progress) (τ : State) :
      σ.Runs n c w progress → τ.gate = abandonAll n progress Stage.all σ.gate →
      τ.held = σ.held → τ.started = σ.started → τ.host = w.dispose σ.host →
      τ.calls = σ.callsWith n c .dropped → Rule (.drop n) τ
  | hold (g : Gate Ticket) (τ : State) : σ.gate.tryAcquire = some g → τ.gate = g →
      τ.held = σ.held + 1 → τ.started = σ.started → τ.host = σ.host → τ.calls = σ.calls →
      Rule .hold τ
  | release (τ : State) : σ.held = τ.held + 1 → τ.gate = σ.gate.release →
      τ.started = σ.started → τ.host = σ.host → τ.calls = σ.calls → Rule .release τ
  | close (τ : State) : τ.gate = σ.gate.close → τ.held = σ.held → τ.started = σ.started →
      τ.host = σ.host → τ.calls = σ.calls → Rule .close τ

end Rules

variable {s : Settings} {runner : Runner} {σ τ : State}

/-- What taking a call does: beside the new call it is only the host that changes. -/
structure Taken (s : Settings) (σ : State) (r : Request) (p : Phase) (τ : State) : Prop where
  reception : Reception s σ r p τ.host
  gate : τ.gate = σ.gate
  held : τ.held = σ.held
  started : τ.started = σ.started
  calls : τ.calls = σ.calls ++ [⟨r, p⟩]

theorem exists_taken (s : Settings) (σ : State) (r : Request) :
    ∃ p, Taken s σ r p (submit s σ r) := by
  unfold submit
  split
  · rename_i e he
    exact ⟨_, .invalid e he, rfl, rfl, rfl, rfl⟩
  · rename_i he
    split
    · rename_i f h hw
      exact ⟨_, .homeless f h he hw, rfl, rfl, rfl, rfl⟩
    · rename_i w h hw
      exact ⟨_, .housed w h he hw, rfl, rfl, rfl, rfl⟩

/-- The new call is the last one. -/
theorem Taken.getElem? {r : Request} {p : Phase} (h : Taken s σ r p τ) :
    τ.calls[σ.calls.length]? = some ⟨r, p⟩ := by
  rw [h.calls, List.getElem?_append_right (Nat.le_refl _), Nat.sub_self]
  rfl

theorem rule_submit (r : Request) : Rule s runner σ (.submit r) (submit s σ r) := by
  obtain ⟨p, h⟩ := exists_taken s σ r
  exact .submit r p _ h.reception h.gate h.held h.started h.calls

theorem rule_ask {t : Ticket} {c : Call} {w : Workspace} {progress : Stage → Progress}
    (h : σ.Runs t.call c w progress)
    (hp : progress t.stage = .fresh ∨ progress t.stage = .waiting) :
    Rule s runner σ (.ask t) (ask s runner σ t c w progress) := by
  unfold ask
  rcases hpoll : σ.gate.poll t with ⟨g, a⟩
  cases a with
  | pending => exact .turn _ t c w progress _ _ _ (.inl rfl) h (.wait _ g hp hpoll) rfl rfl rfl
  | closed => exact .turn _ t c w progress _ _ _ (.inl rfl) h (.reject _ g hp hpoll) rfl rfl rfl
  | admitted => exact .turn _ t c w progress _ _ _ (.inl rfl) h (.begin _ g hp hpoll) rfl rfl rfl

theorem rule_finishCompiler {t : Ticket} {c : Call} {w : Workspace} {progress : Stage → Progress}
    {run : Run} {e : Ending} (h : σ.Runs t.call c w progress)
    (hp : progress t.stage = .compiling run) (he : run.ending = some e) :
    Rule s runner σ (.finish t) (finishCompiler s runner σ t c w progress run e) := by
  unfold finishCompiler
  cases e with
  | error f =>
    refine .turn _ t c w progress [] (.done (breakdown s c.request t.stage f)) _ (.inr rfl) h ?_
      rfl rfl rfl
    rw [hp]
    exact .breakDown run f he
  | ok o =>
    dsimp only
    split
    · rename_i hw
      refine .turn _ t c w progress [⟨t, .demangle, s.demangler.invocation o.combined⟩] _ _
        (.inr rfl) h ?_ rfl rfl rfl
      rw [hp]
      exact .filter run o he hw
    · rename_i hw
      refine .turn _ t c w progress []
        (.done (completion s c.request t.stage o.exitCode o.combined)) _ (.inr rfl) h ?_ rfl rfl rfl
      rw [hp]
      exact .complete run o he (by simpa using hw)

theorem rule_finishDemangler {t : Ticket} {c : Call} {w : Workspace}
    {progress : Stage → Progress} {code : Int32} {raw : String} {run : Run} {e : Ending}
    (h : σ.Runs t.call c w progress) (hp : progress t.stage = .demangling code raw run)
    (he : run.ending = some e) :
    Rule s runner σ (.finish t) (finishDemangler s σ t c w progress code raw run e) := by
  refine .turn _ t c w progress []
    (.done (completion s c.request t.stage code (Demangler.keep raw e))) _ (.inr rfl) h ?_
    rfl rfl rfl
  rw [hp]
  exact .filtered code raw run e he

/-- Every step is an instance of a rule. -/
theorem rule_of_step {m : Move} (h : step s runner σ m = some τ) : Rule s runner σ m τ := by
  cases m with
  | submit r =>
    obtain rfl := Option.some.inj h
    exact rule_submit r
  | ask t =>
    simp only [step] at h
    split at h
    · rename_i c hc
      split at h
      · rename_i w progress hphase
        split at h
        · rename_i hp
          obtain rfl := Option.some.inj h
          exact rule_ask ⟨hc, hphase⟩ (.inl hp)
        · rename_i hp
          obtain rfl := Option.some.inj h
          exact rule_ask ⟨hc, hphase⟩ (.inr hp)
        · cases h
      · cases h
    · cases h
  | finish t =>
    simp only [step] at h
    split at h
    · rename_i c hc
      split at h
      · rename_i w progress hphase
        split at h
        · rename_i run hp
          obtain ⟨e, he, rfl⟩ := Option.map_eq_some_iff.mp h
          exact rule_finishCompiler ⟨hc, hphase⟩ hp he
        · rename_i code raw run hp
          obtain ⟨e, he, rfl⟩ := Option.map_eq_some_iff.mp h
          exact rule_finishDemangler ⟨hc, hphase⟩ hp he
        · cases h
      · cases h
    · cases h
  | collect n =>
    simp only [step] at h
    split at h
    · rename_i c hc
      split at h
      · rename_i w progress hphase
        obtain ⟨results, hr, rfl⟩ := Option.map_eq_some_iff.mp h
        exact .collect n c w progress results _ ⟨hc, hphase⟩ hr rfl rfl rfl rfl rfl
      · cases h
    · cases h
  | drop n =>
    simp only [step] at h
    split at h
    · rename_i c hc
      split at h
      · rename_i w progress hphase
        obtain rfl := Option.some.inj h
        exact .drop n c w progress _ ⟨hc, hphase⟩ rfl rfl rfl rfl rfl
      · cases h
    · cases h
  | hold =>
    obtain ⟨g, hg, rfl⟩ := Option.map_eq_some_iff.mp h
    exact .hold g _ hg rfl rfl rfl rfl rfl
  | release =>
    simp only [step] at h
    split at h
    · rename_i hpos
      obtain rfl := Option.some.inj h
      refine .release _ ?_ rfl rfl rfl rfl
      show σ.held = σ.held - 1 + 1
      omega
    · cases h
  | close =>
    obtain rfl := Option.some.inj h
    exact .close _ rfl rfl rfl rfl rfl

/-! ## Runs of moves -/

/-- Where a list of moves leads, if each of them is open when its turn comes. -/
def run? (s : Settings) (runner : Runner) (σ : State) : List Move → Option State
  | [] => some σ
  | m :: ms => (step s runner σ m).bind fun τ => run? s runner τ ms

theorem run?_append (ms ns : List Move) :
    run? s runner σ (ms ++ ns) = (run? s runner σ ms).bind fun τ => run? s runner τ ns := by
  induction ms generalizing σ with
  | nil => rfl
  | cons m ms ih =>
    rw [List.cons_append, run?, run?, Option.bind_assoc]
    congr 1
    funext τ
    exact ih

theorem Reachable.trans {first : State} (hσ : Reachable s runner first σ)
    (hτ : Reachable s runner σ τ) : Reachable s runner first τ := by
  induction hτ with
  | refl => exact hσ
  | step _ hstep ih => exact .step ih hstep

/-- What can be reached is where lists of moves lead. -/
theorem reachable_iff_run? {first : State} :
    Reachable s runner first σ ↔ ∃ ms, run? s runner first ms = some σ := by
  constructor
  · intro h
    induction h with
    | refl => exact ⟨[], rfl⟩
    | @step σ τ m _ hstep ih =>
      obtain ⟨ms, hms⟩ := ih
      refine ⟨ms ++ [m], ?_⟩
      rw [run?_append, hms]
      show (step s runner σ m).bind (fun τ => some τ) = some τ
      rw [hstep]
      rfl
  · rintro ⟨ms, hms⟩
    have hfrom : ∀ ρ, Reachable s runner first ρ → run? s runner ρ ms = some σ →
        Reachable s runner first σ := by
      clear hms
      induction ms with
      | nil =>
        rintro ρ hρ hms
        obtain rfl := Option.some.inj hms
        exact hρ
      | cons m ms ih =>
        intro ρ hρ hms
        obtain ⟨τ, hstep, hms⟩ := Option.bind_eq_some_iff.mp hms
        exact ih τ (.step hρ hstep) hms
    exact hfrom first .refl hms

end StageLens.Orchestrator
