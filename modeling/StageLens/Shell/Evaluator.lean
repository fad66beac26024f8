import StageLens.Host.Image
import StageLens.Shell.Builtin
import StageLens.Shell.Parser
import StageLens.Shell.Redirect

/-!
# Running commands

What each task does. A task that leads to others hands them to `Perform`, so that everything here is
about one level; `perform` closes the circle for tasks that are nested less deep than its fuel. What
would go on longer goes on for ever: its clock is set to a time that is never reached.
-/

namespace StageLens.Shell.Effect

/-- Go on for ever. -/
def hang : Effect Unit := do
  modify fun s => { s with clock := never }
  throw (.exit 0)

/-! ## Programs -/

/-- What the words of the shell ask for: a script with its name and arguments. -/
inductive Errand where
  | text (script : Octets) (arguments : List Octets)
  | input (arguments : List Octets)
  | file (path : Octets) (arguments : List Octets)

/-- The letters of the options, and what follows them. -/
def shellOptions : List Octets → List Char × List Octets
  | ('-' :: c :: cs) :: rest =>
    if c = '-' then ([], rest)
    else
      let (letters, operands) := shellOptions rest
      (c :: cs ++ letters, operands)
  | ['-'] :: rest => ([], rest)
  | rest => ([], rest)

def errand (arguments : List Octets) : Errand :=
  match shellOptions arguments with
  | (letters, operands) =>
    match letters.contains 'c', letters.contains 's', operands with
    | true, _, script :: rest => .text script rest
    | true, _, [] | false, true, _ => .input operands
    | false, false, path :: rest => .file path rest
    | false, false, [] => .input []

/-- Be a shell under a name. -/
def shell (perform : Perform) (name : Octets) (arguments : List Octets) : Effect Unit := do
  modify fun s => { s with name, arguments := [], hidden := [], functions := [], line := 0 }
  assign "PWD" (Octets.ofBytes (← get).host.cwdPath)
  let enter (name : Octets) (arguments : List Octets) : Effect Unit :=
    modify fun s => { s with name, arguments, line := 1, status := 0 }
  match errand arguments with
  | .text script [] =>
    enter name []
    perform (.script script)
  | .text script (own :: arguments) =>
    enter own arguments
    perform (.script script)
  | .input arguments =>
    let source ← remaining 0
    if let some source := source then leaveOf source []
    enter name arguments
    perform (.script ((source.map Source.text).getD []))
  | .file path arguments =>
    match (← get).host.read path.toBytes with
    | .ok contents =>
      enter path arguments
      perform (.script (Octets.ofBytes contents))
    | .error e =>
      let reason := if e == .notFound then "No such file" else e.words
      complain ("cannot open ".toList ++ path ++ ": ".toList ++ reason.toList)
      throw (.exit 2)

/-- Be a program of the system. -/
def become (perform : Perform) (i : Host.Image) : Effect Unit := do
  let name := i.words.headD []
  let arguments := i.words.drop 1
  if i.tool == "sh" then shell perform name arguments
  else if i.tool == "kill" then kill arguments
  else match Tool.job? i.tool arguments with
    | some job => doJob false i.tool.toList job
    | none => setStatus 127

/-- Run a program as a child; what is said if there is none starts with `spoken`. -/
def program (perform : Perform) (spoken : Octets) (words : List Octets) : Effect Unit := do
  let name := words.headD []
  let h := (← get).host
  let child (commands : Effect Unit) : Effect Unit := do
    modify fun s => { s with nextPid := s.nextPid + 1 }
    let ended ← fork do
      modify fun s => { s with pid := s.nextPid }
      commands
    setStatus ended.status
    if let .killed signal := ended then
      unless (deathWords signal).isEmpty do
        discard <| print 2 ((deathWords signal).toList ++ ['\n'])
  match h.imageOf name.toBytes (words.drop 1) with
  | .ok i => child (become perform i)
  | .error .notExecutableFormat => child (shell perform name words)
  | .error e =>
    if e == .permissionDenied then
      complain (spoken ++ name ++ ": Permission denied".toList)
      setStatus 126
    else
      complain (spoken ++ name ++ ": not found".toList)
      setStatus 127

/-- Call a function of the shell. -/
def call (body : Effect Unit) (arguments : List Octets) : Effect Unit := fun before =>
  let (r, after) := body.run { before with arguments }
  let restored := { after with arguments := before.arguments }
  match r with
  | .error (.back n) => (.ok (), { restored with status := n })
  | r => (r, restored)

/-- Do what a name says: a function, a command of the shell, or a program. -/
def invoke (perform : Perform) (words : List Octets) : Effect Unit := do
  let name := String.ofList (words.headD [])
  let arguments := words.drop 1
  match (← get).functions.lookup name, own? perform name arguments, inPlace? name arguments with
  | some body, _, _ => call (perform (.command body)) arguments
  | none, some commands, _ => commands
  | none, none, some job => doJob true (words.headD []) job
  | none, none, none =>
    match name, arguments with
    | "exec", w :: ws =>
      program perform "exec: ".toList (w :: ws)
      throw (.exit (← get).status)
    | "command", w :: ws => perform (.program (w :: ws))
    | "exec", [] | "command", [] => setStatus 0
    | _, _ => program perform [] words

/-! ## Commands -/

/-- Whether a word has the output of a script in it. -/
def runsScript (w : Word) : Bool :=
  w.any fun p => match p with
    | .printed _ _ => true
    | _ => false

def assignAll (perform : Perform) (assignments : List (String × Word)) : Effect Unit := do
  for (name, w) in assignments do assign name (← text perform w)

/-- Do a task with variables that only it sees. -/
def withVariables (perform : Perform) (assignments : List (String × Word)) (task : Effect Unit) :
    Effect Unit := do
  if assignments.isEmpty then task
  else
    let before ← get
    for (name, w) in assignments do
      assign name (← text perform w)
      showVariable name
    task
    modify fun s => { s with
      hidden := before.hidden
      host := { s.host with environment := before.host.environment } }

def simple (perform : Perform) (c : Simple) : Effect Unit := do
  modify fun s => { s with line := c.line }
  let words := (← c.words.mapM (words perform)).flatten
  match words with
  | [] =>
    assignAll perform c.assignments
    unless c.assignments.any fun a => runsScript a.2 do setStatus 0
    discard <| redirected (redirectAll perform c.redirections)
  | [['e', 'x', 'e', 'c']] =>
    if ← redirectAll perform c.redirections then
      assignAll perform c.assignments
      setStatus 0
    else throw (.exit 2)
  | words =>
    redirected do
      if ← redirectAll perform c.redirections then
        withVariables perform c.assignments (invoke perform words)

/-- Run the left command, and then the right one on what it has printed. Both start at the same
time. -/
def pipe (perform : Perform) (left right : Command) : Effect Unit := do
  let start := (← get).clock
  let n ← newSink
  discard <| fork do
    setHandle 1 (some (.sink n))
    perform (.command left)
  let (printed, complete) ← contentsOf n
  let leftEnd := (← get).clock
  let source ← openText printed complete
  modify fun s => { s with clock := start }
  let ended ← fork do
    setHandle 0 (some source)
    perform (.command right)
  modify fun s => { s with clock := max leftEnd s.clock, status := ended.status }

/-- Run a command beside the others: its time does not pass for them. -/
def background (perform : Perform) (c : Command) : Effect Unit := do
  let before ← get
  let ended ← fork do
    setHandle 0 (some .null)
    perform (.command c)
  modify fun s => { s with
    clock := before.clock, status := 0, nextPid := s.nextPid + 1
    held := (keptSinks before.handles c).map (·, s.clock) ++ s.held
    jobs := ⟨s.nextPid, s.clock, ended.status⟩ :: s.jobs }

/-- One turn of a loop; false if it is the last one. -/
def turn (body : Effect Unit) : Effect Bool :=
  tryCatch (do body; return true) fun
    | .leave n => if n ≤ 1 then return false else throw (.leave (n - 1))
    | .again n => if n ≤ 1 then return true else throw (.again (n - 1))
    | stop => throw stop

/-- How often a loop is repeated before it counts as one without an end. -/
def turnLimit : Nat := 10000

/-- Repeat a body while the condition has the right answer. -/
def repeated (condition body : Effect Unit) (stop : Bool) : Nat → Nat → Effect Unit
  | 0, _ => hang
  | n + 1, status => do
    condition
    if ((← get).status == 0) != stop then
      if ← turn body then repeated condition body stop n (← get).status
    else setStatus status

def each (perform : Perform) (name : String) (body : Command) : List Octets → Effect Unit
  | [] => return ()
  | o :: rest => do
    assign name o
    if ← turn (perform (.command body)) then each perform name body rest

/-- The body of the first arm that has a pattern for the text. -/
def armFor (perform : Perform) (o : Octets) :
    List (List Word × Command) → Effect (Option Command)
  | [] => return none
  | (ps, body) :: rest => do
    if (← ps.mapM (pattern perform)).any (·.accepts o) then return some body
    armFor perform o rest

def command (perform : Perform) (c : Command) : Effect Unit := do
  let run (c : Command) : Effect Unit := perform (.command c)
  match c with
  | .nothing => return ()
  | .simple c => simple perform c
  | .pipe left right => pipe perform left right
  | .negated c =>
    run c
    setStatus (if (← get).status == 0 then 1 else 0)
  | .both left right =>
    run left
    if (← get).status == 0 then run right
  | .either left right =>
    run left
    unless (← get).status == 0 do run right
  | .sequence left right =>
    run left
    run right
  | .background c => background perform c
  | .subshell c => setStatus (← fork (run c)).status
  | .choice condition yes no =>
    run condition
    if (← get).status == 0 then run yes
    else
      setStatus 0
      run no
  | .loop stop condition body => repeated (run condition) (run body) stop turnLimit 0
  | .each name none body => each perform name body (← get).arguments
  | .each name (some ws) body => each perform name body (← ws.mapM (words perform)).flatten
  | .select w arms =>
    match ← armFor perform (← text perform w) arms with
    | some body => run body
    | none => setStatus 0
  | .define name body =>
    modify fun s => { s with
      functions := (name, body) :: s.functions.filter (·.1 ≠ name), status := 0 }
  | .redirected c rs =>
    redirected do
      if ← redirectAll perform rs then run c

/-- The commands of a script one after the other. -/
def lines (perform : Perform) : Nat → List Token → Effect Unit
  | 0, _ => return ()
  | n + 1, ts => do
    match Command.next ts with
    | .ok (none, _) => return ()
    | .ok (some c, rest) =>
      perform (.command c)
      lines perform n rest
    | .error f =>
      modify fun s => { s with line := f.line }
      complain ("Syntax error: ".toList ++ f.reason.toList)
      throw (.exit 2)

def step (perform : Perform) : Task → Effect Unit
  | .script o =>
    let ts := Token.scan o
    lines perform ts.length ts
  | .command c => command perform c
  | .program words => program perform [] words

/-- Do a task, as far as tasks are nested less deep than the fuel. -/
def perform : Nat → Task → Effect Unit
  | 0, _ => hang
  | fuel + 1, task => step (perform fuel) task

/-- How deep tasks can be nested. -/
def nestingLimit : Nat := 2000

end Effect

/-- A process after its end. -/
structure Trace where
  status : Nat
  ended : Nat
  /-- What was printed, latest first. -/
  printed : List Printed
  /-- Until when children keep a sink open. -/
  held : List (Nat × Nat)
  host : Host

/-- Run an image on a host, with standard output as sink 1 and standard error as sink 2. -/
def run (i : Host.Image) (input : Option Octets) (h : Host) : Trace :=
  let start : State := {
    host := h, name := i.words.headD []
    sources := input.elim [] fun o => [⟨0, o, 0⟩]
    handles := [(0, input.elim .null fun _ => .source 0), (1, .sink 1), (2, .sink 2)] }
  let (r, s) := (Effect.become (Effect.perform Effect.nestingLimit) i).run start
  let status := match r with
    | .error (.killed _ signal) => 128 + signal
    | r => Effect.statusOf r s
  ⟨status, s.clock, s.printed, s.held, { s.host with cwd := h.cwd, environment := h.environment }⟩

end StageLens.Shell
