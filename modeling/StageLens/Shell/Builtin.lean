import StageLens.Shell.Expansion
import StageLens.Tool.Catalog

/-!
# Commands of the shell itself

Commands that change the shell they are run in, and those that the shell has in place of a program
of the system.
-/

namespace StageLens.Shell.Effect

/-- The signals: name, number, and what is said when one kills a program. -/
def signals : List (String × Nat × String) :=
  [("HUP", 1, "Hangup"), ("INT", 2, ""), ("QUIT", 3, "Quit"), ("ILL", 4, "Illegal instruction"),
    ("TRAP", 5, "Trace/breakpoint trap"), ("ABRT", 6, "Aborted"), ("BUS", 7, "Bus error"),
    ("FPE", 8, "Floating point exception"), ("KILL", 9, "Killed"),
    ("USR1", 10, "User defined signal 1"), ("SEGV", 11, "Segmentation fault"),
    ("USR2", 12, "User defined signal 2"), ("PIPE", 13, ""), ("ALRM", 14, "Alarm clock"),
    ("TERM", 15, "Terminated")]

def signal? (o : Octets) : Option Nat :=
  (Octets.digits? 10 o).or ((signals.lookup (String.ofList o)).map Prod.fst)

/-- What is said of a program that a signal has killed. -/
def deathWords (signal : Nat) : String :=
  match signals.find? fun s => s.2.1 == signal with
  | some (_, _, words) => words
  | none => ""

/-- The signal that is asked for and the processes it is for. -/
def killOperands : List Octets → Option (Nat × List Octets)
  | ['-', 's'] :: name :: pids => (signal? name).map (·, pids)
  | ['-', '-'] :: pids => some (15, pids)
  | ('-' :: name) :: pids => (signal? name).map (·, pids)
  | pids => some (15, pids)

/-- The process that was started from outside, whose group all others are in. -/
def leader : Nat := 1000

def kill (arguments : List Octets) : Effect Unit := do
  match killOperands arguments with
  | none =>
    complain "kill: Illegal option".toList
    setStatus 2
  | some (signal, pids) =>
    setStatus 0
    for o in pids do
      let s ← get
      match Octets.digits? 10 o with
      | none =>
        complain ("kill: Illegal number: ".toList ++ o)
        setStatus 2
      | some pid =>
        if signal == 0 then continue
        else if pid == 0 then throw (.killed leader signal)
        else if pid == s.pid || pid == leader then throw (.killed pid signal)
        else if s.jobs.any (·.pid == pid) then
          let ended (j : Job) : Job :=
            if j.pid == pid && s.clock < j.ends then ⟨pid, s.clock, 128 + signal⟩ else j
          set { s with jobs := s.jobs.map ended }
        else
          complain "kill: No such process\n".toList
          setStatus 1

/-- Wait for jobs: all of them, or those that are named. -/
def wait (arguments : List Octets) : Effect Unit := do
  if arguments.isEmpty then
    modify fun s => { s with clock := (s.jobs.map Job.ends).foldl max s.clock, status := 0 }
  for o in arguments do
    match (← get).jobs.find? fun j => Octets.digits? 10 o == some j.pid with
    | some j => modify fun s => { s with clock := max s.clock j.ends, status := j.status }
    | none => setStatus 127

def changeDirectory (arguments : List Octets) : Effect Unit := do
  let path := (arguments.head?.or (← value? "HOME")).getD []
  match (← get).host.find path.toBytes with
  | .ok (.there place .directory) =>
    modify fun s => { s with host := { s.host with cwd := place }, status := 0 }
    assign "PWD" (Octets.ofBytes (← get).host.cwdPath)
  | _ =>
    complain ("cd: can't cd to ".toList ++ path)
    setStatus 2

/-- The status that an operand asks for, or the one there is. -/
def statusOperand (name : String) (arguments : List Octets) : Effect Nat := do
  match arguments with
  | [] => return (← get).status
  | o :: _ =>
    match Octets.digits? 10 o with
    | some n => return n % 256
    | none =>
      complain (name.toList ++ ": Illegal number: ".toList ++ o)
      throw (.exit 2)

/-- A name and, after an equals sign, its value. -/
def nameAndValue (o : Octets) : String × Option Octets :=
  let name := o.takeWhile (· ≠ '=')
  (String.ofList name, match o.drop name.length with
    | _ :: value => some value
    | [] => none)

def setArguments (arguments : List Octets) : Effect Unit := do
  match arguments with
  | ['-', '-'] :: rest => modify fun s => { s with arguments := rest, status := 0 }
  | ('-' :: _) :: _ | ('+' :: _) :: _ | [] => setStatus 0
  | rest => modify fun s => { s with arguments := rest, status := 0 }

/-- Read a line into variables: a word each, and the rest into the last one. -/
def readLine (names : List Octets) : Effect Unit := do
  match ← remaining 0 with
  | none => setStatus 1
  | some source =>
    let line := source.text.takeWhile (· ≠ '\n')
    leaveOf source (source.text.drop (line.length + 1))
    setStatus (if line.length < source.text.length then 0 else 1)
    let mut rest := line
    for (name, left) in names.zip ((List.range names.length).reverse) do
      rest := rest.dropWhile Item.isBlank
      let word : Octets := if left == 0 then rest else rest.takeWhile (!Item.isBlank ·)
      rest := rest.drop word.length
      assign (String.ofList name) ((word.reverse.dropWhile Item.isBlank).reverse)

/-- The command of the shell with a name. -/
def own? (perform : Perform) (name : String) (arguments : List Octets) : Option (Effect Unit) :=
  let number : Nat := ((arguments.head?.bind (Octets.digits? 10)).getD 1)
  match name with
  | ":" | "trap" | "umask" => some (setStatus 0)
  | "cd" => some (changeDirectory arguments)
  | "exit" => some do throw (.exit (← statusOperand name arguments))
  | "return" => some do throw (.back (← statusOperand name arguments))
  | "break" => some (throw (.leave number))
  | "continue" => some (throw (.again number))
  | "eval" => some (perform (.script ([' '].intercalate arguments)))
  | "export" => some do
    for o in arguments do
      let (name, value) := nameAndValue o
      assign name (value.getD ((← value? name).getD []))
      showVariable name
    setStatus 0
  | "unset" => some do
    for o in arguments do unset (String.ofList o)
    setStatus 0
  | "set" => some (setArguments arguments)
  | "shift" => some do
    modify fun s => { s with arguments := s.arguments.drop number, status := 0 }
  | "read" => some (readLine arguments)
  | "kill" => some (kill arguments)
  | "wait" => some (wait arguments)
  | "." => some do
    match (← get).host.read (arguments.headD []).toBytes with
    | .ok contents => perform (.script (Octets.ofBytes contents))
    | .error _ =>
      complain (".: cannot open ".toList ++ arguments.headD [] ++ ": No such file".toList)
      throw (.exit 2)
  | _ => none

/-- The job that the shell does itself in place of a program. -/
def inPlace? (name : String) (arguments : List Octets) : Option (Tool.Job Unit) :=
  match name with
  | "echo" => some (Tool.shellEcho arguments)
  | "printf" | "test" | "[" | "true" | "false" | "pwd" => Tool.job? name arguments
  | _ => none

/-- Do a job on the descriptors of the shell. With `own` the shell does it itself, which its
messages show. -/
def doJob (own : Bool) (name : Octets) (job : Tool.Job Unit) : Effect Unit := do
  let s ← get
  let source ← remaining 0
  let ((), c) := job.run { host := s.host, input := (source.map Source.text).getD [] }
  if c.hasRead then
    if let some source := source then leaveOf source c.input
  modify fun s => { s with host := c.host, clock := s.clock + c.elapsed, status := c.status }
  for (stream, o) in c.printed.reverse do
    match stream with
    | .errors =>
      if own then complain o.dropLast else discard <| print 2 o
    | .output =>
      unless ← print 1 o do
        setStatus 1
        if own then complain (name ++ ": ".toList ++ name ++ ": I/O error".toList)
        else discard <| print 2 (name ++ ": write error: Bad file descriptor\n".toList)

end StageLens.Shell.Effect
