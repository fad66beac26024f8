import StageLens.Tool.Basic

/-!
# Files and directories

Programs that show files, count what is in them and make or remove them. A file that cannot be
used is reported, and the next one is tried.
-/

namespace StageLens.Tool

/-- The operands, or standard input if there are none. -/
def orInput (paths : List Octets) : List Octets := if paths.isEmpty then [['-']] else paths

def cat (arguments : List Octets) : Job Unit := do
  for path in orInput (splitFlags arguments).2 do
    match ← readFile path with
    | .ok text => print text
    | .error e => fail 1 ("cat: ".toList ++ path ++ ": ".toList ++ ofError e)

/-- The first lines of a text. -/
def firstLines : Nat → Octets → Octets
  | 0, _ => []
  | _ + 1, [] => []
  | n + 1, c :: cs => c :: firstLines (if c = '\n' then n else n + 1) cs

/-- How much to show: a number of lines or of bytes, and of which files. -/
def headOperands : List Octets → (Octets → Octets) × List Octets
  | ['-', 'n'] :: n :: paths => (firstLines ((Octets.digits? 10 n).getD 10), paths)
  | ['-', 'c'] :: n :: paths => (List.take ((Octets.digits? 10 n).getD 0), paths)
  | ('-' :: 'n' :: n) :: paths => (firstLines ((Octets.digits? 10 n).getD 10), paths)
  | ('-' :: 'c' :: n) :: paths => (List.take ((Octets.digits? 10 n).getD 0), paths)
  | ('-' :: d :: ds) :: paths =>
    (firstLines ((Octets.digits? 10 (d :: ds)).getD 10), paths)
  | paths => (firstLines 10, paths)

def head (arguments : List Octets) : Job Unit := do
  let (shown, paths) := headOperands arguments
  for path in orInput paths do
    match ← readFile path with
    | .ok text => print (shown text)
    | .error e =>
      fail 1 ("head: cannot open ".toList ++ quoted path ++ " for reading: ".toList ++ ofError e)

/-! ## Counting -/

def isBlank (c : Char) : Bool := c == ' ' || ('\t' ≤ c && c ≤ '\r')

/-- How many runs without blanks there are; `inside` says whether one has begun. -/
def wordCount (inside : Bool) : Octets → Nat
  | [] => 0
  | c :: cs =>
    if isBlank c then wordCount false cs
    else (if inside then 0 else 1) + wordCount true cs

/-- The counts that the flags ask for; lines, words and bytes if there are none. -/
def counts (flags : List Char) (text : Octets) : List Nat :=
  let asked (c : Char) : Bool := flags.isEmpty || flags.contains c
  (if asked 'l' then [text.count '\n'] else []) ++
    (if asked 'w' then [wordCount false text] else []) ++
    (if asked 'c' || flags.contains 'm' then [text.length] else [])

def alignRight (width : Nat) (o : Octets) : Octets :=
  List.replicate (width - o.length) ' ' ++ o

/-- Count; the columns are as wide as the size of all files needs, and seven wide for what is no
file, unless there is one number only. -/
def wc (arguments : List Octets) : Job Unit := do
  let (flags, paths) := splitFlags arguments
  let host := (← get).host
  let sizes := paths.filterMap fun p => (host.read (Octets.toBytes p)).toOption.map List.length
  let columns := (counts flags []).length
  let width :=
    if columns == 1 && paths.length ≤ 1 then 1
    else if paths.isEmpty || paths.contains ['-'] then 7
    else (decimal (sizes.foldl Nat.add 0)).length
  let row (ns : List Nat) (name : Octets) : Octets :=
    [' '].intercalate (ns.map fun n => alignRight width (decimal n)) ++
      if name.isEmpty then [] else ' ' :: name
  let mut total := List.replicate columns 0
  for path in orInput paths do
    match ← readFile path with
    | .ok text =>
      printLine (row (counts flags text) (if paths.isEmpty then [] else path))
      total := List.zipWith (· + ·) total (counts flags text)
    | .error e => fail 1 ("wc: ".toList ++ path ++ ": ".toList ++ ofError e)
  if 1 < paths.length then printLine (row total "total".toList)

/-! ## Directories -/

/-- The names in a directory, in the order of their bytes. -/
def listed (all : Bool) (names : List Bytes) : List Octets :=
  let names := (names.map Octets.ofBytes).mergeSort Octets.isBefore
  if all then ['.'] :: ['.', '.'] :: names else names.filter (·.head? != some '.')

def ls (arguments : List Octets) : Job Unit := do
  let (flags, operands) := splitFlags arguments
  let operands : List Octets :=
    if operands.isEmpty then [['.']] else operands.mergeSort Octets.isBefore
  let host := (← get).host
  let directories := operands.filter fun p => host.isDirectory p.toBytes && !flags.contains 'd'
  let mut isFirst := operands.all directories.contains
  for path in operands do
    match host.find path.toBytes with
    | .ok (.there _ _) => unless directories.contains path do printLine path
    | .ok (.missing _ _) =>
      fail 2 ("ls: cannot access ".toList ++ quoted path ++ ": ".toList ++ ofError .notFound)
    | .error e =>
      fail 2 ("ls: cannot access ".toList ++ quoted path ++ ": ".toList ++ ofError e)
  for path in directories do
    if 1 < operands.length then
      unless isFirst do print ['\n']
      isFirst := false
      printLine (path ++ [':'])
    for name in listed (flags.contains 'a') ((host.entries path.toBytes).toOption.getD []) do
      printLine name

def pwd : Job Unit := do printLine (Octets.ofBytes (← get).host.cwdPath)

def mkdir (arguments : List Octets) : Job Unit := do
  let (flags, paths) := splitFlags arguments
  for path in paths do
    let make (h : Host) : Except HostError Host :=
      if flags.contains 'p' then h.ensureDirectories path.toBytes else h.makeDirectory path.toBytes
    match ← change make with
    | none => pure ()
    | some e =>
      fail 1 ("mkdir: cannot create directory ".toList ++ quoted path ++ ": ".toList ++ ofError e)

/-- Remove what a path leads to. -/
def removed (recursive : Bool) (path : Octets) (h : Host) : Except HostError Host := do
  match ← h.locate false path.toBytes with
  | .missing _ _ => throw .notFound
  | .there place node =>
    if node == .directory && !recursive then throw .isDirectory
    return h.remove place

def rm (arguments : List Octets) : Job Unit := do
  let (flags, paths) := splitFlags arguments
  for path in paths do
    match ← change (removed (flags.contains 'r' || flags.contains 'R') path) with
    | none => pure ()
    | some e =>
      unless flags.contains 'f' && e == .notFound do
        fail 1 ("rm: cannot remove ".toList ++ quoted path ++ ": ".toList ++ ofError e)

def touch (arguments : List Octets) : Job Unit := do
  for path in (splitFlags arguments).2 do
    let make (h : Host) : Except HostError Host :=
      if h.exists? path.toBytes then .ok h else h.write path.toBytes []
    match ← change make with
    | none => pure ()
    | some e => fail 1 ("touch: cannot touch ".toList ++ quoted path ++ ": ".toList ++ ofError e)

end StageLens.Tool
