import StageLens.Stage.Result

/-!
# Responses

A response maps stages to results and keeps the order in which stages were first inserted.
Inserting a stage again replaces its result where it stands.
-/

namespace StageLens

/-- The results of a request, in the order of their first insertion. -/
structure Response where
  entries : List (Stage × StageResult)
  deriving DecidableEq, Repr

namespace Response

def empty : Response := ⟨[]⟩

/-- The entries with the result of one stage set. -/
def insertEntry (s : Stage) (r : StageResult) :
    List (Stage × StageResult) → List (Stage × StageResult)
  | [] => [(s, r)]
  | (t, q) :: rest => if t = s then (s, r) :: rest else (t, q) :: insertEntry s r rest

def insert (m : Response) (s : Stage) (r : StageResult) : Response := ⟨insertEntry s r m.entries⟩

def ofList (entries : List (Stage × StageResult)) : Response :=
  entries.foldl (fun m e => m.insert e.1 e.2) empty

def get? (m : Response) (s : Stage) : Option StageResult := m.entries.lookup s

def keys (m : Response) : List Stage := m.entries.map Prod.fst

def size (m : Response) : Nat := m.entries.length

def isEmpty (m : Response) : Bool := m.entries.isEmpty

/-- Whether the response holds every stage and nothing else. -/
def isComplete (m : Response) : Bool :=
  m.size == Stage.all.length && Stage.all.all (m.keys.contains ·)

/-- Whether every result has exit code zero. -/
def allSucceeded (m : Response) : Bool := m.entries.all (·.2.succeeded)

/-- The entries of the stages in a list, in their order here; all of them for the empty list. -/
def select (m : Response) (stages : List Stage) : Response :=
  if stages.isEmpty then m else ⟨m.entries.filter fun e => stages.contains e.1⟩

end Response

end StageLens
