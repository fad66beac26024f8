import StageLens.Shell.Expansion

/-!
# Redirections

Descriptors are sent to files or to where other descriptors go. A redirection that fails is
reported, and the command is not run.
-/

namespace StageLens.Shell.Effect

/-- The handle of a file that is written from its end on; with `fresh` it is emptied first. -/
def openFile (h : Host) (fresh : Bool) (path : Octets) : Except HostError (Host × Handle) := do
  let h ← if fresh || !h.exists? path.toBytes then h.write path.toBytes [] else pure h
  match ← h.find path.toBytes with
  | .there _ .null => return (h, .null)
  | .there place (.file _ _) => return (h, .file place)
  | .there _ _ => throw .isDirectory
  | .missing _ _ => throw .notFound

/-- Write to a file, or say why not. -/
def writeFile (fresh : Bool) (descriptor : Nat) (path : Octets) : Effect Bool := do
  match openFile (← get).host fresh path with
  | .ok (host, handle) =>
    modify fun s => { s with host }
    setHandle descriptor (some handle)
    return true
  | .error e =>
    let reason := if e == .notFound then "Directory nonexistent" else e.words
    complain ("cannot create ".toList ++ path ++ ": ".toList ++ reason.toList)
    return false

/-- Follow one redirection; false if it fails. -/
def redirect (perform : Perform) (r : Redirection) : Effect Bool := do
  match r.target with
  | .read w =>
    let path ← text perform w
    match (← get).host.read path.toBytes with
    | .ok contents =>
      setHandle r.descriptor (some (← openText (Octets.ofBytes contents) 0))
      return true
    | .error e =>
      let reason := if e == .notFound then "No such file" else e.words
      complain ("cannot open ".toList ++ path ++ ": ".toList ++ reason.toList)
      return false
  | .write w => writeFile true r.descriptor (← text perform w)
  | .append w => writeFile false r.descriptor (← text perform w)
  | .same w =>
    let name ← text perform w
    if name = ['-'] then
      setHandle r.descriptor none
      return true
    match Octets.digits? 10 name with
    | none =>
      complain "Syntax error: Bad fd number".toList
      return false
    | some n =>
      match ← handle? n with
      | some h =>
        setHandle r.descriptor (some h)
        return true
      | none =>
        complain (name ++ ": Bad file descriptor".toList)
        return false

/-- Follow redirections until one fails. -/
def redirectAll (perform : Perform) : List Redirection → Effect Bool
  | [] => return true
  | r :: rs => do
    if ← redirect perform r then redirectAll perform rs
    else
      setStatus 2
      return false

/-- The descriptors that a redirection leaves, as far as its words are bare. -/
def keptBy (handles : List (Nat × Handle)) (r : Redirection) : List (Nat × Handle) :=
  let others := handles.filter (·.1 ≠ r.descriptor)
  match r.target with
  | .same w =>
    match ((Word.bare? w).bind (Octets.digits? 10)).bind (List.lookup · handles) with
    | some h => (r.descriptor, h) :: others
    | none => others
  | _ => (r.descriptor, .null) :: others

/-- The sinks that a command in the background keeps open. -/
def keptSinks (handles : List (Nat × Handle)) (c : Command) : List Nat :=
  let redirections := match c with
    | .simple c => c.redirections
    | .redirected _ rs => rs
    | _ => []
  (redirections.foldl keptBy handles).filterMap fun (_, h) => match h with
    | .sink n => some n
    | _ => none

end StageLens.Shell.Effect
