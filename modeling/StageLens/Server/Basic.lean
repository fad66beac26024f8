import StageLens.Number.Power
import StageLens.Orchestrator.Basic
import StageLens.Server.MediaType
import StageLens.Wire.Request
import StageLens.Wire.Response

/-!
# The HTTP service

Three routes: the health of the service, the stages, and the compilation of a request. `read` turns
what a client sent into what it asks for, or into the reply that turns it away; the body of a
compilation may be larger than the largest source by a factor that covers every way of writing it
in JSON.
-/

namespace StageLens.Server

/-- What a client sent. -/
structure Message where
  method : String
  /-- The path, with a query if there is one. -/
  target : String
  headers : List (String × String) := []
  body : Bytes := []
  deriving Repr

/-- What a reply holds. -/
inductive Content where
  | nothing
  | json (j : Json)
  /-- The headers of a JSON answer without the answer. -/
  | jsonHead
  /-- A note of the framework, whose wording is not fixed. -/
  | note

structure Reply where
  status : Nat
  content : Content
  /-- The methods that the path has, for a message with another one. -/
  allow : Option String := none
  /-- Whether the reply answers a question about what other origins may send. -/
  preflight : Bool := false

/-- The headers of a reply. Every reply is open to all origins. -/
def Reply.headers (r : Reply) : List (String × String) :=
  (match r.content with
    | .nothing => []
    | .json _ | .jsonHead => [("content-type", "application/json")]
    | .note => [("content-type", "text/plain; charset=utf-8")]) ++
  r.allow.toList.map (("allow", ·)) ++
  [("access-control-allow-origin", "*")] ++
  (if r.preflight then
    [("access-control-allow-methods", "*"), ("access-control-allow-headers", "*")] else [])

/-! ## Routes -/

inductive Route where
  | health
  | stages
  | compile
  deriving DecidableEq, Repr

def Route.path : Route → String
  | health => "/api/health"
  | stages => "/api/stages"
  | compile => "/api/compile"

def Route.all : List Route := [.health, .stages, .compile]

/-- The path of a target, without its query. -/
def pathOf (target : String) : List Char := target.toList.takeWhile fun c => c != '?' && c != '#'

def Route.ofTarget? (target : String) : Option Route :=
  Route.all.find? (·.path.toList == pathOf target)

/-- The method that a route answers. Where this is `GET` it answers `HEAD` too. -/
def Route.method : Route → String
  | health | stages => "GET"
  | compile => "POST"

/-- The methods of a route as a reply lists them. -/
def Route.allow : Route → String
  | health | stages => "GET,HEAD"
  | compile => "POST"

/-! ## Bodies -/

/-- The greatest number that a size can be. -/
def greatestSize : Nat := Number.pow2 64 - 1

/-- The largest body for sources of at most `n` bytes. A byte of the source takes at most six in
JSON, and the rest of the document has room of its own. -/
def bodyLimit (n : Nat) : Nat := min greatestSize (min greatestSize (n * 6) + 64 * 1024)

/-- The characters of a body. Where it stops being UTF-8 the text ends with a character that JSON
allows nowhere. -/
def characters (body : Bytes) : List Char := go (Text.decode body) body
where
  go : List Char → Bytes → List Char
    | [], _ => []
    | c :: cs, bs =>
      let own := String.utf8EncodeChar c
      if own.isPrefixOf bs then c :: go cs (bs.drop own.length) else [Char.ofNat 0]

def header? (m : Message) (name : String) : Option String :=
  (m.headers.find? fun e => e.1.toLower == name).map Prod.snd

/-- Whether a message says that its body is JSON. -/
def isJson (m : Message) : Bool :=
  match (header? m "content-type").bind MediaType.ofHeader? with
  | some t => t.isJson
  | none => false

/-- The request in the body of a message, or the reply that turns it away. -/
def readBody (limit : Nat) (m : Message) : Except Reply Request :=
  if !isJson m then .error ⟨415, .note, none, false⟩
  else if limit < m.body.length then .error ⟨413, .note, none, false⟩
  else match Wire.document Wire.readRequest (characters m.body) with
    | .ok r => .ok r
    | .error (.fault _) => .error ⟨400, .note, none, false⟩
    | .error (.mismatch _) => .error ⟨422, .note, none, false⟩

/-! ## Messages -/

/-- The stages as a document. -/
def stagesDocument : Json :=
  .array (Stage.all.map fun s => .object [("key", .text s.key), ("label", .text s.label),
    ("demangleEligible", .boolean s.mayMangle), ("optimizationAffected", .boolean s.isOptimizable)])

def healthDocument : Json := .object [("status", .text "ok")]

/-- The reply to a request that was answered. -/
def replyOf (answer : Except Orchestrator.Refusal Response) : Reply :=
  match answer with
  | .ok r =>
    match (Wire.responseDatum r).json? with
    | .ok j => { status := 200, content := .json j }
    | .error _ => { status := 500, content := .note }
  | .error e =>
    { status := if e.isClientError then 400 else 500
      content := .json (.object [("error", .text e.message)]) }

/-- What is reported about a reply. -/
def report (answer : Except Orchestrator.Refusal Response) : List Event :=
  match answer with
  | .ok _ => []
  | .error e => if e.isClientError then [] else [.answerFailed]

/-- What a message asks for. -/
inductive Demand where
  | reply (r : Reply)
  | compile (r : Request)

/-- What a message asks for, with the largest body that is taken. -/
def read (limit : Nat) (m : Message) : Demand :=
  let route := Route.ofTarget? m.target
  if m.method == "OPTIONS" then
    .reply { status := 200, content := .nothing, allow := route.map Route.allow, preflight := true }
  else match route with
    | none => .reply { status := 404, content := .nothing }
    | some route =>
      let isHead := m.method == "HEAD" && route.method == "GET"
      if m.method != route.method && !isHead then
        .reply { status := 405, content := .nothing, allow := some route.allow }
      else match route with
        | .health => .reply ⟨200, if isHead then .jsonHead else .json healthDocument, none, false⟩
        | .stages => .reply ⟨200, if isHead then .jsonHead else .json stagesDocument, none, false⟩
        | .compile =>
          match readBody limit m with
          | .error r => .reply r
          | .ok r => .compile r

end StageLens.Server
