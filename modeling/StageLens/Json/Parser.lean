import StageLens.Json.Token

/-!
# Reading JSON

The parser is a machine fed one token at a time, with the arrays and objects that are open on a
stack. Where the input breaks or ends early, each open value is kept as far as it was read.
-/

namespace StageLens.Json

/-- An array or object that is open, its items or members latest first. -/
inductive Frame where
  | array (items : List Draft)
  | object (members : List (Option String × Draft))
  /-- An object with a key whose value is being read. -/
  | member (members : List (Option String × Draft)) (key : Option String)

/-- What may come next. -/
inductive Expect where
  | value
  | valueOrClose
  | keyOrClose
  | key
  | colon
  | commaOrClose

/-- The state between two tokens. -/
inductive Parser where
  | within (stack : List Frame) (expect : Expect)
  | done (root : Draft) (trailing : Bool)

namespace Parser

def start : Parser := .within [] .value

/-- Hand a complete value to what holds it. -/
def attach (stack : List Frame) (d : Draft) : Parser :=
  match stack with
  | [] => .done d false
  | .array items :: rest => .within (.array (d :: items) :: rest) .commaOrClose
  | .member members key :: rest => .within (.object ((key, d) :: members) :: rest) .commaOrClose
  | .object members :: rest => .within (.object members :: rest) .commaOrClose

/-- Hand a value to what holds it when reading has stopped inside it. -/
def stopOne (b : Break) (d : Draft) : Frame → Draft
  | .array items => .array (d :: items).reverse (some b)
  | .member members key => .object ((key, d) :: members).reverse (some b)
  | .object members => .object members.reverse (some b)

/-- The document when reading stops inside the value `d`. -/
def stopIn (b : Break) (d : Draft) (stack : List Frame) : Draft :=
  stack.foldl (fun d f => stopOne b d f) d

/-- The document when reading stops between values. -/
def stopBetween (b : Break) (stack : List Frame) : Draft :=
  match stack with
  | [] => .broken .nothing b
  | .array items :: rest => stopIn b (.array items.reverse (some b)) rest
  | .object members :: rest => stopIn b (.object members.reverse (some b)) rest
  | .member members key :: rest =>
    stopIn b (.object ((key, .broken .nothing b) :: members).reverse (some b)) rest

def malformed : Break := .of .malformed

/-- A token where a value is wanted. -/
def takeValue (stack : List Frame) : Token → Parser
  | .null => attach stack .null
  | .boolean b => attach stack (.boolean b)
  | .number n => attach stack (.number n)
  | .text s => attach stack (.text s)
  | .openArray => .within (.array [] :: stack) .valueOrClose
  | .openObject => .within (.object [] :: stack) .keyOrClose
  | .broken begun b => .done (stopIn b (.broken begun b) stack) false
  | _ => .done (stopIn malformed (.broken .other malformed) stack) false

/-- A token where a key is wanted. -/
def takeKey (members : List (Option String × Draft)) (stack : List Frame) (comma : Bool) :
    Token → Parser
  | .text s => .within (.member members s :: stack) .colon
  | .broken .text b =>
    .done (stopBetween { b with afterComma := comma } (.object members :: stack)) false
  | _ => .done (stopBetween { malformed with afterComma := comma } (.object members :: stack)) false

def step (p : Parser) (t : Token) : Parser :=
  match p with
  | .done root _ => .done root true
  | .within stack expect =>
    match expect, stack, t with
    | .valueOrClose, .array items :: rest, .closeArray => attach rest (.array items.reverse none)
    | .value, _, _ => takeValue stack t
    | .valueOrClose, _, _ => takeValue stack t
    | .keyOrClose, .object members :: rest, .closeObject =>
      attach rest (.object members.reverse none)
    | .keyOrClose, .object members :: rest, _ => takeKey members rest false t
    | .key, .object members :: rest, _ => takeKey members rest true t
    | .colon, _, .colon => .within stack .value
    | .commaOrClose, .array items :: rest, .closeArray => attach rest (.array items.reverse none)
    | .commaOrClose, .object members :: rest, .closeObject =>
      attach rest (.object members.reverse none)
    | .commaOrClose, .array _ :: _, .comma => .within stack .value
    | .commaOrClose, .object _ :: _, .comma => .within stack .key
    | _, _, _ => .done (stopBetween malformed stack) false

/-- The document when the input ends. -/
def close (p : Parser) : Document :=
  match p with
  | .done root trailing => ⟨root, trailing⟩
  | .within stack .value =>
    ⟨stopIn (.of .ended) (.broken .nothing (.of .ended)) stack, false⟩
  | .within stack .key => ⟨stopBetween { Break.of .ended with afterComma := true } stack, false⟩
  | .within stack _ => ⟨stopBetween (.of .ended) stack, false⟩

end Parser

/-- The document of tokens. -/
def ofTokens (ts : List Token) : Document := (ts.foldl Parser.step Parser.start).close

/-- Read a document. -/
def read (cs : List Char) : Document := ofTokens (tokens cs)

end StageLens.Json
