/-!
# Media types

The part of a `content-type` header that decides whether a body is JSON: the type and the subtype,
or the suffix behind the last plus of the subtype. Case does not count. A header with broken
parameters names no media type at all.
-/

namespace StageLens.Server

/-- A type and a subtype in lower case. -/
structure MediaType where
  main : List Char
  sub : List Char
  /-- What stands behind the last plus. -/
  suffix : Option (List Char)
  deriving DecidableEq, Repr

namespace MediaType

/-- The characters of a token. -/
def isToken (c : Char) : Bool :=
  c.isAlphanum || ['!', '#', '$', '%', '&', '\'', '*', '+', '-', '.', '^', '_', '|', '~'].contains c ||
    c.toNat == 0x60

/-- What can stand between quotes. -/
def isQuotable (c : Char) : Bool := c == '\t' || (' ' ≤ c && c ≤ '~' && c != '"')

/-- The rest after a parameter in quotes: blanks and a semicolon, or the end. -/
def afterQuoted (cs : List Char) : Option (List Char) :=
  match cs.dropWhile (· == ' ') with
  | [] => some []
  | ';' :: rest => some rest
  | _ => none

/-- The value of a parameter, and what stands behind it and its semicolon. -/
def parameterValue (cs : List Char) : Option (List Char) :=
  match cs with
  | '"' :: inner =>
    match inner.span isQuotable with
    | (_ :: _, '"' :: rest) => afterQuoted rest
    | _ => none
  | _ =>
    match cs.span isToken with
    | (_, []) => some []
    | (_ :: _, ';' :: rest) => some rest
    | _ => none

/-- Whether the parameters can be read. The fuel bounds their number. -/
def parametersOk : Nat → List Char → Bool
  | _, [] => true
  | 0, _ => false
  | fuel + 1, ' ' :: cs => parametersOk fuel cs
  | fuel + 1, cs =>
    match cs.span isToken with
    | (_ :: _, '=' :: rest) =>
      match parameterValue rest with
      | some rest => parametersOk fuel rest
      | none => false
    | _ => false

/-- The part before the last plus and the part behind it. -/
def splitSuffix (sub : List Char) : List Char × Option (List Char) :=
  match sub.reverse.span (· != '+') with
  | (after, '+' :: before) =>
    if before.isEmpty then (sub, none) else (before.reverse, some after.reverse)
  | _ => (sub, none)

/-- The media type of a header. -/
def ofHeader? (value : String) : Option MediaType :=
  let cs := value.toList.map Char.toLower
  match cs.span isToken with
  | (main@(_ :: _), '/' :: rest) =>
    match rest.span isToken with
    | (sub@(_ :: _), []) => some ⟨main, (splitSuffix sub).1, (splitSuffix sub).2⟩
    | (sub@(_ :: _), ';' :: rest) =>
      if parametersOk rest.length rest then some ⟨main, (splitSuffix sub).1, (splitSuffix sub).2⟩
      else none
    | _ => none
  | _ => none

def isJson (m : MediaType) : Bool :=
  m.main == "application".toList &&
    (m.sub == "json".toList || m.suffix == some "json".toList)

end MediaType

end StageLens.Server
