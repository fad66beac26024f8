import StageLens.Stage.Basic
import StageLens.Text.Blank

/-!
# Requests

A request is a source text and options. It is valid when the source is not blank and not larger
than a limit; nothing else is asked of the source.
-/

namespace StageLens

structure Request where
  source : String
  options : Options := {}
  deriving DecidableEq, Repr

/-- Why a request is turned away before anything is done for it. -/
inductive Invalid where
  | emptySource
  | sourceTooLarge (size limit : Nat)
  deriving DecidableEq, Repr

def Invalid.message : Invalid → String
  | emptySource => "Source is required"
  | sourceTooLarge size limit =>
    "Source is " ++ toString size ++ " bytes, the limit is " ++ toString limit ++ " bytes"

/-- What is wrong with a request, for sources of at most `limit` bytes. -/
def Request.invalid? (r : Request) (limit : Nat) : Option Invalid :=
  if Text.isBlankText r.source then some .emptySource
  else if limit < r.source.utf8ByteSize then some (.sourceTooLarge r.source.utf8ByteSize limit)
  else none

end StageLens
