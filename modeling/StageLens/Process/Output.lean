import StageLens.Text.Utf8

/-!
# Captured output

What a run printed on its two streams, decoded and cut to a common budget of bytes: standard output
has the first claim on the budget and standard error takes what is left.

A stream is read no further than one byte past the budget (`bounded`); the byte is enough to tell
that the stream is too long.
-/

namespace StageLens

/-- The exit status and the streams of a run that came to an end. -/
structure Output where
  exitCode : Int32 := 0
  stdout : String := ""
  stderr : String := ""
  /-- Whether a stream was cut. -/
  truncated : Bool := false
  deriving DecidableEq, Repr

namespace Output

/-- What stands at the end of output that was cut. -/
def truncationMarker : String := "[output truncated]"

def success (o : Output) : Bool := o.exitCode == 0

def endsLine (s : String) : Bool := s.toList.getLast? == some '\n'

/-- Standard output, then standard error on a line of its own, then the marker on a line of its own
if a stream was cut. -/
def combined (o : Output) : String :=
  let text :=
    if o.stderr.isEmpty then o.stdout
    else o.stdout ++ (if o.stdout.isEmpty || endsLine o.stdout then "" else "\n") ++ o.stderr
  if o.truncated then text ++ (if endsLine text then "" else "\n") ++ truncationMarker
  else text

/-- What is read of a stream for a budget of `limit` bytes. -/
def bounded (limit : Nat) (stream : Bytes) : Bytes := stream.take (limit + 1)

/-- Decode two streams and cut them to a budget of `limit` bytes. -/
def capture (exitCode : Int32) (stdout stderr : Bytes) (limit : Nat) : Output :=
  let out := Text.decode stdout
  let err := Text.decode stderr
  let out' := if Text.size out ≤ limit then out else Text.fit limit out
  let left := limit - Text.size out'
  let err' := if Text.size err ≤ left then err else Text.fit left err
  { exitCode, stdout := String.ofList out', stderr := String.ofList err',
    truncated := limit < Text.size out || left < Text.size err }

end Output

end StageLens
