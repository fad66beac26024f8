import StageLens.Orchestrator.Schedule
import StageLens.Server.Basic

/-!
# Serving messages

A message that asks for a compilation is a call of the orchestrator, and the reply is made of the
answer to that call.
-/

namespace StageLens.Server

open Orchestrator (Settings Schedule)

/-- The reply to a message; none if its call never ends. -/
def serve (s : Settings) (runner : Runner) (c : Schedule) (m : Message) : Schedule × Option Reply :=
  match read (bodyLimit s.sourceLimit) m with
  | .reply r => (c, some r)
  | .compile r =>
    match c.answer s runner [(r, none)] with
    | (c, [.returned answer]) =>
      ({ c with state := c.state.report (report answer) }, some (replyOf answer))
    | (c, _) => (c, none)

end StageLens.Server
