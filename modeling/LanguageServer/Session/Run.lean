import LanguageServer.Frame
import LanguageServer.Outlet
import LanguageServer.Session
/-!
A session over a stream of bytes, with a client that may stop taking messages. The session goes
from frame to frame until the client asks the server to exit, the stream ends, or one of the two
sides fails.
-/

namespace LanguageServer

namespace Session

/-- What one reading from a stream leads to. -/
inductive Turn
  | ended
  | failed (error : ReadError)
  | handled (session : Session) (messages : List Outgoing)

/-- Takes what is read. A body that is no JSON value is answered, and the session goes on. -/
def turn (session : Session) : Reading → Turn
  | .ended => .ended
  | .message value =>
    let (session, messages) := session.handle value
    .handled session messages
  | .failed .malformed => .handled session [.failure .null .malformed]
  | .failed error => .failed error

/-- Why a session over a stream fails. -/
inductive RunError
  | unreadable (error : ReadError)
  | unwritable
  deriving DecidableEq, Repr

/-- How a session over a stream comes out: cleanly or not, or with an error; the last state, the
messages that were sent, and the bytes that were not read. -/
structure Outcome where
  result : Except RunError Bool
  session : Session
  sent : List Outgoing
  unread : List UInt8

/-- The outcome of a session that sent some messages before. -/
def Outcome.prepend (sent : List Outgoing) (outcome : Outcome) : Outcome :=
  { outcome with sent := sent ++ outcome.sent }

/-- Serves frame after frame. -/
def run (session : Session) (outlet : Outlet) (input : List UInt8) : Outcome :=
  if session.exiting then ⟨.ok session.isClean, session, [], input⟩
  else if _nonempty : input = [] then ⟨.ok session.isClean, session, [], []⟩
  else
    match session.turn (Frame.read input).1 with
    | .ended => ⟨.ok session.isClean, session, [], (Frame.read input).2⟩
    | .failed error => ⟨.error (.unreadable error), session, [], (Frame.read input).2⟩
    | .handled next messages =>
      let delivery := outlet.send messages
      if delivery.complete then
        (run next delivery.outlet (Frame.read input).2).prepend delivery.taken
      else ⟨.error .unwritable, next, delivery.taken, (Frame.read input).2⟩
termination_by input.length
decreasing_by exact Frame.length_lt_of_read _nonempty

/-- The exit code of a program whose session comes out so: zero for a clean end only. -/
def Outcome.exitCode (outcome : Outcome) : UInt32 :=
  match outcome.result with
  | .ok true => 0
  | _ => 1

end Session

end LanguageServer
