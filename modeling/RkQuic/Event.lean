import Mathlib.Tactic

/-! What the endpoint tells its caller, and the numbers that name things in it.
`Event` has the variants and the fields of event.rs; ids are the unsigned 64-bit
integers of the source. -/
namespace RkQuic

abbrev SessionId := UInt64
abbrev StreamId := UInt64

inductive Event where
  | sessionOpened (session_id : SessionId) (authority path : String)
  | sessionClosed (session_id : SessionId) (reason : String)
  | datagram (session_id : SessionId) (utf8 : String)
  | streamMessage (session_id : SessionId) (utf8 : String)
  | streamOpened (session_id : SessionId) (stream_id : StreamId)
  | streamData (session_id : SessionId) (stream_id : StreamId) (utf8 : String)
  | streamClosed (session_id : SessionId) (stream_id : StreamId)
  | endpointError (message : String)
  deriving DecidableEq, Repr

namespace Event

def session : Event → Option SessionId
  | sessionOpened s _ _ | sessionClosed s _ | datagram s _ | streamMessage s _ => some s
  | streamOpened s _ | streamData s _ _ | streamClosed s _ => some s
  | endpointError _ => none

def announces (id : SessionId) : Event → Bool
  | sessionOpened s _ _ | sessionClosed s _ => s = id
  | _ => false

def ofReader : Event → Prop
  | streamData _ _ _ | streamClosed _ _ => True
  | _ => False

end Event

def announcements (id : SessionId) (log : List Event) : List Event := log.filter (Event.announces id)

theorem announcementsAppend (id : SessionId) (log more : List Event) :
    announcements id (log ++ more) = announcements id log ++ announcements id more :=
  List.filter_append _ _

end RkQuic
