import RkQuic.Ffi
import RkQuic.Event

/-! One outgoing message, from the Dart call to the bytes the transport is given.
The layers below answer as they please; `Lower` is what they answer, so a statement
about every `Lower` is one about every state of the endpoint and of the network. -/
namespace RkQuic.Payload
open Ffi

inductive Target where
  | session (session_id : SessionId) (reliable : Bool)
  | stream (session_id : SessionId) (stream_id : StreamId)
  deriving DecidableEq, Repr

structure Lower where
  endpoint : Bool
  known : Bool
  runtime : Bool
  openUni : Bool
  opened : Bool
  writeAll : Bool
  finish : Bool
  sendDatagram : Bool
  deriving DecidableEq, Repr

structure Outcome (σ : Type) where
  status : σ
  handed : List (Target × Bytes)
  deriving DecidableEq, Repr

/- `Endpoint::send`: four awaits on the reliable road, one call on the other. -/
def send (net : Lower) (session_id : SessionId) (payload : String) (reliable : Bool) : Outcome Status :=
  let handed := [(Target.session session_id reliable, Utf8.encode payload)]
  if !net.known then ⟨.unknownHandle, []⟩
  else if !net.runtime then ⟨.notRunning, []⟩
  else if reliable then
    if !net.openUni then ⟨.peerGone, []⟩
    else if !net.opened then ⟨.peerGone, []⟩
    else if !net.writeAll then ⟨.peerGone, handed⟩
    else if !net.finish then ⟨.peerGone, handed⟩
    else ⟨.ok, handed⟩
  else if net.sendDatagram then ⟨.ok, handed⟩ else ⟨.peerGone, handed⟩

def streamSend (net : Lower) (session_id : SessionId) (stream_id : StreamId) (payload : String) :
    Outcome Status :=
  let handed := [(Target.stream session_id stream_id, Utf8.encode payload)]
  if !net.known then ⟨.unknownHandle, []⟩
  else if !net.runtime then ⟨.notRunning, []⟩
  else if net.writeAll then ⟨.ok, handed⟩ else ⟨.peerGone, handed⟩

def rkQuicSessionSend (net : Lower) (session_id : SessionId) (payloadUtf8 : Option Bytes)
    (reliable : UInt8) : Outcome Status :=
  match borrowCString payloadUtf8 with
  | none => ⟨.invalidArgument, []⟩
  | some payload =>
    if !net.endpoint then ⟨.unknownHandle, []⟩ else send net session_id payload (reliable != 0)

def rkQuicStreamSend (net : Lower) (session_id : SessionId) (stream_id : StreamId)
    (payloadUtf8 : Option Bytes) : Outcome Status :=
  match borrowCString payloadUtf8 with
  | none => ⟨.invalidArgument, []⟩
  | some payload =>
    if !net.endpoint then ⟨.unknownHandle, []⟩ else streamSend net session_id stream_id payload

def toDart (o : Outcome Status) : Outcome RkQuicStatus :=
  ⟨statusFromWireName (toDartString (asCStr o.status)), o.handed⟩

/- The two commands of `_commandLoop` that carry a message. -/
def sendCommand (net : Lower) (sessionId : SessionId) (message : String) (reliable : Bool) :
    Outcome RkQuicStatus :=
  toDart (rkQuicSessionSend net sessionId (some (toNativeUtf8 message)) (if reliable then 1 else 0))

def streamSendCommand (net : Lower) (sessionId : SessionId) (streamId : StreamId) (message : String) :
    Outcome RkQuicStatus :=
  toDart (rkQuicStreamSend net sessionId streamId (some (toNativeUtf8 message)))

inductive Road where
  | serverSend (sessionId : SessionId) (reliable : Bool)
  | serverSendOn (sessionId : SessionId) (streamId : StreamId)
  -- a client has one session, its own
  | clientSend (ownSession : SessionId) (reliable : Bool)
  | clientSendOn (ownSession : SessionId) (streamId : StreamId)
  deriving DecidableEq, Repr

def Road.target : Road → Target
  | serverSend s reliable | clientSend s reliable => .session s reliable
  | serverSendOn s t | clientSendOn s t => .stream s t

def call (stopped : Bool) (net : Lower) (message : String) : Road → Outcome RkQuicStatus
  | .serverSend s reliable | .clientSend s reliable =>
    if stopped then ⟨.notRunning, []⟩ else sendCommand net s message reliable
  | .serverSendOn s t | .clientSendOn s t =>
    if stopped then ⟨.notRunning, []⟩ else streamSendCommand net s t message

def Faithful (message : String) : Prop :=
  ∀ road stopped net, (call stopped net message road).status = .ok →
    (call stopped net message road).handed = [(road.target, Utf8.encode message)]

theorem sendOk {net session_id payload reliable}
    (ok : (send net session_id payload reliable).status = .ok) :
    (send net session_id payload reliable).handed =
      [(Target.session session_id reliable, Utf8.encode payload)] := by
  unfold send at ok ⊢
  split_ifs at ok ⊢ <;> rfl

theorem streamSendOk {net session_id stream_id payload}
    (ok : (streamSend net session_id stream_id payload).status = .ok) :
    (streamSend net session_id stream_id payload).handed =
      [(Target.stream session_id stream_id, Utf8.encode payload)] := by
  unfold streamSend at ok ⊢
  split_ifs at ok ⊢
  rfl

theorem sendCommandOk {net s message reliable} (ok : (sendCommand net s message reliable).status = .ok) :
    (sendCommand net s message reliable).handed =
      [(Target.session s reliable, Utf8.encode (beforeNul message))] := by
  simp only [sendCommand, toDart, statusCrosses, RkQuicStatus.ofStatusOk, rkQuicSessionSend,
    borrowNative] at ok ⊢
  split_ifs at ok ⊢ with resolved kind
  · have := sendOk ok
    simpa [kind] using this
  · have := sendOk ok
    simpa [kind] using this

theorem streamSendCommandOk {net s t message} (ok : (streamSendCommand net s t message).status = .ok) :
    (streamSendCommand net s t message).handed =
      [(Target.stream s t, Utf8.encode (beforeNul message))] := by
  simp only [streamSendCommand, toDart, statusCrosses, RkQuicStatus.ofStatusOk, rkQuicStreamSend,
    borrowNative] at ok ⊢
  split_ifs at ok ⊢ with resolved
  exact streamSendOk ok

theorem callStopped (net : Lower) (message : String) (road : Road) :
    (call true net message road).status = .notRunning := by
  cases road <;> rfl

theorem callOk {stopped net message road} (ok : (call stopped net message road).status = .ok) :
    (call stopped net message road).handed =
      [(road.target, Utf8.encode (beforeNul message))] := by
  cases stopped with
  | true => rw [callStopped] at ok; contradiction
  | false =>
    cases road with
    | serverSend s reliable => exact sendCommandOk ok
    | serverSendOn s t => exact streamSendCommandOk ok
    | clientSend s reliable => exact sendCommandOk ok
    | clientSendOn s t => exact streamSendCommandOk ok

def allWell : Lower := ⟨true, true, true, true, true, true, true, true⟩

theorem allWellOk (s : SessionId) (message : String) :
    (call false allWell message (.serverSend s true)).status = .ok := by
  simp [call, sendCommand, toDart, statusCrosses, RkQuicStatus.ofStatusOk, rkQuicSessionSend,
    borrowNative, allWell, send]

theorem faithfulKeepsAll {message : String} (faithful : Faithful message) :
    beforeNul message = message := by
  have ok := allWellOk 1 message
  have handed := faithful _ _ _ ok
  rw [callOk ok] at handed
  simp only [List.cons.injEq, Prod.mk.injEq, true_and, and_true] at handed
  exact Utf8.encodeInjective handed

theorem faithfulIffNoNul (message : String) : Faithful message ↔ '\x00' ∉ message.toList := by
  constructor
  · intro faithful
    rw [← faithfulKeepsAll faithful]
    exact beforeNulClean message
  · intro clean road stopped net ok
    rw [callOk ok, beforeNulSelf clean]

theorem cutAtNul : ¬ Faithful "a\x00b" := by
  intro faithful
  have := congrArg String.toList (faithfulKeepsAll faithful)
  rw [beforeNul, String.toList_ofList] at this
  exact absurd this (by decide)

end RkQuic.Payload
