import RkQuic.Event
import RkQuic.Ffi
import RkQuic.Json

/-! An event on its way from the queue to the program: the JSON that the native side derives,
the buffer it is handed over in, and the hand-written reader on the Dart side, to which a
field that is missing or has another type is -1 or empty. -/
namespace RkQuic.EventJson
open Json

/-! event.rs: `tag = "kind"`, and camel case for the variants and for their fields. -/

def kind : Event → String
  | .sessionOpened _ _ _ => "sessionOpened"
  | .sessionClosed _ _ => "sessionClosed"
  | .datagram _ _ => "datagram"
  | .streamMessage _ _ => "streamMessage"
  | .streamOpened _ _ => "streamOpened"
  | .streamData _ _ _ => "streamData"
  | .streamClosed _ _ => "streamClosed"
  | .endpointError _ => "endpointError"

def number (n : UInt64) : Scalar := .nat n.toNat

def fields : Event → List (String × Scalar)
  | .sessionOpened session_id authority path =>
    [("sessionId", number session_id), ("authority", .text authority), ("path", .text path)]
  | .sessionClosed session_id reason => [("sessionId", number session_id), ("reason", .text reason)]
  | .datagram session_id utf8 => [("sessionId", number session_id), ("utf8", .text utf8)]
  | .streamMessage session_id utf8 => [("sessionId", number session_id), ("utf8", .text utf8)]
  | .streamOpened session_id stream_id => [("sessionId", number session_id), ("streamId", number stream_id)]
  | .streamData session_id stream_id utf8 =>
    [("sessionId", number session_id), ("streamId", number stream_id), ("utf8", .text utf8)]
  | .streamClosed session_id stream_id => [("sessionId", number session_id), ("streamId", number stream_id)]
  | .endpointError message => [("message", .text message)]

def toJson (e : Event) : String := compact (("kind", .text (kind e)) :: fields e)

/- `CString::new`: no zero byte inside, and one put behind. -/
def cString (value : String) : Option Bytes :=
  if 0 ∈ Utf8.encode value then none else some (Utf8.encode value ++ [0])

def intoOwnedCString (value : String) : Bytes :=
  match cString value with
  | some s => s
  | none => Utf8.encode "<string contained a NUL>" ++ [0]

/- What `pollLoop` sends on, if the buffer can be read. -/
def polled (e : Event) : Option String := Ffi.toDartString (intoOwnedCString (toJson e))

/-! quic_event.dart. A string of the program is code units, and `raw` is one that came out of UTF-8. -/

inductive QuicEvent where
  | sessionOpened (sessionId : Int) (authority path : Units)
  | sessionClosed (sessionId : Int) (reason : Units)
  | datagramReceived (sessionId : Int) (message : Units)
  | streamMessageReceived (sessionId : Int) (message : Units)
  | streamOpened (sessionId streamId : Int)
  | streamData (sessionId streamId : Int) (message : Units)
  | streamClosed (sessionId streamId : Int)
  | endpointError (message : Units)
  | unknownQuicEvent (kind : Units) (raw : String) (detail : Option String)
  deriving DecidableEq, Repr

abbrev Decoded := List (Units × Value Units)

/- Of two entries with one key a map keeps the later. -/
def get (decoded : Decoded) (key : String) : Option (Value Units) :=
  (decoded.reverse.find? fun field => field.1 = Utf16.encode key).map Prod.snd

def numberOf (decoded : Decoded) (key : String) : Int :=
  match get decoded key with
  | some (.int n) => n
  | _ => -1

def textOf (decoded : Decoded) (key : String) : Units :=
  match get decoded key with
  | some (.string s) => s
  | _ => []

def ofKind (decoded : Decoded) (raw : String) (kind : Units) : QuicEvent :=
  let number := numberOf decoded
  let text := textOf decoded
  if kind = Utf16.encode "sessionOpened" then
    .sessionOpened (number "sessionId") (text "authority") (text "path")
  else if kind = Utf16.encode "sessionClosed" then .sessionClosed (number "sessionId") (text "reason")
  else if kind = Utf16.encode "datagram" then .datagramReceived (number "sessionId") (text "utf8")
  else if kind = Utf16.encode "streamMessage" then .streamMessageReceived (number "sessionId") (text "utf8")
  else if kind = Utf16.encode "streamOpened" then .streamOpened (number "sessionId") (number "streamId")
  else if kind = Utf16.encode "streamData" then .streamData (number "sessionId") (number "streamId") (text "utf8")
  else if kind = Utf16.encode "streamClosed" then .streamClosed (number "sessionId") (number "streamId")
  else if kind = Utf16.encode "endpointError" then .endpointError (text "message")
  else .unknownQuicEvent kind raw none

/-- `complaint` is what the exception says about a text that is no JSON. -/
def fromJson (complaint : String → String) (json : String) : QuicEvent :=
  match Dialect.dart.decode json with
  | none => .unknownQuicEvent (Utf16.encode "<unparsable>") json (some (complaint json))
  | some (.object decoded) =>
    match get decoded "kind" with
    | some (.string kind) => ofKind decoded json kind
    | _ => .unknownQuicEvent (Utf16.encode "<no kind>") json none
  | some _ => .unknownQuicEvent (Utf16.encode "<not an object>") json (some "expected a JSON object")

def dart : Event → QuicEvent
  | .sessionOpened session_id authority path =>
    .sessionOpened session_id.toNat (Utf16.encode authority) (Utf16.encode path)
  | .sessionClosed session_id reason => .sessionClosed session_id.toNat (Utf16.encode reason)
  | .datagram session_id utf8 => .datagramReceived session_id.toNat (Utf16.encode utf8)
  | .streamMessage session_id utf8 => .streamMessageReceived session_id.toNat (Utf16.encode utf8)
  | .streamOpened session_id stream_id => .streamOpened session_id.toNat stream_id.toNat
  | .streamData session_id stream_id utf8 => .streamData session_id.toNat stream_id.toNat (Utf16.encode utf8)
  | .streamClosed session_id stream_id => .streamClosed session_id.toNat stream_id.toNat
  | .endpointError message => .endpointError (Utf16.encode message)

def stream : Event → Option StreamId
  | .streamOpened _ stream_id | .streamData _ stream_id _ | .streamClosed _ stream_id => some stream_id
  | _ => none

theorem fieldsSmall {e : Event} (sessions : ∀ id ∈ e.session, id.toNat < 2 ^ 63)
    (streams : ∀ id ∈ stream e, id.toNat < 2 ^ 63) :
    ∀ f ∈ ("kind", .text (kind e)) :: fields e, ∀ n, f.2 = .nat n → n < 2 ^ 63 := by
  intro f member n same
  cases e <;>
    simp only [fields, number, List.mem_cons, List.not_mem_nil, or_false, Event.session, stream, Option.mem_def,
      Option.some.injEq, forall_eq'] at member sessions streams
  all_goals
    rcases member with rfl | rfl | rfl | rfl <;> cases same
  all_goals
    first | exact sessions | exact streams

theorem jsonClean (e : Event) : '\x00' ∉ (toJson e).toList := by
  intro member
  exact absurd (compactHigh _ _ member) (by decide)

theorem jsonBytes (e : Event) : 0 ∉ Utf8.encode (toJson e) := by
  rw [Utf8.encodeChars, List.mem_flatMap]
  rintro ⟨c, member, zero⟩
  rw [Utf8.zeroByte] at zero
  exact jsonClean e (zero ▸ member)

theorem cStringJson (e : Event) : cString (toJson e) = some (Ffi.toNativeUtf8 (toJson e)) :=
  if_neg (jsonBytes e)

theorem polledJson (e : Event) : polled e = some (toJson e) := by
  rw [polled, intoOwnedCString, cStringJson, Ffi.toDartString, Ffi.untilNulNative, Utf8.decodeEncode,
    Ffi.beforeNulSelf (jsonClean e)]

theorem ofKindFields (e : Event) (raw : String) :
    ofKind ((("kind", .text (kind e)) :: fields e).map Dialect.dart.field) raw (Utf16.encode (kind e)) = dart e := by
  cases e <;>
    simp [ofKind, kind, fields, number, numberOf, textOf, get, List.find?, Dialect.field, Scalar.value, dart]

theorem getKind (e : Event) :
    get ((("kind", .text (kind e)) :: fields e).map Dialect.dart.field) "kind" =
      some (.string (Utf16.encode (kind e))) := by
  cases e <;> simp [kind, fields, get, List.find?, Dialect.field, Scalar.value]

theorem eventCrosses (complaint : String → String) {e : Event} (sessions : ∀ id ∈ e.session, id.toNat < 2 ^ 63)
    (streams : ∀ id ∈ stream e, id.toNat < 2 ^ 62) :
    '\x00' ∉ (toJson e).toList ∧ cString (toJson e) = some (Utf8.encode (toJson e) ++ [0]) ∧
      (polled e).map (fromJson complaint) = some (dart e) := by
  refine ⟨jsonClean e, cStringJson e, ?_⟩
  have small := fieldsSmall sessions fun id member => (streams id member).trans (by decide)
  have decoded := decodeCompact .dart (List.cons_ne_nil _ _) small
  rw [polledJson, Option.map_some, fromJson, show toJson e = compact _ from rfl, decoded]
  simp only [getKind]
  rw [ofKindFields]

theorem eventCrossesQuoted :
    (polled (.streamData 7 4 "say \"hi\"\n\x00")).map (fromJson id) =
      some (.streamData 7 4 (Utf16.encode "say \"hi\"\n\x00")) := by
  have sessions : ∀ n ∈ (Event.streamData 7 4 "say \"hi\"\n\x00").session, n.toNat < 2 ^ 63 := by
    rintro n ⟨⟩
    decide
  have streams : ∀ n ∈ stream (.streamData 7 4 "say \"hi\"\n\x00"), n.toNat < 2 ^ 62 := by
    rintro n ⟨⟩
    decide
  exact (eventCrosses id sessions streams).2.2

end RkQuic.EventJson
