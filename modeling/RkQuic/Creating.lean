import RkQuic.Event
import RkQuic.Guard
import RkQuic.ServerConfig

/-! The calls that create something: `rk_quic_server_start`, `rk_quic_client_connect` and
`rk_quic_client_open_stream`, over the part of the process they can change. Nothing else
moves while one of them runs, and no lock is poisoned. -/
namespace RkQuic.Creating
open Config Ffi Outcomes

abbrev Handle := UInt64

structure Endpoint where
  sessions : List SessionId
  streams : List (SessionId × StreamId)
  runtime : Bool
  local_port : UInt16
  deriving DecidableEq, Repr

inductive Out where
  | handle
  | session
  | stream
  deriving DecidableEq, Repr

/-- `drawn` is history: how many numbers the counter has given. -/
structure World where
  registry : Handle → Option Endpoint
  next : UInt64
  drawn : Nat
  lastError : Option String
  -- what the caller gives to be written; a null pointer has no cell
  cells : Out → Option UInt64

def clearLastError : Call World Unit := .write fun w => {w with lastError := none}

def nextHandle : Call World UInt64 := do
  let handle ← .read (·.next)
  .write fun w => {w with next := w.next + 1, drawn := w.drawn + 1}
  pure handle

def insert (handle : Handle) (endpoint : Endpoint) : Call World Unit :=
  .write fun w => {w with registry := Function.update w.registry handle (some endpoint)}

def writeOut (out : Out) (value : UInt64) : Call World Unit :=
  .write fun w => {w with cells := Function.update w.cells out ((w.cells out).map fun _ => value)}

def ready : Bool → Outcome Refusal Unit
  | true => .ok ()
  | false => .panicked

def idleRange (lib : Library) (idle_timeout : UInt64) : Outcome Refusal Unit :=
  if lib.fits idle_timeout then .ok ()
  else .err (invalid ("idleTimeoutMs " ++ lib.debugMs idle_timeout ++ " is out of range for QUIC"))

def noRuntime (e : String) : Refusal := (.bindFailed, "no tokio runtime: " ++ e)

def bindStatus (error : IoError) : Status :=
  match error.kind with
  | .addrInUse => .portInUse
  | .other => .bindFailed

def start (lib : Library) (config : ParsedConfig) : Call World Handle := do
  let identity ← .lift (identityFrom lib config)
  .lift (ready (lib.accepts identity))
  .lift (idleRange lib config.idle_timeout)
  .lift (lib.runtime.mapErr noRuntime)
  .lift ((lib.serve config.bind).mapErr fun e =>
    (bindStatus e, "bind " ++ config.bind.display ++ ": " ++ e.text))
  let local_port ← .lift (lib.localAddr.mapErr fun e => (.bindFailed, "no local address: " ++ e))
  let handle ← nextHandle
  insert handle ⟨[], [], true, local_port⟩
  pure handle

def holds (text part : String) : Bool := text.toList.tails.any (part.toList.isPrefixOf ·)

def connectStatus (lib : Library) (error : String) : Status :=
  let text := lib.lowercase error
  if holds text "certificate" || holds text "tls" || holds text "handshake" then .badCertificate else .peerGone

/- A `local_addr` that fails falls back to zero. The one session is put in the map before its number is
followed by the endpoint's. -/
def connect (lib : Library) (config : ParsedClientConfig) : Call World (Handle × SessionId) := do
  .lift (idleRange lib config.idle_timeout)
  .lift (lib.runtime.mapErr noRuntime)
  .lift (lib.clientEndpoint.mapErr fun e => (.bindFailed, "no client endpoint: " ++ e))
  .lift ((lib.dial config.url).mapErr fun e => (connectStatus lib e, "connect " ++ config.url ++ ": " ++ e))
  let local_port ← .lift (lib.localAddr.unwrapOr 0)
  let session_id ← nextHandle
  let handle ← nextHandle
  insert handle ⟨[session_id], [], true, local_port⟩
  pure (handle, session_id)

def openStream (lib : Library) (handle : Handle) (session_id : SessionId) : Call World StreamId := do
  let found ← .read (·.registry handle)
  let endpoint ← .lift (.okOr (.unknownHandle, "no such endpoint") found)
  if session_id ∉ endpoint.sessions then
    .lift (.err (.unknownHandle, "no session " ++ toString session_id.toNat))
  else if endpoint.runtime = false then .lift (.err (.notRunning, "endpoint is stopping"))
  else do
    .lift (lib.openBi.mapErr fun e => (.peerGone, "open stream: " ++ e))
    let stream_id ← .lift (lib.opening.mapErr fun e => (.peerGone, "open stream: " ++ e))
    insert handle {endpoint with streams := endpoint.streams.insert (session_id, stream_id)}
    pure stream_id

/-! The bodies of the three entry points. Every exit but the last records its sentence and
answers its status, which is what `guarded` does with a refusal. -/

def readConfig (config_json : Option Bytes) (decode : String → Outcome String α) : Outcome Refusal α := do
  let json ← .okOr (invalid "configJson is null or not UTF-8") (borrowCString config_json)
  (decode json).mapErr fun e => invalid ("configJson is not the expected shape: " ++ e)

def serverStart (lib : Library) (config_json : Option Bytes) : Call World Unit := do
  clearLastError
  let config ← .lift (readConfig config_json lib.serverJson)
  let parsed ← .lift (config.parse lib)
  let handle ← start lib parsed
  writeOut .handle handle

def clientConnect (lib : Library) (config_json : Option Bytes) : Call World Unit := do
  clearLastError
  let config ← .lift (readConfig config_json lib.clientJson)
  let parsed ← .lift (config.parse lib.debug)
  let (handle, session_id) ← connect lib parsed
  writeOut .handle handle
  writeOut .session session_id

def clientOpenStream (lib : Library) (handle : Handle) (session_id : SessionId) : Call World Unit := do
  clearLastError
  let stream_id ← openStream lib handle session_id
  writeOut .stream stream_id

def guarded (body : Call World Unit) (w : World) : Status × World :=
  match body w with
  | (.ok _, v) => (.ok, v)
  | (.err (status, message), v) => (status, {v with lastError := some message})
  | (.panicked, v) => (.panic, v)

def rkQuicServerStart (lib : Library) (config_json : Option Bytes) : World → Status × World :=
  guarded (serverStart lib config_json)

def rkQuicClientConnect (lib : Library) (config_json : Option Bytes) : World → Status × World :=
  guarded (clientConnect lib config_json)

def rkQuicClientOpenStream (lib : Library) (handle : Handle) (session_id : SessionId) : World → Status × World :=
  guarded (clientOpenStream lib handle session_id)

end RkQuic.Creating
