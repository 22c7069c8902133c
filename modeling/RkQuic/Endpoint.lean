import RkQuic.EventQueue
import RkQuic.Runs
import RkQuic.Status

/-! One live endpoint as a transition function: the tasks its runtime runs and the calls
other threads make on it, one access to shared state at a time. A label says who moves
and what the network answered; any list of labels is an interleaving. The maps are
behind locks that are held for one operation and never across an await, so each
operation on a map is one step. The lock inside a stream is held across awaits and is
explicit. `Drop` is not a step here: it needs the endpoint to itself, so `runtime` is
there for as long as any of these steps is taken. -/
namespace RkQuic.Endpoint
open Channel

/-- What `start` and `connect` have fixed. The client's session id comes from the
process-wide counter; the server numbers its sessions itself. -/
inductive Role where
  | server (expected_path : String)
  | client (session_id : SessionId) (url : String)
  deriving DecidableEq, Repr

structure Session where
  id : SessionId
  authority : String
  path : String
  deriving DecidableEq, Repr

inductive Loop where
  | selecting
  | readingUni (buffer : Bytes)
  | registering (stream_id : StreamId)
  | announcing (stream_id : StreamId) (x : Nat)
  | spawning (x : Nat)
  deriving DecidableEq, Repr

inductive Phase where
  | handshake
  | refusing
  | accepting (authority path : String)
  | numbering (authority path : String)
  | remembering (se : Session)
  | opening (se : Session)
  -- where a client's one task starts
  | serving (se : Session) (loop : Loop)
  | forgetting (se : Session) (reason : String)
  | purging (se : Session) (reason : String)
  | closing (se : Session) (reason : String)
  | closed (se : Session) (reason : String)
  | dropped
  deriving DecidableEq, Repr

inductive Input where
  | go
  | requested (authority path : String)
  | accepted
  | failed
  | datagram (bytes : Bytes)
  | uni
  | chunk (bytes : Bytes)
  | finished
  | bi (stream_id : StreamId)
  | ended (reason : String)
  deriving DecidableEq, Repr

inductive Reader where
  | unspawned
  | reading (buffer : Bytes)
  | telling (text : String)
  | closing (told : Option String)
  | ended (told : Option String)
  deriving DecidableEq, Repr

/-- One registered stream: the send half behind its lock, and the reader of the other
half. `taken` and `turns` are history: the call that took the stream out of the map, and
the calls that got the inner lock to write, in that order. -/
structure Exchange where
  session : SessionId
  stream : StreamId
  bytes : Bytes
  fin : Bool
  broken : Bool
  locked : Option Nat
  taken : Option Nat
  turns : List Nat
  reader : Reader
  deriving DecidableEq, Repr

def Exchange.key (x : Exchange) : SessionId × StreamId := (x.session, x.stream)

def Exchange.opened (session : SessionId) (stream : StreamId) : Exchange :=
  ⟨session, stream, [], false, false, none, none, [], .unspawned⟩

inductive Method where
  | send (session_id : SessionId) (payload : String) (reliable : Bool)
  | streamSend (session_id : SessionId) (stream_id : StreamId) (payload : String)
  | streamClose (session_id : SessionId) (stream_id : StreamId)
  | openStream (session_id : SessionId)
  | nextEvent
  deriving DecidableEq, Repr

inductive Answer where
  | status (s : Status)
  | stream (stream_id : StreamId)
  | event (e : Option Event)
  deriving DecidableEq, Repr

inductive Progress where
  | entered
  | sending (connection : Nat)
  | waiting (x : Nat)
  | writing (x : Nat) (rest : Bytes)
  | finishing (x : Nat)
  | finished (x : Nat)
  | opening (connection : Nat)
  | registering (stream_id : StreamId)
  | spawning (stream_id : StreamId) (x : Nat)
  | returned (a : Answer)
  deriving DecidableEq, Repr

/-- A call in flight. `sent` is history: the bytes it has put on its stream. -/
structure Call where
  method : Method
  progress : Progress
  sent : Bytes
  deriving DecidableEq, Repr

inductive Reply where
  | go
  | wrote (n : Nat)
  | failed
  | done
  | opened (stream_id : StreamId)
  deriving DecidableEq, Repr

structure State where
  tasks : Nat → Option Phase
  sessions : SessionId → Option Nat
  streams : SessionId × StreamId → Option Nat
  exchanges : Nat → Exchange
  fresh : Nat
  next : SessionId
  accepted : Nat
  queue : SyncChannel Event
  emitted : List Event
  calls : Nat → Option Call

inductive Effect where
  | none
  | allot
  | remember (session_id : SessionId) (connection : Nat)
  | forget (session_id : SessionId)
  | register (session_id : SessionId) (stream_id : StreamId)
  | take (session_id : SessionId) (stream_id : StreamId) (x c : Nat)
  | retain (session_id : SessionId)
  | emit (event : Event)
  | poll
  | spawn (x : Nat)
  | acquire (x c : Nat) (writes : Bool)
  | put (x : Nat) (chunk : Bytes)
  | finish (x : Nat)
  | release (x : Nat) (failed : Bool)
  deriving DecidableEq, Repr

def State.edit (s : State) (x : Nat) (f : Exchange → Exchange) : State :=
  {s with exchanges := Function.update s.exchanges x (f (s.exchanges x))}

def State.apply (s : State) : Effect → State
  | .none => s
  | .allot => {s with next := s.next + 1, accepted := s.accepted + 1}
  | .remember id connection => {s with sessions := Function.update s.sessions id (some connection)}
  | .forget id => {s with sessions := Function.update s.sessions id none}
  | .register id stream =>
    {s with
      streams := Function.update s.streams (id, stream) (some s.fresh)
      exchanges := Function.update s.exchanges s.fresh (.opened id stream)
      fresh := s.fresh + 1}
  | .take id stream x c =>
    {s.edit x (fun e => {e with taken := some c}) with
      streams := Function.update s.streams (id, stream) none}
  | .retain id => {s with streams := fun k => if k.1 ≠ id then s.streams k else none}
  | .emit event => {s with queue := EventQueue.emit s.queue event, emitted := s.emitted ++ [event]}
  | .poll => {s with queue := (EventQueue.nextEvent s.queue).2}
  | .spawn x => s.edit x (fun e => {e with reader := .reading []})
  | .acquire x c writes =>
    s.edit x (fun e => {e with locked := some c, turns := if writes then e.turns ++ [c] else e.turns})
  | .put x chunk => s.edit x (fun e => {e with bytes := e.bytes ++ chunk})
  | .finish x => s.edit x (fun e => {e with fin := e.fin || !e.broken})
  | .release x failed => s.edit x (fun e => {e with locked := none, broken := e.broken || failed})

def emitText (bytes : Bytes) (event : String → Event) : Effect :=
  match Utf8.decode bytes with
  | some text => .emit (event text)
  | none => .none

def sessionLoop (session_id : SessionId) (fresh : Nat) : Loop → Input → Option (Loop × Effect)
  | .selecting, .datagram bytes => some (.selecting, emitText bytes (.datagram session_id))
  | .selecting, .uni => some (.readingUni [], .none)
  | .readingUni buffer, .chunk bytes => some (.readingUni (buffer ++ bytes), .none)
  | .readingUni buffer, .finished => some (.selecting, emitText buffer (.streamMessage session_id))
  | .readingUni _, .failed => some (.selecting, .none)
  | .selecting, .bi stream_id => some (.registering stream_id, .none)
  | .registering stream_id, .go => some (.announcing stream_id fresh, .register session_id stream_id)
  | .announcing stream_id x, .go => some (.spawning x, .emit (.streamOpened session_id stream_id))
  | .spawning x, .go => some (.selecting, .spawn x)
  | _, _ => none

/- The task `accept_loop` spawns for a request, and the one `connect` spawns: the second
has no step that retains the other sessions' streams. -/
def sessionTask (role : Role) (next : SessionId) (fresh r : Nat) : Phase → Input → Option (Phase × Effect)
  | .handshake, .requested authority path =>
    match role with
    | .server expected_path =>
      some (if path ≠ expected_path then .refusing else .accepting authority path, .none)
    | .client _ _ => none
  | .handshake, .failed => some (.dropped, .none)
  | .refusing, .go => some (.dropped, .none)
  | .accepting authority path, .accepted => some (.numbering authority path, .none)
  | .accepting _ _, .failed => some (.dropped, .none)
  | .numbering authority path, .go => some (.remembering ⟨next, authority, path⟩, .allot)
  | .remembering se, .go => some (.opening se, .remember se.id r)
  | .opening se, .go =>
    some (.serving se .selecting, .emit (.sessionOpened se.id se.authority se.path))
  | .serving se .selecting, .ended reason => some (.forgetting se reason, .none)
  | .serving se loop, input =>
    (sessionLoop se.id fresh loop input).map (fun out => (.serving se out.1, out.2))
  | .forgetting se reason, .go =>
    match role with
    | .server _ => some (.purging se reason, .forget se.id)
    | .client _ _ => some (.closing se reason, .forget se.id)
  | .purging se reason, .go => some (.closing se reason, .retain se.id)
  | .closing se reason, .go => some (.closed se reason, .emit (.sessionClosed se.id reason))
  | _, _ => none

def readBiStream (session_id : SessionId) (stream_id : StreamId) :
    Reader → Input → Option (Reader × Effect)
  | .reading buffer, .chunk bytes => some (.reading (buffer ++ bytes), .none)
  | .reading buffer, .finished =>
    match Utf8.decode buffer with
    | some text => some (.telling text, .none)
    | none => some (.closing none, .none)
  | .reading _, .failed => some (.closing none, .none)
  | .telling text, .go => some (.closing (some text), .emit (.streamData session_id stream_id text))
  | .closing told, .go => some (.ended told, .emit (.streamClosed session_id stream_id))
  | _, _ => none

def Call.to (k : Call) (p : Progress) : Call := {k with progress := p}

def Call.answer (k : Call) (s : Status) : Call := k.to (.returned (.status s))

/- Every await of `Endpoint::send` that fails answers `peerGone`. -/
def send (s : State) (id : SessionId) (k : Call) : Progress → Reply → Option (Call × Effect)
  | .entered, .go =>
    match s.sessions id with
    | none => some (k.answer .unknownHandle, .none)
    | some connection => some (k.to (.sending connection), .none)
  | .sending _, .done => some (k.answer .ok, .none)
  | .sending _, .failed => some (k.answer .peerGone, .none)
  | _, _ => none

/- `write_all` is a loop over what is left: it asks the stream for room only while there
is something left, and a stream that is finished or has failed once fails. -/
def streamSend (s : State) (c : Nat) (key : SessionId × StreamId) (payload : String) (k : Call) :
    Progress → Reply → Option (Call × Effect)
  | .entered, .go =>
    match s.streams key with
    | none => some (k.answer .unknownHandle, .none)
    | some x => some (k.to (.waiting x), .none)
  | .waiting x, .go =>
    if (s.exchanges x).locked = none then
      some (k.to (.writing x (Utf8.encode payload)), .acquire x c true)
    else none
  | .writing x rest, .wrote n =>
    if 0 < n ∧ n ≤ rest.length ∧ (s.exchanges x).fin = false ∧ (s.exchanges x).broken = false then
      some ({k with progress := .writing x (rest.drop n), sent := k.sent ++ rest.take n},
        .put x (rest.take n))
    else none
  | .writing x [], .go => some (k.answer .ok, .release x false)
  | .writing x (_ :: _), .failed => some (k.answer .peerGone, .release x true)
  | _, _ => none

def streamClose (s : State) (c : Nat) (key : SessionId × StreamId) (k : Call) :
    Progress → Reply → Option (Call × Effect)
  | .entered, .go =>
    match s.streams key with
    | none => some (k.answer .unknownHandle, .none)
    | some x => some (k.to (.waiting x), .take key.1 key.2 x c)
  | .waiting x, .go =>
    if (s.exchanges x).locked = none then some (k.to (.finishing x), .acquire x c false) else none
  | .finishing x, .go => some (k.to (.finished x), .finish x)
  | .finished x, .done => some (k.answer .ok, .release x false)
  | .finished x, .failed => some (k.answer .peerGone, .release x false)
  | _, _ => none

def openStream (s : State) (id : SessionId) (k : Call) : Progress → Reply → Option (Call × Effect)
  | .entered, .go =>
    match s.sessions id with
    | none => some (k.answer .unknownHandle, .none)
    | some connection => some (k.to (.opening connection), .none)
  | .opening _, .failed => some (k.answer .peerGone, .none)
  | .opening _, .opened stream_id => some (k.to (.registering stream_id), .none)
  | .registering stream_id, .go => some (k.to (.spawning stream_id s.fresh), .register id stream_id)
  | .spawning stream_id x, .go => some (k.to (.returned (.stream stream_id)), .spawn x)
  | _, _ => none

def nextEvent (s : State) (k : Call) : Progress → Reply → Option (Call × Effect)
  | .entered, .go => some (k.to (.returned (.event (EventQueue.nextEvent s.queue).1)), .poll)
  | _, _ => none

def callStep (s : State) (c : Nat) (k : Call) (reply : Reply) : Option (Call × Effect) :=
  match k.method with
  | .send id _ _ => send s id k k.progress reply
  | .streamSend id t payload => streamSend s c (id, t) payload k k.progress reply
  | .streamClose id t => streamClose s c (id, t) k k.progress reply
  | .openStream id => openStream s id k k.progress reply
  | .nextEvent => nextEvent s k k.progress reply

inductive Label where
  | incoming (r : Nat)
  | task (r : Nat) (input : Input)
  | reader (x : Nat) (input : Input)
  | enter (c : Nat) (method : Method)
  | call (c : Nat) (reply : Reply)
  deriving DecidableEq, Repr

def step (role : Role) (s : State) : Label → Option State
  | .incoming r =>
    match role, s.tasks r with
    | .server _, none => some {s with tasks := Function.update s.tasks r (some .handshake)}
    | _, _ => none
  | .task r input => do
    let p ← s.tasks r
    let (p', e) ← sessionTask role s.next s.fresh r p input
    some {s.apply e with tasks := Function.update s.tasks r (some p')}
  | .reader x input => do
    let (reader', e) ← readBiStream (s.exchanges x).session (s.exchanges x).stream (s.exchanges x).reader input
    some ((s.edit x (fun ex => {ex with reader := reader'})).apply e)
  | .enter c method =>
    match s.calls c with
    | none => some {s with calls := Function.update s.calls c (some ⟨method, .entered, []⟩)}
    | some _ => none
  | .call c reply => do
    let k ← s.calls c
    let (k', e) ← callStep s c k reply
    some {s.apply e with calls := Function.update s.calls c (some k')}

/-- The endpoint as `start` leaves it, and as `connect` does: the client's one session is
in the map, announced, and its task is spawned, all before the endpoint has a handle. -/
def init : Role → State
  | .server _ =>
    { tasks := fun _ => none
      sessions := fun _ => none
      streams := fun _ => none
      exchanges := fun _ => .opened 0 0
      fresh := 0
      next := 1
      accepted := 0
      queue := .syncChannel EventQueue.eventQueueDepth
      emitted := []
      calls := fun _ => none }
  | .client id url =>
    { tasks := fun r => if r = 0 then some (.serving ⟨id, "", url⟩ .selecting) else none
      sessions := fun i => if i = id then some 0 else none
      streams := fun _ => none
      exchanges := fun _ => .opened 0 0
      fresh := 0
      next := 1
      accepted := 0
      queue := EventQueue.emit (.syncChannel EventQueue.eventQueueDepth) (.sessionOpened id "" url)
      emitted := [.sessionOpened id "" url]
      calls := fun _ => none }

end RkQuic.Endpoint
