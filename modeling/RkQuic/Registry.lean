import RkQuic.Event
import RkQuic.Naming
import RkQuic.Runs
import RkQuic.Status

/-! The process around the endpoints: the registry of handles, the counter that handles
and client session ids come from, and the calls of any number of threads. An endpoint is
reference counted: the registry has one reference and every call that has looked it up
has one, and whoever lets the last one go runs `Drop for Endpoint`. Each access to the
registry, to the counter and to a reference count is one step. The registry's lock is
never poisoned, because nothing under it can panic. -/
namespace RkQuic.Registry

abbrev Handle := UInt64

/-- An endpoint as the registry sees it. `handle` is history, what it was registered
under; `drained` is history too, that its destructor has closed its sessions. -/
structure Live where
  handle : Handle
  sessions : List SessionId
  runtime : Bool
  drained : Bool
  count : Nat
  deriving DecidableEq, Repr

inductive Method where
  | start
  | connect
  | stop (handle : Handle)
  | localPort (handle : Handle)
  | poll (handle : Handle)
  -- a payload that is null or not UTF-8 is none
  | sessionSend (handle : Handle) (session_id : SessionId) (payload : Option String)
  | streamSend (handle : Handle) (session_id : SessionId) (stream_id : StreamId) (payload : Option String)
  | streamClose (handle : Handle) (session_id : SessionId) (stream_id : StreamId)
  | openStream (handle : Handle) (session_id : SessionId)
  deriving DecidableEq, Repr

inductive Answer where
  | status (s : Status)
  | started (handle : Handle)
  | connected (handle : Handle) (session_id : SessionId)
  | opened (stream_id : StreamId)
  deriving DecidableEq, Repr

/-- Where a call stands. From `holding` to `releasing` it has a reference of its own;
`draining` and `shutting` are the destructor, run by the call that had the last one. -/
inductive Progress where
  | entered
  | identifying
  | numbering (session : Option SessionId)
  | registering (session : Option SessionId) (handle : Handle)
  | holding (o : Nat)
  | checking (o : Nat)
  | awaiting (o : Nat)
  | releasing (o : Nat) (a : Answer)
  | draining (o : Nat) (a : Answer)
  | shutting (o : Nat) (a : Answer)
  | returning (a : Answer)
  | returned (a : Answer)
  deriving DecidableEq, Repr

structure Call where
  method : Method
  progress : Progress
  -- history: the endpoint that the handle has led to
  resolved : Option Nat
  deriving DecidableEq, Repr

inductive Reply where
  | go
  -- the work of start and connect before the endpoint has a number
  | built
  | refused (s : Status)
  | event
  | expired
  | absent
  | found
  | done
  | failed
  | stream (stream_id : StreamId)
  deriving DecidableEq, Repr

/-- `issued` and `entered` are history: the numbers handed out and the calls made. -/
structure State where
  registry : Handle → Option Nat
  objects : Nat → Live
  fresh : Nat
  next : Handle
  issued : List Handle
  calls : Nat → Option Call
  entered : List Nat

inductive Effect where
  | none
  | nextHandle
  | insert (handle : Handle) (sessions : List SessionId)
  | clone (o : Nat)
  | remove (handle : Handle)
  | release (o : Nat)
  | drain (o : Nat)
  | shut (o : Nat)
  deriving DecidableEq, Repr

def State.edit (s : State) (o : Nat) (f : Live → Live) : State :=
  {s with objects := Function.update s.objects o (f (s.objects o))}

def State.apply (s : State) : Effect → State
  | .none => s
  | .nextHandle => {s with next := s.next + 1, issued := s.issued ++ [s.next]}
  | .insert handle sessions =>
    {s with
      registry := Function.update s.registry handle (some s.fresh)
      objects := Function.update s.objects s.fresh ⟨handle, sessions, true, false, 1⟩
      fresh := s.fresh + 1}
  | .clone o => s.edit o fun l => {l with count := l.count + 1}
  | .remove handle => {s with registry := Function.update s.registry handle none}
  | .release o => s.edit o fun l => {l with count := l.count - 1}
  | .drain o => s.edit o fun l => {l with sessions := [], drained := true}
  | .shut o => s.edit o fun l => {l with runtime := false}

def Call.to (k : Call) (p : Progress) : Call := {k with progress := p}

def Call.answer (k : Call) (s : Status) : Call := k.to (.returning (.status s))

def Call.leave (k : Call) (o : Nat) (s : Status) : Call := k.to (.releasing o (.status s))

def lookup (s : State) (k : Call) (handle : Handle) : Call × Effect :=
  match s.registry handle with
  | none => (k.answer .unknownHandle, .none)
  | some o => ({k with progress := .holding o, resolved := some o}, .clone o)

def remove (s : State) (k : Call) (handle : Handle) : Call × Effect :=
  match s.registry handle with
  | none => (k.answer .notRunning, .none)
  | some o => ({k with progress := .releasing o (.status .ok), resolved := some o}, .remove handle)

def enterStep (s : State) (k : Call) : Method → Reply → Option (Call × Effect)
  | .start, .built => some (k.to (.numbering none), .none)
  | .connect, .built => some (k.to .identifying, .none)
  | .start, .refused status | .connect, .refused status => some (k.answer status, .none)
  | .stop handle, .go => some (remove s k handle)
  | .localPort handle, .go | .poll handle, .go | .streamClose handle _ _, .go
  | .openStream handle _, .go => some (lookup s k handle)
  | .sessionSend handle _ payload, .go | .streamSend handle _ _ payload, .go =>
    match payload with
    | none => some (k.answer .invalidArgument, .none)
    | some _ => some (lookup s k handle)
  | _, _ => none

def holdStep (k : Call) (o : Nat) : Method → Reply → Option Call
  | .localPort _, .go => some (k.leave o .ok)
  | .poll _, .event => some (k.leave o .ok)
  | .poll _, .expired => some (k.leave o .wouldBlock)
  | .poll _, .failed => some (k.leave o .panic)
  | .sessionSend _ _ _, .absent | .streamSend _ _ _ _, .absent | .streamClose _ _ _, .absent
  | .openStream _ _, .absent => some (k.leave o .unknownHandle)
  | .sessionSend _ _ _, .found | .streamSend _ _ _ _, .found | .streamClose _ _ _, .found
  | .openStream _ _, .found => some (k.to (.checking o))
  | _, _ => none

def awaitStep (k : Call) (o : Nat) : Method → Reply → Option Call
  | .openStream _ _, .stream stream_id => some (k.to (.releasing o (.opened stream_id)))
  | .openStream _ _, .done => none
  | _, .done => some (k.leave o .ok)
  | _, .failed => some (k.leave o .peerGone)
  | _, _ => none

def registered (session : Option SessionId) (handle : Handle) : Answer :=
  match session with
  | none => .started handle
  | some session_id => .connected handle session_id

def callStep (s : State) (k : Call) (reply : Reply) : Option (Call × Effect) :=
  match k.progress, reply with
  | .entered, reply => enterStep s k k.method reply
  | .identifying, .go => some (k.to (.numbering (some s.next)), .nextHandle)
  | .numbering session, .go => some (k.to (.registering session s.next), .nextHandle)
  | .registering session handle, .go =>
    -- what the map had under the handle, if anything, is dropped
    match s.registry handle with
    | none => some (k.to (.returning (registered session handle)), .insert handle session.toList)
    | some old => some (k.to (.releasing old (registered session handle)), .insert handle session.toList)
  | .holding o, reply => (holdStep k o k.method reply).map (·, .none)
  | .checking o, .go =>
    some (if (s.objects o).runtime then k.to (.awaiting o) else k.leave o .notRunning, .none)
  | .awaiting o, reply => (awaitStep k o k.method reply).map (·, .none)
  | .releasing o a, .go =>
    some (k.to (if (s.objects o).count = 1 then .draining o a else .returning a), .release o)
  | .draining o a, .go => some (k.to (.shutting o a), .drain o)
  | .shutting o a, .go => some (k.to (.returning a), .shut o)
  | .returning a, .go => some (k.to (.returned a), .none)
  | _, _ => none

inductive Label where
  | enter (c : Nat) (method : Method)
  | call (c : Nat) (reply : Reply)
  | joined (o : Nat) (session_id : SessionId)
  | left (o : Nat) (session_id : SessionId)
  deriving DecidableEq, Repr

def step (s : State) : Label → Option State
  | .enter c method =>
    match s.calls c with
    | none =>
      some {s with calls := Function.update s.calls c (some ⟨method, .entered, none⟩), entered := s.entered ++ [c]}
    | some _ => none
  | .call c reply => do
    let k ← s.calls c
    let (k', e) ← callStep s k reply
    some {s.apply e with calls := Function.update s.calls c (some k')}
  | .joined o session_id =>
    if (s.objects o).runtime then some (s.edit o fun l => {l with sessions := session_id :: l.sessions})
    else none
  | .left o session_id =>
    if (s.objects o).runtime then some (s.edit o fun l => {l with sessions := l.sessions.erase session_id})
    else none

def init : State where
  registry _ := none
  objects _ := ⟨0, [], false, false, 0⟩
  fresh := 0
  next := 1
  issued := []
  calls _ := none
  entered := []

end RkQuic.Registry
