import RkQuic.ConfigJson
import RkQuic.Creating
import RkQuic.EventJson
import RkQuic.Programs

/-! `_commandLoop`: what the worker isolate does with one command, request by request. What it
asks is the allocator of package:ffi, the native library, its own variable and the port of the
replies. The isolate can be killed between any two of these. -/
namespace RkQuic.Worker
open Creating (Handle)
open ConfigJson Ffi Json Programs Runs

inductive Command where
  | start (configJson : List (String × Value String))
  | connect (configJson : List (String × Value String))
  | openStream (sessionId : SessionId)
  | send (sessionId : SessionId) (message : String) (reliable : Bool)
  | streamSend (sessionId : SessionId) (streamId : StreamId) (message : String)
  | streamClose (sessionId : SessionId) (streamId : StreamId)
  | stop
  | unknown

inductive Reply where
  | started (handle : Handle) (port : UInt16)
  | connected (handle : Handle) (sessionId : SessionId)
  | streamOpened (streamId : StreamId)
  | status (status : RkQuicStatus) (detail : Option String)
  deriving DecidableEq, Repr

/-- A call of the library. A pointer is the address of a block. -/
inductive Native where
  | serverStart (config_json out_handle : Nat)
  | serverLocalPort (handle : Handle) (out_port : Nat)
  | clientConnect (config_json out_handle out_session : Nat)
  | clientOpenStream (handle : Handle) (session_id : SessionId) (out_stream : Nat)
  | sessionSend (handle : Handle) (session_id : SessionId) (payload_utf8 : Nat) (reliable : UInt8)
  | streamSend (handle : Handle) (session_id : SessionId) (stream_id : StreamId) (payload_utf8 : Nat)
  | streamClose (handle : Handle) (session_id : SessionId) (stream_id : StreamId)
  | serverStop (handle : Handle)
  deriving DecidableEq, Repr

def Native.handle : Native → Option Handle
  | .serverStart _ _ | .clientConnect _ _ _ => none
  | .serverLocalPort handle _ | .clientOpenStream handle _ _ | .sessionSend handle _ _ _ | .streamSend handle _ _ _
  | .streamClose handle _ _ | .serverStop handle => some handle

def Native.texts : Native → List Nat
  | .serverStart json _ | .clientConnect json _ _ => [json]
  | .sessionSend _ _ payload _ | .streamSend _ _ _ payload => [payload]
  | _ => []

def Native.cells : Native → List Nat
  | .serverStart _ out | .serverLocalPort _ out | .clientOpenStream _ _ out => [out]
  | .clientConnect _ out session => [out, session]
  | _ => []

inductive Block where
  | text (bytes : Bytes)
  | cell (value : UInt64)
  deriving DecidableEq, Repr

inductive Request where
  | malloc (bytes : Bytes)
  | calloc
  | free (p : Nat)
  | value (p : Nat)
  | native (call : Native)
  | lastErrorRaw
  | toDartString (p : Nat)
  | stringFree (p : Nat)
  | assign (handle : Handle)
  | post (id : Nat) (reply : Reply)

inductive Answer where
  | address (p : Nat)
  | noMemory
  | done
  | number (n : UInt64)
  -- what has been written to a cell, by its address
  | status (status : Status) (written : Nat → UInt64)
  | pointer (p : Option Nat) (message : String)
  | text (s : Option String)

structure Asking where
  call : Native
  status : Status
  written : Nat → UInt64

/-- `blocks` are what Dart has allocated and not freed, and `strings` what it was given by the
library and has not given back. `handle` is the variable. `posted` and `asked` are history. -/
structure Isolate where
  blocks : Nat → Option Block
  strings : Nat → Option Bytes
  handle : Handle
  posted : List (Nat × Reply)
  asked : List Asking

def Isolate.put (s : Isolate) (p : Nat) (b : Option Block) : Isolate := {s with blocks := Function.update s.blocks p b}

def Isolate.hold (s : Isolate) (p : Nat) (b : Option Bytes) : Isolate :=
  {s with strings := Function.update s.strings p b}

def Isolate.ask (s : Isolate) (call : Native) (status : Status) (written : Nat → UInt64) : Isolate :=
  {s with asked := s.asked ++ [⟨call, status, written⟩]}

/- The out parameters are written where the call succeeds. -/
def Isolate.write (s : Isolate) (cells : List Nat) (written : Nat → UInt64) : Isolate :=
  {s with blocks := fun p => if p ∈ cells then some (.cell (written p)) else s.blocks p}

def answers (s : Isolate) : Request → Answer → Option Isolate
  | .malloc bytes, .address p => if s.blocks p = none then some (s.put p (some (.text bytes))) else none
  | .malloc _, .noMemory | .calloc, .noMemory => some s
  | .calloc, .address p => if s.blocks p = none then some (s.put p (some (.cell 0))) else none
  | .free p, .done => some (s.put p none)
  | .value p, .number n => if s.blocks p = some (.cell n) then some s else none
  | .native call, .status status written =>
    let s := s.ask call status written
    some (if status = .ok then s.write call.cells written else s)
  | .lastErrorRaw, .pointer none _ => some s
  | .lastErrorRaw, .pointer (some p) message =>
    if s.strings p = none then some (s.hold p (some (EventJson.intoOwnedCString message))) else none
  | .toDartString p, .text t => if (s.strings p).bind toDartString = t then some s else none
  | .stringFree p, .done => some (s.hold p none)
  | .assign handle, .done => some {s with handle := handle}
  | .post id reply, .done => some {s with posted := s.posted ++ [(id, reply)]}
  | _, _ => none

structure Lawful (s : Isolate) (call : Native) : Prop where
  texts : ∀ p ∈ call.texts, ∃ bytes, s.blocks p = some (.text bytes)
  cells : ∀ p ∈ call.cells, ∃ n, s.blocks p = some (.cell n)
  own : ∀ h ∈ call.handle, h = s.handle
  first : call.handle = none → s.asked = []

def able (s : Isolate) : Request → Prop
  | .free p => s.blocks p ≠ none
  | .value p => ∃ n, s.blocks p = some (.cell n)
  | .native call => Lawful s call
  | .toDartString p | .stringFree p => s.strings p ≠ none
  | .assign _ => ∀ asking ∈ s.asked, asking.call.handle = none
  | _ => True

def device : Device Request Answer Isolate := ⟨able, answers⟩

abbrev Dart := Program Request Answer

def malloc (bytes : Bytes) : Dart Nat :=
  .ask (.malloc bytes) fun
    | .address p => some p
    | _ => none

def calloc : Dart Nat :=
  .ask .calloc fun
    | .address p => some p
    | _ => none

def value (p : Nat) : Dart UInt64 :=
  .ask (.value p) fun
    | .number n => some n
    | _ => none

def perform (request : Request) : Dart Unit := .ask request fun _ => some ()

def frees : List Nat → Dart Unit
  | [] => pure ()
  | [p] => perform (.free p)
  | p :: q :: more => do
    perform (.free p)
    frees (q :: more)

def native (call : Native) : Dart RkQuicStatus :=
  .ask (.native call) fun
    | .status status _ => some (statusFromWireName (toDartString (asCStr status)))
    | _ => none

def takeLastError : Dart (Option String) := do
  let pointer ← .ask .lastErrorRaw fun
    | .pointer p _ => some p
    | _ => none
  match pointer with
  | none => pure none
  | some p => do
    let text ← .ask (.toDartString p) fun
      | .text t => t
      | _ => none
    perform (.stringFree p)
    pure (some text)

def refused (id : Nat) (status : RkQuicStatus) : Dart Unit := do
  let detail ← takeLastError
  perform (.post id (.status status detail))

def answered (id : Nat) (call : Native) : Dart Unit := do
  let status ← native call
  if status = .ok then perform (.post id (.status status none)) else refused id status

/- The inner `try` of a start. What the call for the port answers is not looked at. -/
def startedOn (id : Nat) (handle : Handle) : Dart Unit := do
  let portOut ← calloc
  Program.ensure
    (do
      perform (.native (.serverLocalPort handle portOut))
      let port ← value portOut
      perform (.post id (.started handle port.toUInt16)))
    (frees [portOut])

def turn (id : Nat) (handle : Handle) : Command → Dart Unit
  | .start configJson => do
    let json ← malloc (toNativeUtf8 (jsonEncode configJson))
    let out ← calloc
    Program.ensure
      (do
        let status ← native (.serverStart json out)
        if status ≠ .ok then refused id status
        else do
          let handle ← value out
          perform (.assign handle)
          startedOn id handle)
      (frees [json, out])
  | .connect configJson => do
    let json ← malloc (toNativeUtf8 (jsonEncode configJson))
    let out ← calloc
    let session ← calloc
    Program.ensure
      (do
        let status ← native (.clientConnect json out session)
        if status ≠ .ok then refused id status
        else do
          let handle ← value out
          perform (.assign handle)
          let sessionId ← value session
          perform (.post id (.connected handle sessionId)))
      (frees [json, out, session])
  | .openStream sessionId => do
    let out ← calloc
    Program.ensure
      (do
        let status ← native (.clientOpenStream handle sessionId out)
        if status = .ok then do
          let streamId ← value out
          perform (.post id (.streamOpened streamId))
        else refused id status)
      (frees [out])
  | .send sessionId message reliable => do
    let payload ← malloc (toNativeUtf8 message)
    Program.ensure (answered id (.sessionSend handle sessionId payload (if reliable then 1 else 0)))
      (frees [payload])
  | .streamSend sessionId streamId message => do
    let payload ← malloc (toNativeUtf8 message)
    Program.ensure (answered id (.streamSend handle sessionId streamId payload)) (frees [payload])
  | .streamClose sessionId streamId => answered id (.streamClose handle sessionId streamId)
  | .stop => do
    let status ← native (.serverStop handle)
    perform (.post id (.status status none))
  | .unknown => perform (.post id (.status .unrecognised (some "unknown command")))

/- The listener of an isolate that could not open the library. -/
def withoutLibrary (id : Nat) : Dart Unit := perform (.post id (.status .unsupported (some "no library")))

def spoken (message : String) : String := if 0 ∈ Utf8.encode message then "<string contained a NUL>" else message

theorem ownedReads (message : String) : toDartString (EventJson.intoOwnedCString message) = some (spoken message) := by
  unfold EventJson.intoOwnedCString EventJson.cString spoken
  by_cases zero : 0 ∈ Utf8.encode message
  · simp only [if_pos zero]
    rfl
  · have clean : '\x00' ∉ message.toList := by
      intro member
      rw [Utf8.encodeChars] at zero
      exact zero (List.mem_flatMap.mpr ⟨_, member, (Utf8.zeroByte _).mpr rfl⟩)
    simp only [if_neg zero]
    exact (congrArg Utf8.decode (untilNulNative message)).trans (by rw [Utf8.decodeEncode, beforeNulSelf clean])

/-! The whole record of an isolate. -/

structure Asked (s : Isolate) : Prop where
  own : ∀ asking ∈ s.asked, ∀ h ∈ asking.call.handle, h = s.handle
  once : ∀ asking ∈ s.asked.tail, asking.call.handle ≠ none

inductive Recorded (s : Isolate) (request : Request) (t : Isolate) : Prop where
  | aside (handle : t.handle = s.handle) (posted : t.posted = s.posted) (asked : t.asked = s.asked)
  | native (asking : Asking) (named : request = .native asking.call) (handle : t.handle = s.handle)
      (posted : t.posted = s.posted) (asked : t.asked = s.asked ++ [asking])
  | assign (handle : Handle) (named : request = .assign handle) (posted : t.posted = s.posted) (asked : t.asked = s.asked)
  | post (id : Nat) (reply : Reply) (handle : t.handle = s.handle) (posted : t.posted = s.posted ++ [(id, reply)])
      (asked : t.asked = s.asked)

theorem recorded {s t : Isolate} {request : Request} {r : Answer} (answered : answers s request r = some t) :
    Recorded s request t := by
  cases request with
  | native call =>
    cases r <;> simp only [answers] at answered <;> try cases answered
    split <;> exact .native ⟨call, _, _⟩ rfl rfl rfl rfl
  | assign handle => cases r <;> cases answered; exact .assign handle rfl rfl rfl
  | post id reply => cases r <;> cases answered; exact .post id reply rfl rfl rfl
  | lastErrorRaw =>
    cases r <;> simp only [answers] at answered <;> try cases answered
    rename_i p message
    cases p with
    | none => cases answered; exact .aside rfl rfl rfl
    | some p =>
      dsimp only at answered
      split at answered <;> cases answered
      exact .aside rfl rfl rfl
  | _ =>
    cases r <;> simp only [answers] at answered <;> try cases answered
    all_goals first
      | exact .aside rfl rfl rfl
      | (split at answered <;> cases answered; exact .aside rfl rfl rfl)

theorem postedGrows {s t : Isolate} {request : Request} {r : Answer} (answered : answers s request r = some t) :
    ∃ more, t.posted = s.posted ++ more := by
  cases recorded answered with
  | post id reply _ posted => exact ⟨_, posted⟩
  | aside _ posted | native _ _ _ posted | assign _ _ posted => exact ⟨[], by rw [posted, List.append_nil]⟩

theorem askedGrows {s t : Isolate} {request : Request} {r : Answer} (answered : answers s request r = some t) :
    ∃ more, t.asked = s.asked ++ more := by
  cases recorded answered with
  | native asking _ _ _ asked => exact ⟨_, asked⟩
  | aside _ _ asked | assign _ _ _ asked | post _ _ _ _ asked => exact ⟨[], by rw [asked, List.append_nil]⟩

theorem askedOn {s t : Isolate} {request : Request} {r : Answer} (may : able s request)
    (answered : answers s request r = some t) (old : Asked s) : Asked t := by
  cases recorded answered with
  | aside handle _ asked | post _ _ handle _ asked =>
    exact ⟨by rw [asked, handle]; exact old.own, by rw [asked]; exact old.once⟩
  | assign handle named _ asked =>
    subst named
    refine ⟨fun asking member h named => ?_, by rw [asked]; exact old.once⟩
    rw [asked] at member
    rw [may asking member] at named
    cases named
  | native asking named handle _ asked =>
    subst named
    have lawful : Lawful s asking.call := may
    refine ⟨fun other member h named => ?_, fun other member => ?_⟩
    · rw [asked] at member
      rcases List.mem_append.mp member with before | last
      · rw [handle]
        exact old.own other before h named
      · cases List.mem_singleton.mp last
        rw [handle]
        exact lawful.own h named
    · rw [asked] at member
      intro makes
      cases earlier : s.asked with
      | nil =>
        rw [earlier] at member
        cases member
      | cons first rest =>
        rw [earlier, List.cons_append, List.tail_cons] at member
        rcases List.mem_append.mp member with before | last
        · exact old.once other (by rw [earlier]; exact before) makes
        · cases List.mem_singleton.mp last
          rw [lawful.first makes] at earlier
          cases earlier

/-! What each request leads to. -/

section Requests
variable {D : Isolate → Prop} {s : Isolate}

theorem safelyMalloc {Q : Option Nat → Isolate → Prop} {bytes : Bytes} (during : D s)
    (given : ∀ p, s.blocks p = none → Q (some p) (s.put p (some (.text bytes)))) (full : Q none s) :
    Safely device D Q (malloc bytes) s := by
  refine safelyAsk during trivial fun r t answered => ?_
  cases r <;> simp only [device, answers] at answered <;> try cases answered
  · split at answered <;> cases answered
    exact given _ (by assumption)
  · exact full

theorem safelyCalloc {Q : Option Nat → Isolate → Prop} (during : D s)
    (given : ∀ p, s.blocks p = none → Q (some p) (s.put p (some (.cell 0)))) (full : Q none s) :
    Safely device D Q calloc s := by
  refine safelyAsk during trivial fun r t answered => ?_
  cases r <;> simp only [device, answers] at answered <;> try cases answered
  · split at answered <;> cases answered
    exact given _ (by assumption)
  · exact full

theorem safelyValue {Q : Option UInt64 → Isolate → Prop} {p : Nat} {n : UInt64} (during : D s)
    (there : s.blocks p = some (.cell n)) (next : Q (some n) s) : Safely device D Q (value p) s := by
  refine safelyAsk during ⟨n, there⟩ fun r t answered => ?_
  cases r <;> simp only [device, answers] at answered <;> try cases answered
  split at answered <;> cases answered
  rename_i same
  cases there.symm.trans same
  exact next

theorem safelyNative {Q : Option RkQuicStatus → Isolate → Prop} {call : Native} (during : D s)
    (may : able s (.native call)) (good : ∀ written, Q (some .ok) ((s.ask call .ok written).write call.cells written))
    (bad : ∀ status written, status ≠ .ok → RkQuicStatus.ofStatus status ≠ .ok →
      Q (some (RkQuicStatus.ofStatus status)) (s.ask call status written)) : Safely device D Q (native call) s := by
  refine safelyAsk during may fun r t answered => ?_
  cases r <;> simp only [device, answers] at answered <;> try cases answered
  rename_i status written
  simp only [statusCrosses]
  by_cases done : status = .ok
  · subst done
    exact good written
  · rw [if_neg done]
    exact bad status written done fun same => done (RkQuicStatus.ofStatusOk.mp same)

variable {Q : Option Unit → Isolate → Prop}

theorem safelyPerform {request : Request} (during : D s) (may : able s request)
    (next : ∀ r t, answers s request r = some t → Q (some ()) t) : Safely device D Q (perform request) s :=
  safelyAsk during may next

theorem safelyFree {p : Nat} (during : D s) (there : s.blocks p ≠ none) (next : Q (some ()) (s.put p none)) :
    Safely device D Q (perform (.free p)) s := by
  refine safelyPerform during there fun r t answered => ?_
  cases r <;> cases answered
  exact next

theorem safelyAssign {handle : Handle} (during : D s) (unused : ∀ asking ∈ s.asked, asking.call.handle = none)
    (next : Q (some ()) {s with handle := handle}) :
    Safely device D Q (perform (.assign handle)) s := by
  refine safelyPerform during unused fun r t answered => ?_
  cases r <;> cases answered
  exact next

def Isolate.tell (s : Isolate) (id : Nat) (reply : Reply) : Isolate := {s with posted := s.posted ++ [(id, reply)]}

theorem safelyPost {id : Nat} {reply : Reply} (during : D s) (next : Q (some ()) (s.tell id reply)) :
    Safely device D Q (perform (.post id reply)) s := by
  refine safelyPerform during trivial fun r t answered => ?_
  cases r <;> cases answered
  exact next

theorem heldBack {p : Nat} (free : s.strings p = none) (b : Option Bytes) : (s.hold p b).hold p none = s := by
  simp only [Isolate.hold, Function.update_idem]
  rw [← free, Function.update_eq_self]

theorem takesLastError {Q : Option (Option String) → Isolate → Prop} (during : ∀ strings, D {s with strings := strings})
    (next : ∀ detail, Q (some detail) s) : Safely device D Q takeLastError s := by
  refine safelyBind (safelyAsk (during s.strings) trivial fun r t answered => ?_)
  cases r <;> simp only [device, answers] at answered <;> try cases answered
  rename_i pointer message
  cases pointer with
  | none =>
    cases answered
    exact next none
  | some p =>
    dsimp only at answered
    split at answered <;> cases answered
    rename_i free
    have there : (s.hold p (some (EventJson.intoOwnedCString message))).strings p =
        some (EventJson.intoOwnedCString message) := Function.update_self ..
    have present : (s.hold p (some (EventJson.intoOwnedCString message))).strings p ≠ none := by simp [there]
    refine safelyBind (safelyAsk (during _) present fun r t answered => ?_)
    cases r <;> simp only [device, answers] at answered <;> try cases answered
    rename_i text
    split at answered <;> cases answered
    rename_i read
    rw [there, Option.bind_some, ownedReads] at read
    subst read
    refine safelyBind (safelyPerform (during _) present fun r t answered => ?_)
    cases r <;> cases answered
    rw [heldBack free]
    exact next (some (spoken message))

end Requests

/-! What a turn does. -/

def Command.makes : Command → Bool
  | .start _ | .connect _ => true
  | _ => false

def Fits (w s : Isolate) : Command → Reply → Prop
  | .start _, .started handle _ | .connect _, .connected handle _ => s.handle = handle
  | .openStream _, .streamOpened _ => s.handle = w.handle
  | .start _, .status status _ | .connect _, .status status _ | .openStream _, .status status _ =>
    status ≠ .ok ∧ s.handle = w.handle
  | .start _, _ | .connect _, _ | .openStream _, _ => False
  | _, .status _ _ => s.handle = w.handle
  | _, _ => False

def Carries : Command → Native → Prop
  | .start _, .serverStart _ _ | .connect _, .clientConnect _ _ _ | .stop, .serverStop _ => True
  | .openStream sessionId, .clientOpenStream _ session_id _ => session_id = sessionId
  | .send sessionId _ reliable, .sessionSend _ session_id _ flag =>
    session_id = sessionId ∧ flag = if reliable then 1 else 0
  | .streamSend sessionId streamId _, .streamSend _ session_id stream_id _ =>
    session_id = sessionId ∧ stream_id = streamId
  | .streamClose sessionId streamId, .streamClose _ session_id stream_id =>
    session_id = sessionId ∧ stream_id = streamId
  | _, _ => False

/-- The calls of a turn and the reply that tells what the library answered them. What it says of a failure is left open,
and a port that could not be learnt is zero. -/
inductive Relays : Bool → Command → List Asking → Reply → Prop
  | unopened (command : Command) : Relays false command [] (.status .unsupported (some "no library"))
  | unknown : Relays true .unknown [] (.status .unrecognised (some "unknown command"))
  | refused {command : Command} {asking : Asking} (carries : Carries command asking.call) (failed : asking.status ≠ .ok)
      (detail : Option String) : Relays true command [asking] (.status (.ofStatus asking.status) detail)
  | done {command : Command} {asking : Asking} (carries : Carries command asking.call) (plain : asking.call.cells = [])
      (ok : asking.status = .ok) : Relays true command [asking] (.status .ok none)
  | started (configJson : List (String × Value String)) (json out portOut : Nat) (written ports : Nat → UInt64)
      (status : Status) :
      Relays true (.start configJson)
        [⟨.serverStart json out, .ok, written⟩, ⟨.serverLocalPort (written out) portOut, status, ports⟩]
        (.started (written out) (if status = .ok then (ports portOut).toUInt16 else 0))
  | connected (configJson : List (String × Value String)) (json out session : Nat) (written : Nat → UInt64) :
      Relays true (.connect configJson) [⟨.clientConnect json out session, .ok, written⟩]
        (.connected (written out) (written session))
  | streamOpened (handle : Handle) (sessionId : SessionId) (out : Nat) (written : Nat → UInt64) :
      Relays true (.openStream sessionId) [⟨.clientOpenStream handle sessionId out, .ok, written⟩]
        (.streamOpened (written out))

structure Settled (library : Bool) (w : Isolate) (id : Nat) (command : Command) (reply : Reply) (s : Isolate) : Prop where
  posted : s.posted = w.posted ++ [(id, reply)]
  fits : Fits w s command reply
  strings : s.strings = w.strings
  relays : ∃ calls, s.asked = w.asked ++ calls ∧ Relays library command calls reply

structure During (library : Bool) (w : Isolate) (id : Nat) (command : Command) (s : Isolate) : Prop where
  replied : s.posted = w.posted ∨ ∃ reply, Settled library w id command reply s
  kept : command.makes = false → s.handle = w.handle
  still : command = .stop → s.blocks = w.blocks ∧ s.strings = w.strings

def After (library : Bool) (w : Isolate) (id : Nat) (command : Command) : Option Unit → Isolate → Prop
  | some (), s => s.blocks = w.blocks ∧ ∃ reply, Settled library w id command reply s
  | none, s => s.strings = w.strings ∧ s.posted = w.posted ∧
      (command.makes = false → s.blocks = w.blocks ∧ s.handle = w.handle)

def Suits : Command → Reply → Prop
  | .start _, .started _ _ | .connect _, .connected _ _ | .openStream _, .streamOpened _ => True
  | .start _, .status status _ | .connect _, .status status _ | .openStream _, .status status _ => status ≠ .ok
  | .start _, _ | .connect _, _ | .openStream _, _ => False
  | _, .status _ _ => True
  | _, _ => False

def Reply.handle : Reply → Option Handle
  | .started handle _ | .connected handle _ => some handle
  | .streamOpened _ | .status _ _ => none

section Turns
variable {library : Bool} {w s : Isolate} {id : Nat} {command : Command} {D : Isolate → Prop} {Q : Option Unit → Isolate → Prop}

theorem fitsSuits {reply : Reply} (fits : Fits w s command reply) : Suits command reply := by
  cases command <;> cases reply <;> simp_all [Fits, Suits]

theorem fitsHandle {reply : Reply} (fits : Fits w s command reply) : ∀ h ∈ reply.handle, s.handle = h := by
  cases command <;> cases reply <;> simp_all [Fits, Reply.handle]

theorem fitsKept {reply : Reply} (fits : Fits w s command reply) (plain : command.makes = false) : s.handle = w.handle := by
  cases command <;> cases reply <;> simp_all [Fits, Command.makes]

theorem afterDuring {a : Option Unit} (after : After library w id command a s) : During library w id command s := by
  cases a with
  | some _ =>
    obtain ⟨blocks, reply, settled⟩ := after
    exact ⟨.inr ⟨reply, settled⟩, fitsKept settled.fits, fun _ => ⟨blocks, settled.strings⟩⟩
  | none =>
    obtain ⟨strings, posted, plain⟩ := after
    refine ⟨.inl posted, fun plain' => (plain plain').2, ?_⟩
    rintro rfl
    exact ⟨(plain rfl).1, strings⟩

theorem duringNow {x : Dart Unit} (safe : Safely device (During library w id command) (After library w id command) x s) :
    During library w id command s := by
  cases x with
  | done a => exact afterDuring safe
  | thrown => exact afterDuring safe
  | act request next => exact safe.1

theorem early (posted : s.posted = w.posted) (kept : command.makes = false → s.handle = w.handle)
    (other : command ≠ .stop) : During library w id command s :=
  ⟨.inl posted, kept, fun same => absurd same other⟩

theorem late {reply : Reply} (settled : Settled library w id command reply s)
    (kept : command.makes = false → s.handle = w.handle) (other : command ≠ .stop) : During library w id command s :=
  ⟨.inr ⟨reply, settled⟩, kept, fun same => absurd same other⟩

theorem settledRest {reply : Reply} {t : Isolate} (settled : Settled library w id command reply s)
    (posted : t.posted = s.posted) (handle : t.handle = s.handle) (strings : t.strings = s.strings)
    (asked : t.asked = s.asked) : Settled library w id command reply t where
  posted := posted.trans settled.posted
  fits := by
    have fits := settled.fits
    cases command <;> cases reply <;> simp_all [Fits]
  strings := strings.trans settled.strings
  relays := asked ▸ settled.relays

theorem relaysAnswered {asking : Asking} {detail : Option String} (carries : Carries command asking.call)
    (plain : asking.call.cells = []) (silent : asking.status = .ok → detail = none) :
    Relays true command [asking] (.status (.ofStatus asking.status) detail) := by
  by_cases ok : asking.status = .ok
  · rw [silent ok, RkQuicStatus.ofStatusOk.mpr ok]
    exact .done carries plain ok
  · exact .refused carries ok detail

theorem refusedSafely {status : RkQuicStatus} (during : ∀ strings, D {s with strings := strings})
    (next : ∀ detail, Q (some ()) (s.tell id (.status status detail))) : Safely device D Q (refused id status) s :=
  safelyBind (takesLastError during fun detail => safelyPost (during s.strings) (next detail))

theorem answeredSafely {call : Native} (during : ∀ strings asked, D {s with strings := strings, asked := asked})
    (may : able s (.native call)) (none_ : call.cells = [])
    (next : ∀ status written detail, (status = .ok → detail = none) →
      Q (some ()) ((s.ask call status written).tell id (.status (.ofStatus status) detail))) :
    Safely device D Q (answered id call) s := by
  refine safelyBind (safelyNative (during s.strings s.asked) may (fun written => ?_) fun status written bad failed => ?_)
  · have unwritten : (s.ask call .ok written).write call.cells written = s.ask call .ok written := by
      simp [none_, Isolate.write]
    rw [unwritten]
    exact safelyPost (during s.strings _) (next .ok written none fun _ => rfl)
  · simp only [Option.elim, if_neg failed]
    exact refusedSafely (fun strings => during strings _) fun detail => next status written detail fun ok => absurd ok bad

@[simp] theorem putSame (p : Nat) (b : Option Block) : (s.put p b).blocks p = b := Function.update_self ..

theorem putOther {p q : Nat} (other : q ≠ p) (b : Option Block) : (s.put p b).blocks q = s.blocks q :=
  Function.update_of_ne other ..

theorem writeBlocks (cells : List Nat) (written : Nat → UInt64) (p : Nat) :
    (s.write cells written).blocks p = if p ∈ cells then some (.cell (written p)) else s.blocks p := rfl

structure Owns (base : Nat → Option Block) (ps : List Nat) (s : Isolate) : Prop where
  nodup : ps.Nodup
  mine : ∀ p ∈ ps, s.blocks p ≠ none ∧ base p = none
  others : ∀ q, q ∉ ps → s.blocks q = base q

variable {base : Nat → Option Block}

theorem ownsNothing (s : Isolate) : Owns s.blocks [] s := ⟨List.nodup_nil, by simp, fun _ _ => rfl⟩

theorem ownsPut {ps : List Nat} {p : Nat} (owns : Owns base ps s) (free : s.blocks p = none) (b : Block) :
    Owns base (ps ++ [p]) (s.put p (some b)) := by
  have new : p ∉ ps := fun member => (owns.mine p member).1 free
  refine ⟨?_, fun q member => ?_, fun q absent => ?_⟩
  · exact List.nodup_append.mpr ⟨owns.nodup, List.nodup_singleton p, fun q member r last same => by
      cases List.mem_singleton.mp last
      exact new (same ▸ member)⟩
  · by_cases same : q = p
    · subst same
      exact ⟨by simp, (owns.others q new).symm.trans free⟩
    · rw [putOther same]
      rcases List.mem_append.mp member with old | last
      · exact owns.mine q old
      · exact absurd (List.mem_singleton.mp last) same
  · rw [List.mem_append, not_or, List.mem_singleton] at absent
    rw [putOther absent.2]
    exact owns.others q absent.1

theorem ownsWrite {ps : List Nat} (owns : Owns base ps s) (cells : List Nat) (inside : ∀ p ∈ cells, p ∈ ps)
    (written : Nat → UInt64) :
    Owns base ps (s.write cells written) := by
  refine ⟨owns.nodup, fun p member => ⟨?_, (owns.mine p member).2⟩, fun q absent => ?_⟩
  · rw [writeBlocks]
    split
    · simp
    · exact (owns.mine p member).1
  · rw [writeBlocks, if_neg fun member => absent (inside q member)]
    exact owns.others q absent

theorem ownsRest {ps : List Nat} {t : Isolate} (owns : Owns base ps s) (same : t.blocks = s.blocks) : Owns base ps t :=
  ⟨owns.nodup, same ▸ owns.mine, same ▸ owns.others⟩

theorem freesSafely {ps : List Nat} (some_ : ps ≠ []) (owns : Owns base ps s)
    (during : ∀ blocks, D {s with blocks := blocks}) (next : Q (some ()) {s with blocks := base}) :
    Safely device D Q (frees ps) s := by
  induction ps generalizing s with
  | nil => exact absurd rfl some_
  | cons p more ih =>
    have there := owns.mine p List.mem_cons_self
    obtain ⟨apart, nodup⟩ := List.nodup_cons.mp owns.nodup
    have left : Owns base more (s.put p none) := by
      refine ⟨nodup, fun q member => ?_, fun q absent => ?_⟩
      · have other : q ≠ p := fun same => apart (same ▸ member)
        rw [putOther other]
        exact owns.mine q (List.mem_cons_of_mem _ member)
      · by_cases same : q = p
        · rw [same, putSame, there.2]
        · rw [putOther same]
          exact owns.others q fun member => (List.mem_cons.mp member).elim same absent
    cases more with
    | nil =>
      refine safelyFree (during s.blocks) there.1 ?_
      have back : (s.put p none).blocks = base := funext fun q => left.others q List.not_mem_nil
      have whole : s.put p none = {s with blocks := base} := by rw [← back]; rfl
      rw [whole]
      exact next
    | cons q more =>
      exact safelyBind (safelyFree (during s.blocks) there.1 (ih (List.cons_ne_nil _ _) left (fun blocks => during blocks) next))

theorem endsSafely {ps : List Nat} (reply : Reply) (other : command ≠ .stop) (some_ : ps ≠ []) (owns : Owns w.blocks ps s)
    (settled : Settled library w id command reply s)
    (next : After library w id command (some ()) {s with blocks := w.blocks} → Q (some ()) {s with blocks := w.blocks}) :
    Safely device (During library w id command) Q (frees ps) s := by
  have kept : command.makes = false → s.handle = w.handle := fitsKept settled.fits
  refine freesSafely some_ owns (fun _ => late (settledRest settled rfl rfl rfl rfl) kept other) (next ?_)
  exact ⟨rfl, reply, settledRest settled rfl rfl rfl rfl⟩

theorem lentSafely {bytes : Bytes} {call : Nat → Native} (texts : ∀ p, (call p).texts = [p])
    (cells : ∀ p, (call p).cells = []) (own : ∀ p, (call p).handle = some w.handle) (other : command ≠ .stop)
    (carries : ∀ p, Carries command (call p))
    (fits : ∀ s status detail, s.handle = w.handle → Fits w s command (.status status detail)) :
    Safely device (During true w id command) (After true w id command)
      (malloc bytes >>= fun p => Program.ensure (answered id (call p)) (frees [p])) w := by
  refine safelyBind (safelyMalloc (early rfl (fun _ => rfl) other) (fun p free => ?_) ⟨rfl, rfl, fun _ => ⟨rfl, rfl⟩⟩)
  have owns := ownsPut (ownsNothing w) free (.text bytes)
  refine safelyEnsure (answeredSafely (fun _ _ => early rfl (fun _ => rfl) other) ⟨fun q member => ?_, by simp [cells],
    by simp [own p, Isolate.put], by simp [own p]⟩ (cells p) fun status written detail silent => ?_)
  · rw [texts, List.mem_singleton] at member
    exact ⟨bytes, member ▸ putSame ..⟩
  · have relays : Relays true command [⟨call p, status, written⟩] (.status (.ofStatus status) detail) :=
      relaysAnswered (carries p) (cells p) silent
    exact endsSafely _ other (by simp) (ownsRest owns rfl) ⟨rfl, fits _ _ detail rfl, rfl, _, rfl, relays⟩ fun after => after

theorem openSafely (sessionId : SessionId) : Safely device (During true w id (.openStream sessionId))
    (After true w id (.openStream sessionId)) (turn id w.handle (.openStream sessionId)) w := by
  have other : Command.openStream sessionId ≠ .stop := by simp
  have before {t : Isolate} (posted : t.posted = w.posted) (kept : t.handle = w.handle) :
      During true w id (.openStream sessionId) t := early posted (fun _ => kept) other
  refine safelyBind (safelyCalloc (before rfl rfl) (fun out free => ?_) ⟨rfl, rfl, fun _ => ⟨rfl, rfl⟩⟩)
  have owns := ownsPut (ownsNothing w) free (.cell 0)
  refine safelyEnsure (safelyBind (safelyNative (before rfl rfl) ⟨by simp [Native.texts], ?_, ?_, nofun⟩ (fun written => ?_)
    fun status written bad failed => ?_))
  · intro p member
    cases List.mem_singleton.mp member
    exact ⟨0, putSame ..⟩
  · rintro h ⟨⟩
    rfl
  · have owns := ownsWrite owns [out] (by simp) written
    refine safelyBind (safelyValue (n := written out) (before rfl rfl) (by simp [writeBlocks, Native.cells]) ?_)
    refine safelyPost (before rfl rfl) (endsSafely (.streamOpened (written out)) other (by simp) (ownsRest owns rfl) ?_
      fun after => after)
    exact ⟨rfl, rfl, rfl, _, rfl, .streamOpened ..⟩
  · simp only [Option.elim, if_neg failed]
    refine refusedSafely (fun _ => before rfl rfl) fun detail => ?_
    refine endsSafely (.status (.ofStatus status) detail) other (by simp) (ownsRest owns rfl) ?_ fun after => after
    have relays : Relays true (.openStream sessionId) [⟨.clientOpenStream w.handle sessionId out, status, written⟩]
        (.status (.ofStatus status) detail) := .refused (by rfl) bad detail
    exact ⟨rfl, ⟨failed, rfl⟩, rfl, _, rfl, relays⟩

theorem connectSafely (configJson : List (String × Value String)) (new : w.asked = []) :
    Safely device (During true w id (.connect configJson)) (After true w id (.connect configJson))
      (turn id w.handle (.connect configJson)) w := by
  have other : Command.connect configJson ≠ .stop := by simp
  have before {t : Isolate} (posted : t.posted = w.posted) : During true w id (.connect configJson) t :=
    early posted (fun made => by cases made) other
  refine safelyBind (safelyMalloc (before rfl) (fun json freeJson => ?_) ⟨rfl, rfl, fun _ => ⟨rfl, rfl⟩⟩)
  have owns := ownsPut (ownsNothing w) freeJson (.text (toNativeUtf8 (jsonEncode configJson)))
  refine safelyBind (safelyCalloc (before rfl) (fun out freeOut => ?_) ⟨rfl, rfl, fun made => by cases made⟩)
  have owns := ownsPut owns freeOut (.cell 0)
  refine safelyBind (safelyCalloc (before rfl) (fun session freeSession => ?_) ⟨rfl, rfl, fun made => by cases made⟩)
  have owns := ownsPut owns freeSession (.cell 0)
  have apart : [json, out, session].Nodup := owns.nodup
  simp only [List.nodup_cons, List.mem_cons, List.not_mem_nil, or_false, not_or, List.nodup_nil, not_false_eq_true,
    and_true] at apart
  obtain ⟨⟨jsonOut, jsonSession⟩, outSession⟩ := apart
  refine safelyEnsure (safelyBind (safelyNative (before rfl) ⟨?_, ?_, by simp [Native.handle], fun _ => new⟩ (fun written => ?_)
    fun status written bad failed => ?_))
  · intro p member
    cases List.mem_singleton.mp member
    exact ⟨_, by rw [putOther jsonSession, putOther jsonOut, putSame]⟩
  · intro p member
    rcases List.mem_cons.mp member with rfl | last
    · exact ⟨0, by rw [putOther outSession, putSame]⟩
    · cases List.mem_singleton.mp last
      exact ⟨0, putSame ..⟩
  · have owns := ownsWrite owns [out, session] (by simp) written
    refine safelyBind (safelyValue (n := written out) (before rfl) (by simp [writeBlocks, Native.cells]) ?_)
    refine safelyBind (safelyAssign (before rfl) (by simp [Isolate.ask, Isolate.write, Isolate.put, new, Native.handle]) ?_)
    refine safelyBind (safelyValue (n := written session) (before rfl) (by simp [writeBlocks, Native.cells]) ?_)
    refine safelyPost (before rfl) (endsSafely (.connected (written out) (written session)) other (by simp) (ownsRest owns rfl) ?_
      fun after => after)
    exact ⟨rfl, rfl, rfl, _, rfl, .connected ..⟩
  · simp only [Option.elim, ne_eq, failed, not_false_eq_true, if_true]
    refine refusedSafely (fun _ => before rfl) fun detail => ?_
    refine endsSafely (.status (.ofStatus status) detail) other (by simp) (ownsRest owns rfl) ?_ fun after => after
    have relays : Relays true (.connect configJson) [⟨.clientConnect json out session, status, written⟩]
        (.status (.ofStatus status) detail) := .refused (by trivial) bad detail
    exact ⟨rfl, ⟨failed, rfl⟩, rfl, _, rfl, relays⟩

structure PortTold (s : Isolate) (id : Nat) (t : Isolate) : Prop where
  strings : t.strings = s.strings
  handle : t.handle = s.handle
  told : ∃ portOut status ports, t.asked = s.asked ++ [⟨.serverLocalPort s.handle portOut, status, ports⟩] ∧
    t.posted = s.posted ++ [(id, .started s.handle (if status = .ok then (ports portOut).toUInt16 else 0))]

theorem startedSafely (before : ∀ t, t.posted = s.posted → t.handle = s.handle → D t) (after : ∀ t, PortTold s id t → D t)
    (next : ∀ t, t.blocks = s.blocks → PortTold s id t → Q (some ()) t) (full : Q none s) :
    Safely device D Q (startedOn id s.handle) s := by
  refine safelyBind (safelyCalloc (before s rfl rfl) (fun portOut free => ?_) full)
  have owns := ownsPut (ownsNothing s) free (.cell 0)
  refine safelyEnsure (safelyBind (safelyPerform (before _ rfl rfl) ⟨by simp [Native.texts], ?_, ?_, nofun⟩
    fun r t answered => ?_))
  · intro p member
    cases List.mem_singleton.mp member
    exact ⟨0, putSame ..⟩
  · rintro h ⟨⟩
    rfl
  obtain ⟨n, port, owns, strings, kept, posted, status, ports, asked, same⟩ : ∃ n, t.blocks portOut = some (.cell n) ∧
      Owns s.blocks [portOut] t ∧ t.strings = s.strings ∧ t.handle = s.handle ∧ t.posted = s.posted ∧
      ∃ (status : Status) (ports : Nat → UInt64), t.asked = s.asked ++ [⟨.serverLocalPort s.handle portOut, status, ports⟩] ∧
        n.toUInt16 = if status = .ok then (ports portOut).toUInt16 else 0 := by
    cases r <;> simp only [answers] at answered <;> try cases answered
    rename_i status ports
    have asked : Owns s.blocks [portOut]
        ((s.put portOut (some (.cell 0))).ask (.serverLocalPort s.handle portOut) status ports) := ownsRest owns rfl
    split
    · rename_i ok
      refine ⟨_, if_pos (List.mem_singleton_self _), ownsWrite asked _ (fun p member => member) _, rfl, rfl, rfl, status,
        ports, rfl, (if_pos ok).symm⟩
    · rename_i bad
      exact ⟨0, putSame .., asked, rfl, rfl, rfl, status, ports, rfl, (if_neg bad).symm⟩
  have told : PortTold s id (t.tell id (.started s.handle n.toUInt16)) :=
    ⟨strings, kept, portOut, status, ports, asked, by rw [Isolate.tell, posted, same]⟩
  have rest (blocks : Nat → Option Block) : PortTold s id {t.tell id (.started s.handle n.toUInt16) with blocks := blocks} :=
    ⟨told.strings, told.handle, told.told⟩
  refine safelyBind (safelyValue (before t posted kept) port (safelyPost (before t posted kept) ?_))
  exact freesSafely (by simp) (ownsRest owns rfl) (fun blocks => after _ (rest blocks)) (next _ rfl (rest _))

theorem startSafely (configJson : List (String × Value String)) (new : w.asked = []) :
    Safely device (During true w id (.start configJson)) (After true w id (.start configJson))
      (turn id w.handle (.start configJson)) w := by
  have other : Command.start configJson ≠ .stop := by simp
  have before {t : Isolate} (posted : t.posted = w.posted) : During true w id (.start configJson) t :=
    early posted (fun made => by cases made) other
  refine safelyBind (safelyMalloc (before rfl) (fun json freeJson => ?_) ⟨rfl, rfl, fun _ => ⟨rfl, rfl⟩⟩)
  have owns := ownsPut (ownsNothing w) freeJson (.text (toNativeUtf8 (jsonEncode configJson)))
  refine safelyBind (safelyCalloc (before rfl) (fun out freeOut => ?_) ⟨rfl, rfl, fun made => by cases made⟩)
  have owns := ownsPut owns freeOut (.cell 0)
  have apart : json ≠ out := by
    have := owns.nodup
    simpa using this
  refine safelyEnsure (safelyBind (safelyNative (before rfl) ⟨?_, ?_, by simp [Native.handle], fun _ => new⟩ (fun written => ?_)
    fun status written bad failed => ?_))
  · intro p member
    cases List.mem_singleton.mp member
    exact ⟨_, by rw [putOther apart, putSame]⟩
  · intro p member
    cases List.mem_singleton.mp member
    exact ⟨0, putSame ..⟩
  · have owns := ownsWrite owns [out] (by simp) written
    refine safelyBind (safelyValue (n := written out) (before rfl) (by simp [writeBlocks, Native.cells]) ?_)
    refine safelyBind (safelyAssign (before rfl) (by simp [Isolate.ask, Isolate.write, Isolate.put, new, Native.handle]) ?_)
    have settled {t : Isolate} (told : PortTold {((w.put json (some (.text (toNativeUtf8 (jsonEncode configJson))))).put out
        (some (.cell 0))).ask (.serverStart json out) .ok written |>.write [out] written with handle := written out} id t) :
        ∃ reply, Settled true w id (.start configJson) reply t := by
      obtain ⟨strings, handle, portOut, status, ports, asked, posted⟩ := told
      exact ⟨_, posted, handle, strings, _, asked.trans (List.append_assoc ..), .started ..⟩
    refine startedSafely (fun t posted _ => before posted) (fun t told => ?_) (fun t blocks told => ?_) ?_
    · obtain ⟨reply, settled⟩ := settled told
      exact late settled (fun made => by cases made) other
    · obtain ⟨reply, settled⟩ := settled told
      exact endsSafely reply other (by simp) (ownsRest owns blocks) settled fun after => after
    · -- with no memory for the port, what has started stays, and the call gets no reply
      exact freesSafely (by simp) (ownsRest owns rfl) (fun _ => before rfl) ⟨rfl, rfl, fun made => by cases made⟩
  · simp only [Option.elim, ne_eq, failed, not_false_eq_true, if_true]
    refine refusedSafely (fun _ => before rfl) fun detail => ?_
    refine endsSafely (.status (.ofStatus status) detail) other (by simp) (ownsRest owns rfl) ?_ fun after => after
    have relays : Relays true (.start configJson) [⟨.serverStart json out, status, written⟩]
        (.status (.ofStatus status) detail) := .refused (by trivial) bad detail
    exact ⟨rfl, ⟨failed, rfl⟩, rfl, _, rfl, relays⟩

theorem stopSafely : Safely device (During true w id .stop) (After true w id .stop) (turn id w.handle .stop) w := by
  have before {t : Isolate} (posted : t.posted = w.posted) (kept : t.handle = w.handle)
      (still : t.blocks = w.blocks ∧ t.strings = w.strings) : During true w id .stop t :=
    ⟨.inl posted, fun _ => kept, fun _ => still⟩
  refine safelyBind (safelyNative (before rfl rfl ⟨rfl, rfl⟩) ⟨by simp [Native.texts], by simp [Native.cells], ?_, nofun⟩
    (fun written => ?_) fun status written bad _ => ?_)
  · exact fun h same => (Option.some.inj same).symm
  · have unwritten : (w.ask (.serverStop w.handle) .ok written).write [] written = w.ask (.serverStop w.handle) .ok written := by
      simp [Isolate.write]
    have relays : Relays true .stop [⟨.serverStop w.handle, .ok, written⟩] (.status .ok none) := .done trivial rfl rfl
    simp only [Native.cells, unwritten]
    exact safelyPost (before rfl rfl ⟨rfl, rfl⟩) ⟨rfl, _, rfl, rfl, rfl, _, rfl, relays⟩
  · have relays : Relays true .stop [⟨.serverStop w.handle, status, written⟩] (.status (.ofStatus status) none) :=
      .refused (by trivial) bad none
    exact safelyPost (before rfl rfl ⟨rfl, rfl⟩) ⟨rfl, _, rfl, rfl, rfl, _, rfl, relays⟩

theorem turnSafely (w : Isolate) (id : Nat) (command : Command) (new : command.makes = true → w.asked = []) :
    Safely device (During true w id command) (After true w id command) (turn id w.handle command) w := by
  cases command with
  | start configJson => exact startSafely configJson (new rfl)
  | connect configJson => exact connectSafely configJson (new rfl)
  | openStream sessionId => exact openSafely sessionId
  | send sessionId message reliable =>
    exact lentSafely (fun _ => rfl) (fun _ => rfl) (fun _ => rfl) (by simp) (fun _ => ⟨rfl, rfl⟩) fun _ _ _ kept => kept
  | streamSend sessionId streamId message =>
    exact lentSafely (fun _ => rfl) (fun _ => rfl) (fun _ => rfl) (by simp) (fun _ => ⟨rfl, rfl⟩) fun _ _ _ kept => kept
  | streamClose sessionId streamId =>
    refine answeredSafely (fun _ _ => early rfl (fun _ => rfl) (by simp))
      ⟨by simp [Native.texts], by simp [Native.cells], ?_, nofun⟩
      rfl fun status written detail silent => ?_
    · exact fun h same => (Option.some.inj same).symm
    · have relays : Relays true (.streamClose sessionId streamId)
          [⟨.streamClose w.handle sessionId streamId, status, written⟩] (.status (.ofStatus status) detail) :=
        relaysAnswered ⟨rfl, rfl⟩ rfl silent
      exact ⟨rfl, _, rfl, rfl, rfl, _, rfl, relays⟩
  | stop => exact stopSafely
  | unknown =>
    exact safelyPost (early rfl (fun _ => rfl) (by simp)) ⟨rfl, _, rfl, rfl, rfl, [], (List.append_nil _).symm, .unknown⟩

theorem withoutSafely (w : Isolate) (id : Nat) (command : Command) :
    Safely device (During false w id command) (After false w id command) (withoutLibrary id) w := by
  refine safelyPost ⟨.inl rfl, fun _ => rfl, fun _ => ⟨rfl, rfl⟩⟩
    ⟨rfl, _, rfl, ?_, rfl, [], (List.append_nil _).symm, .unopened command⟩
  cases command with
  | start | connect | openStream => exact ⟨by decide, rfl⟩
  | _ => exact rfl

end Turns

end RkQuic.Worker
