import RkQuic.AllOrNothing
import RkQuic.EventJson
import RkQuic.Runs

/-! The detail behind a failure. It is kept for each thread; every entry point that answers a
status forgets the detail of the call before, and a read takes what is there. -/
namespace RkQuic.LastError
open Config Creating Ffi Outcomes Runs

/-- What is below an entry point while it runs, and what it answers. `world` is the rest of the
process; its slot is the calling thread's. -/
structure Below where
  lib : Library
  world : World
  found : Bool
  removed : Status
  event : Option Event
  serialised : Except String String
  sent : Except Status Unit
  panics : Bool

inductive Entry where
  | serverStart (config_json : Option Bytes)
  | serverStop (handle : Handle)
  | serverLocalPort (handle : Handle)
  | serverPoll (handle : Handle) (timeout_ms : UInt32)
  | sessionSend (handle : Handle) (session_id : SessionId) (payload_utf8 : Option Bytes) (reliable : UInt8)
  | streamSend (handle : Handle) (session_id : SessionId) (stream_id : StreamId) (payload_utf8 : Option Bytes)
  | streamClose (handle : Handle) (session_id : SessionId) (stream_id : StreamId)
  | clientConnect (config_json : Option Bytes)
  | clientOpenStream (handle : Handle) (session_id : SessionId)
  deriving DecidableEq, Repr

section Bodies
variable (b : Below)

def answered : Except Status Unit → Status
  | .ok _ => .ok
  | .error status => status

def poll : Call World Status :=
  if b.found = false then pure .unknownHandle
  else
    match b.event with
    | none => pure .wouldBlock
    | some _ =>
      match b.serialised with
      | .ok _ => pure .ok
      | .error e => .lift (.err (.panic, "event could not be serialised: " ++ e))

def sends (payload_utf8 : Option Bytes) : Call World Status :=
  match borrowCString payload_utf8 with
  | none => .lift (.err (invalid "payloadUtf8 is null or not UTF-8"))
  | some _ => if b.found = false then pure .unknownHandle else pure (answered b.sent)

/- The closures the entry points hand to `guard`. A panic can come from whatever a body calls. -/
def Entry.body (entry : Entry) : Call World Status :=
  if b.panics then do
    clearLastError
    .lift .panicked
  else
    match entry with
    | .serverStart config_json => do
      Creating.serverStart b.lib config_json
      pure .ok
    | .serverStop _ => do
      clearLastError
      pure b.removed
    | .serverLocalPort _ => do
      clearLastError
      if b.found then pure .ok else pure .unknownHandle
    | .serverPoll _ _ => do
      clearLastError
      poll b
    | .sessionSend _ _ payload_utf8 _ => do
      clearLastError
      sends b payload_utf8
    | .streamSend _ _ _ payload_utf8 => do
      clearLastError
      sends b payload_utf8
    | .streamClose _ _ _ => do
      clearLastError
      if b.found then pure (answered b.sent) else pure .unknownHandle
    | .clientConnect config_json => do
      Creating.clientConnect b.lib config_json
      pure .ok
    | .clientOpenStream handle session_id => do
      Creating.clientOpenStream b.lib handle session_id
      pure .ok

def guarded (body : Call World Status) (w : World) : Status × World :=
  match body w with
  | (.ok status, v) => (status, v)
  | (.err (status, message), v) => (status, {v with lastError := some message})
  | (.panicked, v) => (.panic, v)

def Entry.finish (entry : Entry) (slot : Option String) : Status × Option String :=
  let (status, w) := guarded (entry.body b) {b.world with lastError := slot}
  (status, w.lastError)

end Bodies

structure Process where
  slots : Nat → Option String
  calls : Nat → Option Entry

inductive Label where
  | enters (thread : Nat) (entry : Entry)
  | returns (thread : Nat) (b : Below)
  | reads (thread : Nat)

/- `rk_quic_last_error`: the buffer it hands over, or null. -/
def lastError (slot : Option String) : Option Bytes := slot.map EventJson.intoOwnedCString

/- A thread is in one call at a time, and its slot is touched by that call only. -/
def step (s : Process) : Label → Option Process
  | .enters thread entry =>
    match s.calls thread with
    | none => some {s with calls := Function.update s.calls thread (some entry)}
    | some _ => none
  | .returns thread b =>
    match s.calls thread with
    | some entry =>
      some ⟨Function.update s.slots thread (entry.finish b (s.slots thread)).2, Function.update s.calls thread none⟩
    | none => none
  | .reads thread =>
    match s.calls thread with
    | none => some {s with slots := Function.update s.slots thread none}
    | some _ => none

def init : Process := ⟨fun _ => none, fun _ => none⟩

/-! A body forgets first, and from then on touches the slot no more. -/

def Fault (status : Status) : Prop := status ≠ .ok ∧ status ≠ .wouldBlock

def Quiet {α : Type} (x : Call World α) : Prop :=
  Triple (fun w => w.lastError = none) x (fun _ w => w.lastError = none)
    fun refusal w => w.lastError = none ∧ ∀ r, refusal = some r → Fault r.1

theorem quietBind {α β : Type} {x : Call World α} {f : α → Call World β} (first : Quiet x) (rest : ∀ a, Quiet (f a)) :
    Quiet (x >>= f) :=
  tripleBind first rest

theorem quietLift {α : Type} {o : Outcome Refusal α} (faults : ∀ r, o = .err r → Fault r.1) :
    Quiet (.lift o : Call World α) :=
  tripleLift (fun _ _ _ none_ => none_) (fun r refused _ none_ => ⟨none_, fun r' same => Option.some.inj same ▸ faults r refused⟩)
    fun _ none_ => ⟨none_, fun _ h => by cases h⟩

theorem quietPure {α : Type} (a : α) : Quiet (pure a : Call World α) := fun _ none_ => none_

theorem quietRead {α : Type} (f : World → α) : Quiet (.read f : Call World α) := tripleRead fun _ none_ => none_

theorem quietWrite {f : World → World} (kept : ∀ w, (f w).lastError = w.lastError) : Quiet (.write f : Call World Unit) :=
  tripleWrite fun w none_ => (kept w).trans none_

theorem faultOf {status : Status} {r : Refusal} (named : r.1 = status) (fault : Fault status) : Fault r.1 := named ▸ fault

theorem idleFault (lib : Library) (ms : UInt64) : ∀ r, idleRange lib ms = .err r → Fault r.1 :=
  fun _ refused => faultOf (idleRefused refused) ⟨by simp, by simp⟩

theorem bindStatusFault (error : IoError) : Fault (bindStatus error) := by
  rcases bindStatusCases error with named | named <;> exact faultOf (r := (_, "")) named ⟨by simp, by simp⟩

theorem connectStatusFault (lib : Library) (error : String) : Fault (connectStatus lib error) := by
  rcases connectStatusCases lib error with named | named <;> exact faultOf (r := (_, "")) named ⟨by simp, by simp⟩

theorem nextHandleQuiet : Quiet nextHandle :=
  quietBind (quietRead _) fun _ => quietBind (quietWrite fun _ => rfl) fun _ => quietPure _

theorem insertQuiet (handle : Handle) (endpoint : Endpoint) : Quiet (Creating.insert handle endpoint) :=
  quietWrite fun _ => rfl

theorem writeOutQuiet (out : Out) (value : UInt64) : Quiet (writeOut out value) := quietWrite fun _ => rfl

theorem startQuiet (lib : Library) (config : ParsedConfig) : Quiet (start lib config) := by
  refine quietBind (quietLift fun r refused => faultOf (identityRefused refused) ⟨by simp, by simp⟩) fun identity => ?_
  refine quietBind (quietLift fun r refused => ?_) fun _ => ?_
  · unfold ready at refused
    split at refused <;> cases refused
  refine quietBind (quietLift (idleFault lib _)) fun _ => ?_
  refine quietBind (quietLift (mapErrAll fun e => ⟨by simp [noRuntime], by simp [noRuntime]⟩)) fun _ => ?_
  refine quietBind (quietLift (mapErrAll fun e => bindStatusFault e)) fun _ => ?_
  refine quietBind (quietLift (mapErrAll fun e => ⟨by simp, by simp⟩)) fun port => ?_
  exact quietBind nextHandleQuiet fun handle => quietBind (insertQuiet _ _) fun _ => quietPure _

theorem connectQuiet (lib : Library) (config : ParsedClientConfig) : Quiet (connect lib config) := by
  refine quietBind (quietLift (idleFault lib _)) fun _ => ?_
  refine quietBind (quietLift (mapErrAll fun e => ⟨by simp [noRuntime], by simp [noRuntime]⟩)) fun _ => ?_
  refine quietBind (quietLift (mapErrAll fun e => ⟨by simp, by simp⟩)) fun _ => ?_
  refine quietBind (quietLift (mapErrAll fun e => connectStatusFault lib e)) fun _ => ?_
  refine quietBind (quietLift fun r refused => absurd refused unwrapOrErr) fun port => ?_
  refine quietBind nextHandleQuiet fun session_id => quietBind nextHandleQuiet fun handle => ?_
  exact quietBind (insertQuiet _ _) fun _ => quietPure _

theorem openStreamQuiet (lib : Library) (handle : Handle) (session_id : SessionId) :
    Quiet (Creating.openStream lib handle session_id) := by
  refine quietBind (quietRead _) fun found => ?_
  refine quietBind (quietLift fun r refused => ?_) fun endpoint => ?_
  · obtain ⟨-, rfl⟩ := okOrErr.mp refused
    exact ⟨by simp, by simp⟩
  split
  · exact quietLift fun r refused => by cases refused; exact ⟨by simp, by simp⟩
  split
  · exact quietLift fun r refused => by cases refused; exact ⟨by simp, by simp⟩
  refine quietBind (quietLift (mapErrAll fun e => ⟨by simp, by simp⟩)) fun _ => ?_
  refine quietBind (quietLift (mapErrAll fun e => ⟨by simp, by simp⟩)) fun _ => ?_
  exact quietBind (insertQuiet _ _) fun _ => quietPure _

theorem readConfigQuiet {α : Type} (config_json : Option Bytes) (decode : String → Outcome String α) :
    Quiet (.lift (readConfig config_json decode) : Call World α) :=
  quietLift fun _ refused => faultOf (configRefused refused) ⟨by simp, by simp⟩

theorem sendsQuiet (b : Below) (payload_utf8 : Option Bytes) : Quiet (sends b payload_utf8) := by
  unfold sends
  split
  · exact quietLift fun r refused => by cases refused; exact ⟨by simp [invalid], by simp [invalid]⟩
  · split <;> exact quietPure _

theorem pollQuiet (b : Below) : Quiet (poll b) := by
  unfold poll
  split
  · exact quietPure _
  split
  · exact quietPure _
  split
  · exact quietPure _
  · exact quietLift fun r refused => by cases refused; exact ⟨by simp, by simp⟩

theorem bodyForgets (b : Below) (entry : Entry) : ∃ rest, Quiet rest ∧ entry.body b = (do clearLastError; rest) := by
  unfold Entry.body
  cases b.panics with
  | true =>
    have quiet : Quiet (.lift .panicked : Call World Status) := quietLift fun r refused => by cases refused
    exact ⟨_, quiet, rfl⟩
  | false =>
    cases entry with
    | serverStart config_json =>
      refine ⟨_, ?_, bodyAssoc _ _ _⟩
      refine quietBind (quietBind (readConfigQuiet _ _) fun config => ?_) fun _ => quietPure _
      refine quietBind (quietLift fun r refused => ?_) fun parsed => ?_
      · rcases serverParseRefused refused with named | named <;> exact faultOf named ⟨by simp, by simp⟩
      · exact quietBind (startQuiet _ _) fun handle => writeOutQuiet _ _
    | serverStop handle => exact ⟨_, quietPure _, rfl⟩
    | serverLocalPort handle =>
      refine ⟨_, ?_, rfl⟩
      split <;> exact quietPure _
    | serverPoll handle timeout_ms => exact ⟨_, pollQuiet b, rfl⟩
    | sessionSend handle session_id payload_utf8 reliable => exact ⟨_, sendsQuiet b payload_utf8, rfl⟩
    | streamSend handle session_id stream_id payload_utf8 => exact ⟨_, sendsQuiet b payload_utf8, rfl⟩
    | streamClose handle session_id stream_id =>
      refine ⟨_, ?_, rfl⟩
      split <;> exact quietPure _
    | clientConnect config_json =>
      refine ⟨_, ?_, bodyAssoc _ _ _⟩
      refine quietBind (quietBind (readConfigQuiet _ _) fun config => ?_) fun _ => quietPure _
      refine quietBind (quietLift fun r refused => faultOf (clientParseRefused refused) ⟨by simp, by simp⟩) fun parsed => ?_
      exact quietBind (connectQuiet _ _) fun made => quietBind (writeOutQuiet _ _) fun _ => writeOutQuiet _ _
    | clientOpenStream handle session_id =>
      refine ⟨_, ?_, bodyAssoc _ _ _⟩
      exact quietBind (quietBind (openStreamQuiet _ _ _) fun stream_id => writeOutQuiet _ _) fun _ => quietPure _

theorem finishOwn (b : Below) (entry : Entry) (slot : Option String) :
    entry.finish b slot = entry.finish b none ∧
      ((entry.finish b slot).2 ≠ none → Fault (entry.finish b slot).1) := by
  obtain ⟨rest, quiet, same⟩ := bodyForgets b entry
  have ran : entry.finish b slot = entry.finish b none := by
    simp only [Entry.finish, same, clearLastError, guarded, writeBind]
  refine ⟨ran, ?_⟩
  have led := quiet {b.world with lastError := none} rfl
  simp only [Entry.finish, same, clearLastError, guarded, writeBind]
  rcases answer : rest {b.world with lastError := none} with ⟨status | ⟨status, message⟩ | _, v⟩
  · rw [answer] at led
    exact fun some_ => absurd led some_
  · rw [answer] at led
    exact fun _ => led.2 _ rfl
  · rw [answer] at led
    exact fun some_ => absurd led.1 some_

def Label.answers (thread : Nat) : Label → Bool
  | .returns t _ | .reads t => t = thread
  | .enters _ _ => false

def Unread (labels : List Label) (thread : Nat) (message : String) : Prop :=
  ∃ before b after u entry, labels = before ++ .returns thread b :: after ∧ run step init before = some u ∧
    u.calls thread = some entry ∧ (entry.finish b none).2 = some message ∧ Fault (entry.finish b none).1 ∧
    ∀ a ∈ after, a.answers thread = false

def ReadsOwn (as : String → Bytes) (labels : List Label) : Prop :=
  ∀ before thread after u buffer, labels = before ++ .reads thread :: after → run step init before = some u →
    lastError (u.slots thread) = some buffer → ∃ message, Unread before thread message ∧ buffer = as message

theorem unreadMore {labels : List Label} {a : Label} {thread : Nat} {message : String} (unread : Unread labels thread message)
    (aside : a.answers thread = false) : Unread (labels ++ [a]) thread message := by
  obtain ⟨before, b, after, u, entry, rfl, ran, calling, recorded, fault, quiet⟩ := unread
  refine ⟨before, b, after ++ [a], u, entry, by simp, ran, calling, recorded, fault, fun c member => ?_⟩
  rcases List.mem_append.mp member with inside | last
  · exact quiet c inside
  · exact List.mem_singleton.mp last ▸ aside

theorem slotsUnread {labels : List Label} {s : Process} (ran : run step init labels = some s) :
    ∀ thread message, s.slots thread = some message → Unread labels thread message := by
  refine runHistory (P := fun as s => ∀ thread message, s.slots thread = some message → Unread as thread message)
    (fun thread message here => by cases here) (fun as u a v before old one thread message here => ?_) ran
  cases a with
  | enters t entry =>
    simp only [step] at one
    split at one <;> cases one
    exact unreadMore (old thread message here) rfl
  | returns t b =>
    simp only [step] at one
    split at one <;> cases one
    rename_i entry calling
    by_cases same : thread = t
    · subst same
      obtain ⟨own, faults⟩ := finishOwn b entry (u.slots thread)
      have left : (entry.finish b (u.slots thread)).2 = some message := by simpa using here
      have fault := faults (by simp [left])
      rw [own] at left fault
      exact ⟨as, b, [], u, entry, rfl, before, calling, left, fault, fun _ h => absurd h List.not_mem_nil⟩
    · have kept : u.slots thread = some message := by simpa [same] using here
      exact unreadMore (old thread message kept) (by simp [Label.answers, Ne.symm same])
  | reads t =>
    simp only [step] at one
    split at one <;> cases one
    by_cases same : thread = t
    · subst same
      simp at here
    · have kept : u.slots thread = some message := by simpa [same] using here
      exact unreadMore (old thread message kept) (by simp [Label.answers, Ne.symm same])

theorem readsOwnDetail (labels : List Label) : ReadsOwn EventJson.intoOwnedCString labels := by
  intro before thread after u buffer split ran read
  obtain ⟨message, here, same⟩ := Option.map_eq_some_iff.mp read
  exact ⟨message, slotsUnread ran thread message here, same.symm⟩

def zeroAddress : String :=
  "\x7b\"bindAddress\":\"\\u0000\",\"certificateChainPem\":\"\",\"privateKeyPem\":\"\"\x7d"

def zeroBelow : Below where
  lib := {willing zeroHash with
    serverJson := fun text => if text = zeroAddress then .ok ⟨"\x00", "", "", "/rk", 30000⟩ else .err "expected value"
    socketAddr := fun _ => none}
  world := freshWorld
  found := true
  removed := .ok
  event := none
  serialised := .ok ""
  sent := .ok ()
  panics := false

def zeroStart : Entry := .serverStart (some (toNativeUtf8 zeroAddress))

def zeroRead : List Label := [.enters 0 zeroStart, .returns 0 zeroBelow, .reads 0]

theorem zeroDetailReplaced : (zeroStart.finish zeroBelow none).1 = .invalidArgument ∧
    ¬ ReadsOwn (fun message => Utf8.encode message ++ [0]) zeroRead := by
  have answer : zeroStart.finish zeroBelow none = (.invalidArgument, some ("bindAddress \"\x00\" is not host:port — note " ++
      "that a bare host is not enough, the port has to be there even if it is 0")) := by decide +kernel
  refine ⟨by rw [answer], fun own => ?_⟩
  have ran : run step init [.enters 0 zeroStart, .returns 0 zeroBelow] =
      some ⟨Function.update (fun _ => none) 0 (zeroStart.finish zeroBelow none).2,
        Function.update (Function.update (fun _ => none) 0 (some zeroStart)) 0 none⟩ := rfl
  have replaced : lastError ((zeroStart.finish zeroBelow none).2) =
      some (Utf8.encode "<string contained a NUL>" ++ [0]) := by
    rw [answer]
    decide +kernel
  obtain ⟨message, unread, same⟩ := own _ 0 [] _ _ rfl ran (by simpa using replaced)
  have told := Utf8.encodeInjective (List.append_cancel_right same)
  obtain ⟨before, b, after, u, entry, split, reached, calling, recorded, -⟩ := unread
  rcases before with _ | ⟨x, _ | ⟨y, before⟩⟩
  · simp at split
  · simp only [List.singleton_append, List.cons.injEq, Label.returns.injEq] at split
    obtain ⟨rfl, ⟨-, rfl⟩, -⟩ := split
    cases Option.some.inj reached
    have same : some zeroStart = some entry := calling
    cases same
    rw [answer, ← told] at recorded
    exact absurd (Option.some.inj recorded) (by decide)
  · have long := congrArg List.length split
    simp at long

end RkQuic.LastError
