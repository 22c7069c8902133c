import RkQuic.Endpoint

/-! What one step of each party can be, said once: the relations below list the steps
with their guards, and the transition function takes no other. Every invariant is then
a case for each step listed. -/
namespace RkQuic.Endpoint
open Runs

inductive LoopMove (id : SessionId) (fresh : Nat) : Loop → Input → Loop → Effect → Prop where
  | datagram {bytes : Bytes} {text : String} (valid : Utf8.decode bytes = some text) :
      LoopMove id fresh .selecting (.datagram bytes) .selecting (.emit (.datagram id text))
  | skip (bytes : Bytes) : LoopMove id fresh .selecting (.datagram bytes) .selecting .none
  | uni : LoopMove id fresh .selecting .uni (.readingUni []) .none
  | chunk (buffer bytes : Bytes) :
      LoopMove id fresh (.readingUni buffer) (.chunk bytes) (.readingUni (buffer ++ bytes)) .none
  | message {buffer : Bytes} {text : String} (whole : Utf8.decode buffer = some text) :
      LoopMove id fresh (.readingUni buffer) .finished .selecting (.emit (.streamMessage id text))
  | garbled (buffer : Bytes) : LoopMove id fresh (.readingUni buffer) .finished .selecting .none
  | lost (buffer : Bytes) : LoopMove id fresh (.readingUni buffer) .failed .selecting .none
  | bi (t : StreamId) : LoopMove id fresh .selecting (.bi t) (.registering t) .none
  | register (t : StreamId) :
      LoopMove id fresh (.registering t) .go (.announcing t fresh) (.register id t)
  | announce (t : StreamId) (x : Nat) :
      LoopMove id fresh (.announcing t x) .go (.spawning x) (.emit (.streamOpened id t))
  | spawn (x : Nat) : LoopMove id fresh (.spawning x) .go .selecting (.spawn x)

theorem loopMoves {id fresh loop input loop' e}
    (h : sessionLoop id fresh loop input = some (loop', e)) : LoopMove id fresh loop input loop' e := by
  unfold sessionLoop at h
  split at h
  · unfold emitText at h
    split at h <;> cases h
    · exact .datagram (by assumption)
    · exact .skip _
  · cases h; exact .uni
  · cases h; exact .chunk _ _
  · unfold emitText at h
    split at h <;> cases h
    · exact .message (by assumption)
    · exact .garbled _
  · cases h; exact .lost _
  · cases h; exact .bi _
  · cases h; exact .register _
  · cases h; exact .announce _ _
  · cases h; exact .spawn _
  · cases h

inductive TaskMove (role : Role) (next : SessionId) (fresh r : Nat) :
    Phase → Input → Phase → Effect → Prop where
  | letIn {expected authority path : String} (server : role = .server expected)
      (same : path = expected) :
      TaskMove role next fresh r .handshake (.requested authority path) (.accepting authority path) .none
  | turnAway {expected authority path : String} (server : role = .server expected)
      (other : path ≠ expected) :
      TaskMove role next fresh r .handshake (.requested authority path) .refusing .none
  | noHandshake : TaskMove role next fresh r .handshake .failed .dropped .none
  | refused : TaskMove role next fresh r .refusing .go .dropped .none
  | accept (authority path : String) :
      TaskMove role next fresh r (.accepting authority path) .accepted (.numbering authority path) .none
  | noAccept (authority path : String) :
      TaskMove role next fresh r (.accepting authority path) .failed .dropped .none
  | number (authority path : String) :
      TaskMove role next fresh r (.numbering authority path) .go
        (.remembering ⟨next, authority, path⟩) .allot
  | remember (se : Session) :
      TaskMove role next fresh r (.remembering se) .go (.opening se) (.remember se.id r)
  | open_ (se : Session) :
      TaskMove role next fresh r (.opening se) .go (.serving se .selecting)
        (.emit (.sessionOpened se.id se.authority se.path))
  | serve {se : Session} {loop loop' : Loop} {input : Input} {e : Effect}
      (move : LoopMove se.id fresh loop input loop' e) :
      TaskMove role next fresh r (.serving se loop) input (.serving se loop') e
  | ended (se : Session) (reason : String) :
      TaskMove role next fresh r (.serving se .selecting) (.ended reason) (.forgetting se reason) .none
  | forget {expected : String} (server : role = .server expected) (se : Session) (reason : String) :
      TaskMove role next fresh r (.forgetting se reason) .go (.purging se reason) (.forget se.id)
  | forgetOwn {id : SessionId} {url : String} (client : role = .client id url) (se : Session)
      (reason : String) :
      TaskMove role next fresh r (.forgetting se reason) .go (.closing se reason) (.forget se.id)
  | purge (se : Session) (reason : String) :
      TaskMove role next fresh r (.purging se reason) .go (.closing se reason) (.retain se.id)
  | close (se : Session) (reason : String) :
      TaskMove role next fresh r (.closing se reason) .go (.closed se reason)
        (.emit (.sessionClosed se.id reason))

theorem taskMoves {role next fresh r p input p' e}
    (h : sessionTask role next fresh r p input = some (p', e)) : TaskMove role next fresh r p input p' e := by
  unfold sessionTask at h
  split at h
  · split at h
    · split at h <;> cases h
      · exact .turnAway rfl (by assumption)
      · exact .letIn rfl (not_not.mp (by assumption))
    · cases h
  · cases h; exact .noHandshake
  · cases h; exact .refused
  · cases h; exact .accept _ _
  · cases h; exact .noAccept _ _
  · cases h; exact .number _ _
  · cases h; exact .remember _
  · cases h; exact .open_ _
  · cases h; exact .ended _ _
  · obtain ⟨⟨loop', e⟩, ran, same⟩ := Option.map_eq_some_iff.mp h
    cases same
    exact .serve (loopMoves ran)
  · split at h <;> cases h
    · exact .forget rfl _ _
    · exact .forgetOwn rfl _ _
  · cases h; exact .purge _ _
  · cases h; exact .close _ _
  · cases h

inductive ReaderMove (id : SessionId) (t : StreamId) : Reader → Input → Reader → Effect → Prop where
  | chunk (buffer bytes : Bytes) :
      ReaderMove id t (.reading buffer) (.chunk bytes) (.reading (buffer ++ bytes)) .none
  | whole {buffer : Bytes} {text : String} (valid : Utf8.decode buffer = some text) :
      ReaderMove id t (.reading buffer) .finished (.telling text) .none
  | garbled {buffer : Bytes} (invalid : Utf8.decode buffer = none) :
      ReaderMove id t (.reading buffer) .finished (.closing none) .none
  | lost (buffer : Bytes) : ReaderMove id t (.reading buffer) .failed (.closing none) .none
  | tell (text : String) :
      ReaderMove id t (.telling text) .go (.closing (some text)) (.emit (.streamData id t text))
  | close (told : Option String) :
      ReaderMove id t (.closing told) .go (.ended told) (.emit (.streamClosed id t))

theorem readerMoves {id t reader input reader' e}
    (h : readBiStream id t reader input = some (reader', e)) : ReaderMove id t reader input reader' e := by
  unfold readBiStream at h
  split at h
  · cases h; exact .chunk _ _
  · split at h <;> cases h
    · exact .whole (by assumption)
    · exact .garbled (by assumption)
  · cases h; exact .lost _
  · cases h; exact .tell _
  · cases h; exact .close _
  · cases h

inductive CallMove (s : State) (c : Nat) : Call → Reply → Call → Effect → Prop where
  | sendUnknown {id payload reliable sent} (absent : s.sessions id = none) :
      CallMove s c ⟨.send id payload reliable, .entered, sent⟩ .go
        ⟨.send id payload reliable, .returned (.status .unknownHandle), sent⟩ .none
  | sendFound {id payload reliable sent conn} (found : s.sessions id = some conn) :
      CallMove s c ⟨.send id payload reliable, .entered, sent⟩ .go
        ⟨.send id payload reliable, .sending conn, sent⟩ .none
  | sendDone {id payload reliable sent conn} :
      CallMove s c ⟨.send id payload reliable, .sending conn, sent⟩ .done
        ⟨.send id payload reliable, .returned (.status .ok), sent⟩ .none
  | sendFailed {id payload reliable sent conn} :
      CallMove s c ⟨.send id payload reliable, .sending conn, sent⟩ .failed
        ⟨.send id payload reliable, .returned (.status .peerGone), sent⟩ .none
  | writeUnknown {id t payload sent} (absent : s.streams (id, t) = none) :
      CallMove s c ⟨.streamSend id t payload, .entered, sent⟩ .go
        ⟨.streamSend id t payload, .returned (.status .unknownHandle), sent⟩ .none
  | writeFound {id t payload sent x} (found : s.streams (id, t) = some x) :
      CallMove s c ⟨.streamSend id t payload, .entered, sent⟩ .go
        ⟨.streamSend id t payload, .waiting x, sent⟩ .none
  | writeLock {id t payload sent x} (free : (s.exchanges x).locked = none) :
      CallMove s c ⟨.streamSend id t payload, .waiting x, sent⟩ .go
        ⟨.streamSend id t payload, .writing x (Utf8.encode payload), sent⟩ (.acquire x c true)
  | wrote {id t payload sent x rest n} (some_ : 0 < n) (left : n ≤ rest.length)
      (open_ : (s.exchanges x).fin = false) (sound : (s.exchanges x).broken = false) :
      CallMove s c ⟨.streamSend id t payload, .writing x rest, sent⟩ (.wrote n)
        ⟨.streamSend id t payload, .writing x (rest.drop n), sent ++ rest.take n⟩ (.put x (rest.take n))
  | writeDone {id t payload sent x} :
      CallMove s c ⟨.streamSend id t payload, .writing x [], sent⟩ .go
        ⟨.streamSend id t payload, .returned (.status .ok), sent⟩ (.release x false)
  | writeFailed {id t payload sent x rest} (left : rest ≠ []) :
      CallMove s c ⟨.streamSend id t payload, .writing x rest, sent⟩ .failed
        ⟨.streamSend id t payload, .returned (.status .peerGone), sent⟩ (.release x true)
  | closeUnknown {id t sent} (absent : s.streams (id, t) = none) :
      CallMove s c ⟨.streamClose id t, .entered, sent⟩ .go
        ⟨.streamClose id t, .returned (.status .unknownHandle), sent⟩ .none
  | closeTake {id t sent x} (found : s.streams (id, t) = some x) :
      CallMove s c ⟨.streamClose id t, .entered, sent⟩ .go
        ⟨.streamClose id t, .waiting x, sent⟩ (.take id t x c)
  | closeLock {id t sent x} (free : (s.exchanges x).locked = none) :
      CallMove s c ⟨.streamClose id t, .waiting x, sent⟩ .go
        ⟨.streamClose id t, .finishing x, sent⟩ (.acquire x c false)
  | closeFinish {id t sent x} :
      CallMove s c ⟨.streamClose id t, .finishing x, sent⟩ .go
        ⟨.streamClose id t, .finished x, sent⟩ (.finish x)
  | closeDone {id t sent x} :
      CallMove s c ⟨.streamClose id t, .finished x, sent⟩ .done
        ⟨.streamClose id t, .returned (.status .ok), sent⟩ (.release x false)
  | closeFailed {id t sent x} :
      CallMove s c ⟨.streamClose id t, .finished x, sent⟩ .failed
        ⟨.streamClose id t, .returned (.status .peerGone), sent⟩ (.release x false)
  | openUnknown {id sent} (absent : s.sessions id = none) :
      CallMove s c ⟨.openStream id, .entered, sent⟩ .go
        ⟨.openStream id, .returned (.status .unknownHandle), sent⟩ .none
  | openFound {id sent conn} (found : s.sessions id = some conn) :
      CallMove s c ⟨.openStream id, .entered, sent⟩ .go
        ⟨.openStream id, .opening conn, sent⟩ .none
  | openFailed {id sent conn} :
      CallMove s c ⟨.openStream id, .opening conn, sent⟩ .failed
        ⟨.openStream id, .returned (.status .peerGone), sent⟩ .none
  | opened {id sent conn} (t : StreamId) :
      CallMove s c ⟨.openStream id, .opening conn, sent⟩ (.opened t)
        ⟨.openStream id, .registering t, sent⟩ .none
  | openRegister {id sent t} :
      CallMove s c ⟨.openStream id, .registering t, sent⟩ .go
        ⟨.openStream id, .spawning t s.fresh, sent⟩ (.register id t)
  | openSpawn {id sent t x} :
      CallMove s c ⟨.openStream id, .spawning t x, sent⟩ .go
        ⟨.openStream id, .returned (.stream t), sent⟩ (.spawn x)
  | polled {sent} :
      CallMove s c ⟨.nextEvent, .entered, sent⟩ .go
        ⟨.nextEvent, .returned (.event (EventQueue.nextEvent s.queue).1), sent⟩ .poll

theorem sendMoves {s id payload reliable progress sent c reply k' e}
    (h : send s id ⟨.send id payload reliable, progress, sent⟩ progress reply = some (k', e)) :
    CallMove s c ⟨.send id payload reliable, progress, sent⟩ reply k' e := by
  unfold send at h
  split at h
  · split at h <;> cases h
    · exact .sendUnknown (by assumption)
    · exact .sendFound (by assumption)
  · cases h; exact .sendDone
  · cases h; exact .sendFailed
  · cases h

theorem streamSendMoves {s c id t payload progress sent reply k' e}
    (h : streamSend s c (id, t) payload ⟨.streamSend id t payload, progress, sent⟩ progress reply =
      some (k', e)) :
    CallMove s c ⟨.streamSend id t payload, progress, sent⟩ reply k' e := by
  unfold streamSend at h
  split at h
  · split at h <;> cases h
    · exact .writeUnknown (by assumption)
    · exact .writeFound (by assumption)
  · split at h <;> cases h
    exact .writeLock (by assumption)
  · split at h
    · rename_i guard
      cases h
      exact .wrote guard.1 guard.2.1 guard.2.2.1 guard.2.2.2
    · cases h
  · cases h; exact .writeDone
  · cases h; exact .writeFailed (List.cons_ne_nil _ _)
  · cases h

theorem streamCloseMoves {s c id t progress sent reply k' e}
    (h : streamClose s c (id, t) ⟨.streamClose id t, progress, sent⟩ progress reply = some (k', e)) :
    CallMove s c ⟨.streamClose id t, progress, sent⟩ reply k' e := by
  unfold streamClose at h
  split at h
  · split at h <;> cases h
    · exact .closeUnknown (by assumption)
    · exact .closeTake (by assumption)
  · split at h <;> cases h
    exact .closeLock (by assumption)
  · cases h; exact .closeFinish
  · cases h; exact .closeDone
  · cases h; exact .closeFailed
  · cases h

theorem openStreamMoves {s c id progress sent reply k' e}
    (h : openStream s id ⟨.openStream id, progress, sent⟩ progress reply = some (k', e)) :
    CallMove s c ⟨.openStream id, progress, sent⟩ reply k' e := by
  unfold openStream at h
  split at h
  · split at h <;> cases h
    · exact .openUnknown (by assumption)
    · exact .openFound (by assumption)
  · cases h; exact .openFailed
  · cases h; exact .opened _
  · cases h; exact .openRegister
  · cases h; exact .openSpawn
  · cases h

theorem callMoves {s c k reply k' e} (h : callStep s c k reply = some (k', e)) :
    CallMove s c k reply k' e := by
  obtain ⟨method, progress, sent⟩ := k
  cases method with
  | send id payload reliable => exact sendMoves h
  | streamSend id t payload => exact streamSendMoves h
  | streamClose id t => exact streamCloseMoves h
  | openStream id => exact openStreamMoves h
  | nextEvent =>
    simp only [callStep, nextEvent] at h
    split at h <;> cases h
    exact .polled

inductive Move (role : Role) (s : State) : Label → State → Prop where
  | incoming {r : Nat} {expected : String} (server : role = .server expected) (free : s.tasks r = none) :
      Move role s (.incoming r) {s with tasks := Function.update s.tasks r (some .handshake)}
  | task {r : Nat} {input : Input} {p p' : Phase} {e : Effect} (here : s.tasks r = some p)
      (move : TaskMove role s.next s.fresh r p input p' e) :
      Move role s (.task r input) {s.apply e with tasks := Function.update s.tasks r (some p')}
  | reader {x : Nat} {input : Input} {reader' : Reader} {e : Effect}
      (move : ReaderMove (s.exchanges x).session (s.exchanges x).stream (s.exchanges x).reader input
        reader' e) :
      Move role s (.reader x input) ((s.edit x (fun ex => {ex with reader := reader'})).apply e)
  | enter {c : Nat} {method : Method} (free : s.calls c = none) :
      Move role s (.enter c method)
        {s with calls := Function.update s.calls c (some ⟨method, .entered, []⟩)}
  | call {c : Nat} {reply : Reply} {k k' : Call} {e : Effect} (here : s.calls c = some k)
      (move : CallMove s c k reply k' e) :
      Move role s (.call c reply) {s.apply e with calls := Function.update s.calls c (some k')}

theorem moves {role s a t} (h : step role s a = some t) : Move role s a t := by
  cases a with
  | incoming r =>
    simp only [step] at h
    split at h <;> cases h
    exact .incoming rfl (by assumption)
  | task r input =>
    simp only [step, bind, Option.bind_eq_some_iff] at h
    obtain ⟨p, here, ⟨p', e⟩, ran, last⟩ := h
    cases Option.some.inj last
    exact .task here (taskMoves ran)
  | reader x input =>
    simp only [step, bind, Option.bind_eq_some_iff] at h
    obtain ⟨⟨reader', e⟩, ran, last⟩ := h
    cases Option.some.inj last
    exact .reader (readerMoves ran)
  | enter c method =>
    simp only [step] at h
    split at h <;> cases h
    exact .enter (by assumption)
  | call c reply =>
    simp only [step, bind, Option.bind_eq_some_iff] at h
    obtain ⟨k, here, ⟨k', e⟩, ran, last⟩ := h
    cases Option.some.inj last
    exact .call here (callMoves ran)

section Frame
variable (s : State) (x : Nat) (f : Exchange → Exchange)

@[simp] theorem editTasks : (s.edit x f).tasks = s.tasks := rfl
@[simp] theorem editSessions : (s.edit x f).sessions = s.sessions := rfl
@[simp] theorem editStreams : (s.edit x f).streams = s.streams := rfl
@[simp] theorem editFresh : (s.edit x f).fresh = s.fresh := rfl
@[simp] theorem editNext : (s.edit x f).next = s.next := rfl
@[simp] theorem editAccepted : (s.edit x f).accepted = s.accepted := rfl
@[simp] theorem editQueue : (s.edit x f).queue = s.queue := rfl
@[simp] theorem editEmitted : (s.edit x f).emitted = s.emitted := rfl
@[simp] theorem editCalls : (s.edit x f).calls = s.calls := rfl

@[simp] theorem editSame : (s.edit x f).exchanges x = f (s.exchanges x) := by simp [State.edit]

theorem editOther {y : Nat} (other : y ≠ x) : (s.edit x f).exchanges y = s.exchanges y := by
  simp [State.edit, other]

@[simp] theorem applyTasks (e : Effect) : (s.apply e).tasks = s.tasks := by
  cases e <;> rfl

@[simp] theorem applyCalls (e : Effect) : (s.apply e).calls = s.calls := by
  cases e <;> rfl

end Frame

def Effect.events : Effect → List Event
  | .emit event => [event]
  | _ => []

theorem applyEmitted (s : State) (e : Effect) : (s.apply e).emitted = s.emitted ++ e.events := by
  cases e <;> simp [State.apply, Effect.events]

end RkQuic.Endpoint
