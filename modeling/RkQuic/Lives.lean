import RkQuic.CommandChannel
import RkQuic.Worker

/-! The life of a `QuicServer` or a `QuicClient`, from `start` or `connect` to the end of its
worker: the main isolate with the command channel, the worker with its turns, and the two ports
between them. The main isolate handles one message at a time, and what a message resumes runs
before the next. A kill comes to the worker at some moment after it has been sent. -/
namespace RkQuic.Lives
open Creating (Handle)
open Json Programs Runs Worker

inductive Half where
  | server
  | client
  deriving DecidableEq, Repr

def Half.opening (configJson : List (String × Value String)) : Half → Command
  | .server => .start configJson
  | .client => .connect configJson

inductive Method where
  | openStream
  | send (sessionId : SessionId) (message : String) (reliable : Bool)
  | sendOn (sessionId : SessionId) (streamId : StreamId) (message : String)
  | closeStream (sessionId : SessionId) (streamId : StreamId)

def Method.command (own : SessionId) : Half → Method → Option Command
  | .server, .openStream => none
  | .server, .send sessionId message reliable => some (.send sessionId message reliable)
  | .server, .sendOn sessionId streamId message => some (.streamSend sessionId streamId message)
  | .server, .closeStream sessionId streamId => some (.streamClose sessionId streamId)
  -- the methods of a client take no session
  | .client, .openStream => some (.openStream own)
  | .client, .send _ message reliable => some (.send own message reliable)
  | .client, .sendOn _ streamId message => some (.streamSend own streamId message)
  | .client, .closeStream _ streamId => some (.streamClose own streamId)

inductive Phase where
  | opening
  | failed (status : RkQuicStatus) (detail : Option String)
  | running (handle : Handle)
  | stopping (handle : Handle) (id : Nat)
  | ended (handle : Handle)
  deriving DecidableEq, Repr

def Phase.object : Phase → Option Handle
  | .running handle | .stopping handle _ | .ended handle => some handle
  | .opening | .failed _ _ => none

/- `dispose` has been called, and the kill is on its way. -/
def Phase.disposed : Phase → Bool
  | .failed _ _ | .ended _ => true
  | _ => false

/-- A turn and the program it has left. `before` is history: the isolate when it began. -/
structure Turn where
  id : Nat
  command : Command
  before : Isolate
  rest : Dart Unit

/-- `threw` is a turn that has thrown, which ends the isolate. `sent`, `served`, `calls` and `heard` are history; `calls`
are those of the library, each with the id of the command that it was made for. -/
structure State where
  phase : Phase
  own : SessionId
  channel : CommandChannel Reply
  inbox : List (Nat × Command)
  turn : Option Turn
  isolate : Isolate
  alive : Bool
  threw : Bool
  outbox : List (Nat × Reply)
  sent : List (Nat × Command)
  served : List (Nat × Command)
  calls : List (Nat × Asking)
  heard : List (Nat × Reply)

def stoppedReply : Reply := .status .notRunning (some "the endpoint was stopped")

def newIsolate : Isolate := ⟨fun _ => none, fun _ => none, 0, [], []⟩

def init (half : Half) (configJson : List (String × Value String)) : State where
  phase := .opening
  own := 0
  channel := (CommandChannel.fresh 0).send
  inbox := [(0, half.opening configJson)]
  turn := none
  isolate := newIsolate
  alive := true
  threw := false
  outbox := []
  sent := [(0, half.opening configJson)]
  served := []
  calls := []
  heard := []

inductive Label where
  | call (method : Method)
  | stop
  | take
  | answer (a : Answer)
  | finish
  | deliver
  | kill
  | cancelled

def issue (s : State) (command : Command) : State :=
  {s with
    channel := s.channel.send
    inbox := s.inbox ++ [(s.channel.nextId, command)]
    sent := s.sent ++ [(s.channel.nextId, command)]}

def opened (half : Half) (s : State) (reply : Reply) : State :=
  match half, reply with
  | .server, .started handle _ => {s with phase := .running handle}
  | .client, .connected handle sessionId => {s with phase := .running handle, own := sessionId}
  | _, .status status detail => {s with phase := .failed status detail, channel := s.channel.cancel}
  | _, _ => {s with phase := .failed .unrecognised (some "unexpected reply"), channel := s.channel.cancel}

def deliver (half : Half) (s : State) (id : Nat) (reply : Reply) (rest : List (Nat × Reply)) : State :=
  let after := {s with outbox := rest, channel := s.channel.receive id reply, heard := s.heard ++ [(id, reply)]}
  if s.channel.listening = true ∧ id ∈ s.channel.pending then
    match s.phase with
    | .opening => opened half after reply
    | .stopping handle stop =>
      if id = stop then {after with phase := .ended handle, channel := after.channel.cancel} else after
    | _ => after
  else after

/- `library` is whether the worker could open it; the probe had found it usable. -/
def step (half : Half) (library : Bool) (s : State) : Label → Option State
  | .call method =>
    match s.phase with
    | .running _ => (method.command s.own half).map (issue s)
    | .opening | .failed _ _ => none
    | .stopping _ _ | .ended _ => some s
  | .stop =>
    match s.phase with
    | .running handle => some {issue s .stop with phase := .stopping handle s.channel.nextId}
    | .opening | .failed _ _ => none
    | .stopping _ _ | .ended _ => some s
  | .take =>
    match s.alive, s.turn, s.inbox with
    | true, none, (id, command) :: rest =>
      let program := if library then Worker.turn id s.isolate.handle command else withoutLibrary id
      some {s with inbox := rest, turn := some ⟨id, command, s.isolate, program⟩}
    | _, _, _ => none
  | .answer a =>
    match s.alive, s.turn with
    | true, some t =>
      (advance device (t.rest, s.isolate) a).map fun (rest, isolate) =>
        {s with
          turn := some {t with rest := rest}
          isolate := isolate
          outbox := s.outbox ++ isolate.posted.drop s.isolate.posted.length
          calls := s.calls ++ (isolate.asked.drop s.isolate.asked.length).map (Prod.mk t.id)}
    | _, _ => none
  | .finish =>
    match s.alive, s.turn with
    | true, some t =>
      match t.rest with
      | .done () => some {s with turn := none, served := s.served ++ [(t.id, t.command)]}
      | .thrown => some {s with alive := false, threw := true}
      | .act _ _ => none
    | _, _ => none
  | .deliver =>
    match s.outbox with
    | (id, reply) :: rest => some (deliver half s id reply rest)
    | [] => none
  | .kill => if s.phase.disposed then some {s with alive := false} else none
  | .cancelled => if s.channel.listening then none else some {s with channel := s.channel.orphan stoppedReply}

/-! Where every command is: its turn has ended, or goes on, or it is in the inbox. -/

def State.working (s : State) : List (Nat × Command) := (s.turn.map fun t => (t.id, t.command)).toList

def State.resting (s : State) : Isolate :=
  match s.turn with
  | some t => t.before
  | none => s.isolate

def callsOf (calls : List (Nat × Asking)) (id : Nat) : List Asking := (calls.filter fun c => c.1 = id).map Prod.snd

theorem callsOfAppend (calls : List (Nat × Asking)) (id : Nat) (more : List Asking) (other : Nat) :
    callsOf (calls ++ more.map (Prod.mk id)) other = callsOf calls other ++ if other = id then more else [] := by
  have mine : (more.map (Prod.mk id)).filter (fun c => c.1 = other) = if other = id then more.map (Prod.mk id) else [] := by
    by_cases same : other = id <;> simp [same, List.filter_map, Function.comp_def, eq_comm]
  rw [callsOf, callsOf, List.filter_append, List.map_append, mine]
  split <;> simp

theorem callsOfNone {calls : List (Nat × Asking)} {id : Nat} (absent : id ∉ calls.map Prod.fst) : callsOf calls id = [] := by
  rw [callsOf, List.map_eq_nil_iff, List.filter_eq_nil_iff]
  intro c member
  simpa using fun same : c.1 = id => absent (same ▸ List.mem_map_of_mem member)

def Answered (library : Bool) (sent : List (Nat × Command)) (calls : List (Nat × Asking)) (e : Nat × Reply) : Prop :=
  ∃ command, (e.1, command) ∈ sent ∧ Suits command e.2 ∧ Relays library command (callsOf calls e.1) e.2

structure Rested (library : Bool) (sent served : List (Nat × Command)) (calls : List (Nat × Asking)) (w : Isolate) : Prop where
  blocks : w.blocks = fun _ => none
  strings : w.strings = fun _ => none
  posted : w.posted.map Prod.fst = served.map Prod.fst
  fits : ∀ e ∈ w.posted, Answered library sent calls e
  named : ∀ reply h, (0, reply) ∈ w.posted → reply.handle = some h → w.handle = h
  new : served = [] → w.asked = []

structure Lines (half : Half) (library : Bool) (s : State) : Prop where
  ids : s.sent.map Prod.fst = List.range s.channel.nextId
  line : s.sent = s.served ++ s.working ++ s.inbox
  opens : ∃ configJson rest, s.sent = (0, half.opening configJson) :: rest ∧ ∀ e ∈ rest, e.2.makes = false
  rested : Rested library s.sent s.served s.calls s.resting
  turn : ∀ t, s.turn = some t →
    Safely device (During library t.before t.id t.command) (After library t.before t.id t.command) t.rest s.isolate
  asked : Asked s.isolate
  called : ∀ t, s.turn = some t → s.isolate.asked = t.before.asked ++ callsOf s.calls t.id
  callers : ∀ c ∈ s.calls, c.1 ∈ (s.served ++ s.working).map Prod.fst
  port : s.isolate.posted = s.heard ++ s.outbox
  accounted : CommandChannel.Accounted 0 s.channel

theorem plainTurn {half : Half} {library : Bool} {s : State} {t : Turn} (lines : Lines half library s) (turn : s.turn = some t)
    (later : s.served ≠ []) : t.command.makes = false := by
  obtain ⟨configJson, rest, sent, plain⟩ := lines.opens
  have line := lines.line
  cases served : s.served with
  | nil => exact absurd served later
  | cons first more =>
    rw [sent, served, State.working, turn] at line
    have member : (t.id, t.command) ∈ rest := by
      rw [(List.cons.inj line).2]
      simp
    exact plain _ member

theorem postedNow {half : Half} {library : Bool} {s : State} (lines : Lines half library s) :
    (∀ e ∈ s.isolate.posted, Answered library s.sent s.calls e) ∧
    ∀ reply h, (0, reply) ∈ s.isolate.posted → reply.handle = some h → s.isolate.handle = h := by
  have rested := lines.rested
  cases turn : s.turn with
  | none =>
    rw [State.resting, turn] at rested
    exact ⟨rested.fits, rested.named⟩
  | some t =>
    rw [State.resting, turn] at rested
    have now := duringNow (lines.turn t turn)
    have mine : (t.id, t.command) ∈ s.sent := by
      rw [lines.line, State.working, turn]
      simp
    have kept (reply : Reply) (member : (0, reply) ∈ t.before.posted) : s.isolate.handle = t.before.handle := by
      refine now.kept (plainTurn lines turn fun none_ => ?_)
      have empty := rested.posted
      rw [none_, List.map_nil, List.map_eq_nil_iff] at empty
      rw [empty] at member
      cases member
    rcases now.replied with same | ⟨last, settled⟩
    · rw [same]
      exact ⟨rested.fits, fun reply h member named => (kept reply member).trans (rested.named reply h member named)⟩
    · rw [settled.posted]
      refine ⟨fun e member => ?_, fun reply h member named => ?_⟩
      · rcases List.mem_append.mp member with before | now
        · exact rested.fits e before
        · cases List.mem_singleton.mp now
          obtain ⟨calls, asked, relays⟩ := settled.relays
          have same := List.append_cancel_left (asked.symm.trans (lines.called t turn))
          exact ⟨t.command, mine, fitsSuits settled.fits, same ▸ relays⟩
      · rcases List.mem_append.mp member with before | now
        · exact (kept reply before).trans (rested.named reply h before named)
        · obtain ⟨-, rfl⟩ := Prod.mk.inj (List.mem_singleton.mp now)
          exact fitsHandle settled.fits h named

section Steps
variable {half : Half} {library : Bool} {s : State}

theorem idsOnce (lines : Lines half library s) : (s.sent.map Prod.fst).Nodup := by
  rw [lines.ids]
  exact List.nodup_range

theorem linesInit (half : Half) (library : Bool) (configJson : List (String × Value String)) :
    Lines half library (init half configJson) where
  ids := rfl
  line := rfl
  opens := ⟨configJson, [], rfl, by simp⟩
  rested := ⟨rfl, rfl, rfl, by simp [init, newIsolate, State.resting], by simp [init, newIsolate, State.resting], fun _ => rfl⟩
  turn := by simp [init]
  asked := ⟨by simp [init, newIsolate], by simp [init, newIsolate]⟩
  called := by simp [init]
  callers := by simp [init]
  port := rfl
  accounted := CommandChannel.accountedSend (le_refl _) (CommandChannel.accountedFresh 0)

theorem linesIssue (command : Command) (plain : command.makes = false) (old : Lines half library s) :
    Lines half library (issue s command) where
  ids := by
    simp only [issue, CommandChannel.send, List.map_append, old.ids, List.map_singleton, List.range_succ]
  line := (congrArg (· ++ [(s.channel.nextId, command)]) old.line).trans (List.append_assoc ..)
  opens := by
    obtain ⟨configJson, rest, sent, all⟩ := old.opens
    refine ⟨configJson, rest ++ [(s.channel.nextId, command)], by rw [issue, sent, List.cons_append], fun e member => ?_⟩
    rcases List.mem_append.mp member with before | last
    · exact all e before
    · cases List.mem_singleton.mp last
      exact plain
  rested := by
    have rested := old.rested
    refine ⟨rested.blocks, rested.strings, rested.posted, fun e member => ?_, rested.named, rested.new⟩
    obtain ⟨command, sent, answered⟩ := rested.fits e member
    exact ⟨command, List.mem_append_left _ sent, answered⟩
  turn := old.turn
  asked := old.asked
  called := old.called
  callers := old.callers
  port := old.port
  accounted := CommandChannel.accountedSend (Nat.zero_le _) old.accounted

theorem linesTake {id : Nat} {command : Command} {rest : List (Nat × Command)} (old : Lines half library s)
    (idle : s.turn = none) (next : s.inbox = (id, command) :: rest) :
    Lines half library {s with
      inbox := rest
      turn := some ⟨id, command, s.isolate, if library then Worker.turn id s.isolate.handle command else withoutLibrary id⟩} where
  ids := old.ids
  line := by
    have line := old.line
    rw [State.working, idle, next] at line
    rw [line]
    simp [State.working]
  opens := old.opens
  rested := by
    have rested := old.rested
    rw [State.resting, idle] at rested
    exact rested
  turn := by
    rintro t ⟨⟩
    cases library with
    | false => exact withoutSafely s.isolate id command
    | true =>
      refine turnSafely s.isolate id command fun makes => ?_
      have rested := old.rested
      rw [State.resting, idle] at rested
      refine rested.new (by_contra fun later => ?_)
      obtain ⟨configJson, more, sent, plain⟩ := old.opens
      have line := old.line
      cases served : s.served with
      | nil => exact later served
      | cons first others =>
        rw [sent, served, State.working, idle, next] at line
        have member : (id, command) ∈ more := by
          rw [(List.cons.inj line).2]
          simp
        exact absurd (plain _ member) (by simp [makes])
  asked := old.asked
  called := by
    rintro t ⟨⟩
    have once := idsOnce old
    rw [old.line, next, List.map_append] at once
    have absent : id ∉ s.calls.map Prod.fst := by
      intro member
      obtain ⟨c, there, rfl⟩ := List.mem_map.mp member
      exact (List.nodup_append.mp once).2.2 c.1 (old.callers c there) c.1 List.mem_cons_self rfl
    rw [callsOfNone absent, List.append_nil]
  callers := by
    intro c member
    have among := old.callers c member
    rw [State.working, idle, Option.map_none, Option.toList_none, List.append_nil] at among
    rw [List.map_append]
    exact List.mem_append_left _ among
  port := old.port
  accounted := old.accounted

theorem linesAnswer {t : Turn} {a : Answer} {rest : Dart Unit} {isolate : Isolate} (old : Lines half library s)
    (turn : s.turn = some t) (one : advance device (t.rest, s.isolate) a = some (rest, isolate)) :
    Lines half library {s with
      turn := some {t with rest := rest}
      isolate := isolate
      outbox := s.outbox ++ isolate.posted.drop s.isolate.posted.length
      calls := s.calls ++ (isolate.asked.drop s.isolate.asked.length).map (Prod.mk t.id)} := by
  obtain ⟨request, next, here, answered⟩ : ∃ request next, t.rest = .act request next ∧
      answers s.isolate request a = some isolate := by
    unfold advance at one
    split at one
    · rename_i request next here
      obtain ⟨u, answered, same⟩ := Option.map_eq_some_iff.mp one
      cases same
      exact ⟨request, next, here, answered⟩
    · cases one
    · cases one
  obtain ⟨more, grows⟩ := postedGrows answered
  obtain ⟨new, asks⟩ := askedGrows answered
  rw [grows, asks, List.drop_left, List.drop_left]
  have once := idsOnce old
  rw [old.line, State.working, turn, List.map_append, List.map_append] at once
  exact
  { ids := old.ids
    line := by
      have line := old.line
      rw [State.working, turn] at line
      exact line
    opens := old.opens
    rested := by
      have rested := old.rested
      rw [State.resting, turn] at rested
      refine ⟨rested.blocks, rested.strings, rested.posted, fun e member => ?_, rested.named, rested.new⟩
      have served : e.1 ∈ s.served.map Prod.fst := rested.posted ▸ List.mem_map_of_mem member
      have other : e.1 ≠ t.id := fun same =>
        (List.nodup_append.mp (List.nodup_append.mp once).1).2.2 e.1 served t.id (by simp) same
      obtain ⟨command, sent, suits, relays⟩ := rested.fits e member
      refine ⟨command, sent, suits, ?_⟩
      rw [callsOfAppend, if_neg other, List.append_nil]
      exact relays
    turn := by
      rintro t' ⟨⟩
      exact safelyAdvance (x := (t.rest, s.isolate)) (old.turn t turn) one
    asked := by
      have safe := old.turn t turn
      rw [here] at safe
      exact askedOn safe.2.1 answered old.asked
    called := by
      rintro t' ⟨⟩
      dsimp only
      rw [asks, old.called t turn, callsOfAppend, if_pos rfl, List.append_assoc]
    callers := by
      intro c member
      rcases List.mem_append.mp member with before | now
      · have among := old.callers c before
        rw [State.working, turn] at among
        exact among
      · obtain ⟨asking, -, rfl⟩ := List.mem_map.mp now
        simp [State.working]
    port := by
      dsimp only
      rw [grows, old.port, List.append_assoc]
    accounted := old.accounted }

theorem linesFinish {t : Turn} (old : Lines half library s) (turn : s.turn = some t) (done : t.rest = .done ()) :
    Lines half library {s with turn := none, served := s.served ++ [(t.id, t.command)]} where
  ids := old.ids
  line := by
    have line := old.line
    rw [State.working, turn] at line
    rw [line]
    simp [State.working]
  opens := old.opens
  rested := by
    have rested := old.rested
    have safe := old.turn t turn
    have now := postedNow old
    rw [State.resting, turn] at rested
    rw [done] at safe
    obtain ⟨blocks, reply, settled⟩ := safe
    have ids : s.isolate.posted.map Prod.fst = (s.served ++ [(t.id, t.command)]).map Prod.fst := by
      rw [settled.posted, List.map_append, List.map_append]
      exact congrArg (· ++ [t.id]) rested.posted
    exact ⟨blocks.trans rested.blocks, settled.strings.trans rested.strings, ids, now.1, now.2, by simp⟩
  turn := by simp
  asked := old.asked
  called := by simp
  callers := by
    intro c member
    have among := old.callers c member
    rw [State.working, turn] at among
    simpa [State.working] using among
  port := old.port
  accounted := old.accounted

theorem linesMain (phase : Phase) (own : SessionId) (channel : CommandChannel Reply) {outbox heard : List (Nat × Reply)}
    (old : Lines half library s) (next : channel.nextId = s.channel.nextId) (port : heard ++ outbox = s.heard ++ s.outbox)
    (accounted : CommandChannel.Accounted 0 channel) :
    Lines half library {s with phase := phase, own := own, channel := channel, outbox := outbox, heard := heard} where
  ids := by
    rw [next]
    exact old.ids
  line := old.line
  opens := old.opens
  rested := old.rested
  turn := old.turn
  asked := old.asked
  called := old.called
  callers := old.callers
  port := old.port.trans port.symm
  accounted := accounted

theorem linesWorker {alive threw : Bool} (old : Lines half library s) : Lines half library {s with alive := alive, threw := threw} where
  ids := old.ids
  line := old.line
  opens := old.opens
  rested := old.rested
  turn := old.turn
  asked := old.asked
  called := old.called
  callers := old.callers
  port := old.port
  accounted := old.accounted

theorem cancelled {c : CommandChannel Reply} (old : CommandChannel.Accounted 0 c) : CommandChannel.Accounted 0 c.cancel :=
  ⟨old.known, old.once⟩

theorem receivedNext (c : CommandChannel Reply) (id : Nat) (reply : Reply) : (c.receive id reply).nextId = c.nextId := by
  unfold CommandChannel.receive
  split <;> rfl

theorem receivedEars (c : CommandChannel Reply) (id : Nat) (reply : Reply) :
    (c.receive id reply).listening = c.listening := by
  unfold CommandChannel.receive
  split <;> rfl

theorem receivedBy {c : CommandChannel Reply} {id : Nat} {reply : Reply} :
    ∀ e ∈ (c.receive id reply).completed, e ∈ c.completed ∨ e = (id, reply) := by
  intro e member
  unfold CommandChannel.receive at member
  split at member
  · exact (List.mem_append.mp member).imp_right List.mem_singleton.mp
  · exact .inl member

theorem linesDeliver {id : Nat} {reply : Reply} {rest : List (Nat × Reply)} (old : Lines half library s)
    (first : s.outbox = (id, reply) :: rest) : Lines half library (deliver half s id reply rest) := by
  have port : (s.heard ++ [(id, reply)]) ++ rest = s.heard ++ s.outbox := by rw [first]; simp
  have accounted : CommandChannel.Accounted 0 (s.channel.receive id reply) := CommandChannel.accountedReceive old.accounted
  have open_ (phase : Phase) (own : SessionId) :=
    linesMain phase own (s.channel.receive id reply) old (receivedNext s.channel id reply) port accounted
  have shut (phase : Phase) (own : SessionId) :=
    linesMain phase own (s.channel.receive id reply).cancel old (receivedNext s.channel id reply) port (cancelled accounted)
  unfold deliver
  split
  · split
    · unfold opened
      split
      · exact open_ ..
      · exact open_ ..
      · exact shut ..
      · exact shut ..
    · split
      · exact shut ..
      · exact open_ ..
    · exact open_ ..
  · exact open_ ..

theorem linesStep {a : Label} {t : State} (old : Lines half library s) (one : step half library s a = some t) : Lines half library t := by
  cases a with
  | call method =>
    simp only [step] at one
    split at one
    · obtain ⟨command, named, rfl⟩ := Option.map_eq_some_iff.mp one
      refine linesIssue _ ?_ old
      cases half <;> cases method <;> cases named <;> rfl
    · cases one
    · cases one
    · cases one; exact old
    · cases one; exact old
  | stop =>
    simp only [step] at one
    split at one <;> cases one
    · have issued := linesIssue .stop rfl old
      exact linesMain _ _ _ issued rfl rfl issued.accounted
    · exact old
    · exact old
  | take =>
    simp only [step] at one
    split at one <;> cases one
    exact linesTake old (by assumption) (by assumption)
  | answer a =>
    simp only [step] at one
    split at one
    · obtain ⟨⟨rest, isolate⟩, did, rfl⟩ := Option.map_eq_some_iff.mp one
      exact linesAnswer old (by assumption) did
    · cases one
  | finish =>
    simp only [step] at one
    split at one
    · split at one <;> cases one
      · exact linesFinish old (by assumption) (by assumption)
      · exact linesWorker old
    · cases one
  | deliver =>
    simp only [step] at one
    split at one <;> cases one
    exact linesDeliver old (by assumption)
  | kill =>
    simp only [step] at one
    split at one <;> cases one
    exact linesWorker old
  | cancelled =>
    simp only [step] at one
    split at one <;> cases one
    exact linesMain _ _ _ old rfl rfl (CommandChannel.accountedOrphan old.accounted)

theorem linesRun {configJson : List (String × Value String)} {labels : List Label}
    (ran : run (step half library) (init half configJson) labels = some s) : Lines half library s :=
  runKeeps (P := Lines half library) (fun _ _ _ old one => linesStep old one) (linesInit half library configJson) ran

/-! What the object of the caller is. -/

structure Phases (s : State) : Prop where
  few : s.phase.object = none → s.sent.length = 1
  stopping : ∀ h i, s.phase = .stopping h i → ∃ before, s.sent = before ++ [(i, .stop)]
  ended : ∀ h, s.phase = .ended h → s.inbox = [] ∧ ∀ t, s.turn = some t → t.command = .stop
  object : ∀ h, s.phase.object = some h → ∃ reply, (0, reply) ∈ s.heard ∧ reply.handle = some h
  failed : ∀ status detail, s.phase = .failed status detail → status ≠ .ok ∧ (0, .status status detail) ∈ s.heard
  dead : s.alive = false → s.threw = false → s.phase.disposed = true

theorem heardPosted (lines : Lines half library s) {id : Nat} {reply : Reply} {rest : List (Nat × Reply)}
    (first : s.outbox = (id, reply) :: rest) : (id, reply) ∈ s.isolate.posted := by
  rw [lines.port, first]
  simp

theorem postedIds (lines : Lines half library s) : ∀ e ∈ s.isolate.posted, e.1 ∈ (s.served ++ s.working).map Prod.fst := by
  intro e member
  have rested := lines.rested
  have among (posted : List (Nat × Reply)) (ids : posted.map Prod.fst = s.served.map Prod.fst) (there : e ∈ posted) :
      e.1 ∈ (s.served ++ s.working).map Prod.fst := by
    rw [List.map_append, ← ids]
    exact List.mem_append_left _ (List.mem_map.mpr ⟨e, there, rfl⟩)
  cases turn : s.turn with
  | none =>
    rw [State.resting, turn] at rested
    exact among _ rested.posted member
  | some t =>
    rw [State.resting, turn] at rested
    rcases (duringNow (lines.turn t turn)).replied with same | ⟨last, settled⟩
    · rw [same] at member
      exact among _ rested.posted member
    · rw [settled.posted] at member
      rcases List.mem_append.mp member with before | now
      · exact among _ rested.posted before
      · cases List.mem_singleton.mp now
        simp [State.working, turn]

theorem lastReplied (lines : Lines half library s) {before : List (Nat × Command)} {e : Nat × Command} {reply : Reply}
    (last : s.sent = before ++ [e]) (posted : (e.1, reply) ∈ s.isolate.posted) :
    s.inbox = [] ∧ ∀ t, s.turn = some t → (t.id, t.command) = e := by
  have once := idsOnce lines
  have line := lines.line
  have there := postedIds lines _ posted
  have none_ : s.inbox = [] := by
    rcases List.eq_nil_or_concat s.inbox with none_ | ⟨front, f, more⟩
    · exact none_
    · rw [more, List.concat_eq_append, last, ← List.append_assoc] at line
      have same := (List.append_inj' line rfl).2
      have whole := lines.line
      rw [more, List.concat_eq_append, ← (List.cons.inj same).1] at whole
      rw [whole, List.map_append] at once
      refine absurd rfl ((List.nodup_append.mp once).2.2 e.1 there e.1 ?_)
      simp
  refine ⟨none_, fun t turn => ?_⟩
  rw [none_, List.append_nil, State.working, turn, last] at line
  exact (List.cons.inj (List.append_inj' line rfl).2).1.symm

theorem openingReply (lines : Lines half library s) (one : s.sent.length = 1) {id : Nat} {reply : Reply}
    (pending : id ∈ s.channel.pending) (posted : (id, reply) ∈ s.isolate.posted) :
    id = 0 ∧ ∃ configJson, Suits (half.opening configJson) reply := by
  have next : s.channel.nextId = 1 := by
    have lengths := congrArg List.length lines.ids
    rw [List.length_map, List.length_range] at lengths
    rw [← lengths, one]
  have small := ((lines.accounted.known id).mp (.inl pending)).2
  obtain ⟨configJson, rest, sent, -⟩ := lines.opens
  obtain ⟨command, member, suits, -⟩ := (postedNow lines).1 _ posted
  have alone : rest = [] := by
    rw [sent, List.length_cons] at one
    exact List.eq_nil_of_length_eq_zero (by omega)
  rw [sent, alone, List.mem_singleton] at member
  exact ⟨by omega, configJson, (Prod.mk.inj member).2 ▸ suits⟩

theorem phasesDeliver {id : Nat} {reply : Reply} {rest : List (Nat × Reply)} (lines : Lines half library s) (old : Phases s)
    (first : s.outbox = (id, reply) :: rest) : Phases (deliver half s id reply rest) := by
  have heard {e : Nat × Reply} (member : e ∈ s.heard) : e ∈ s.heard ++ [(id, reply)] := List.mem_append_left _ member
  have same (channel : CommandChannel Reply) :
      Phases {s with outbox := rest, channel := channel, heard := s.heard ++ [(id, reply)]} := by
    refine ⟨old.few, old.stopping, old.ended, fun h named => ?_, fun status detail at_ => ?_, old.dead⟩
    · obtain ⟨reply, member, handle⟩ := old.object h named
      exact ⟨reply, heard member, handle⟩
    · exact (old.failed status detail at_).imp_right heard
  unfold deliver
  split
  · rename_i here
    split
    · rename_i opening
      have one : s.sent.length = 1 := old.few (by rw [opening]; rfl)
      obtain ⟨rfl, configJson, suits⟩ := openingReply lines one here.2 (heardPosted lines first)
      have dead (alive : s.alive = false) (threw : s.threw = false) : False := by
        have := old.dead alive threw
        rw [opening] at this
        cases this
      have made {handle : Handle} (own : SessionId) (channel : CommandChannel Reply) (named : reply.handle = some handle) :
          Phases {s with phase := .running handle, own := own, outbox := rest, channel := channel,
                         heard := s.heard ++ [(0, reply)]} := by
        refine ⟨nofun, nofun, nofun, fun h same => ⟨reply, by simp, ?_⟩, nofun, fun alive threw => (dead alive threw).elim⟩
        exact named.trans same
      have refused {status : RkQuicStatus} {detail : Option String} (channel : CommandChannel Reply)
          (named : reply = .status status detail) (bad : status ≠ .ok) :
          Phases {s with phase := .failed status detail, outbox := rest, channel := channel, heard := s.heard ++ [(0, reply)]} := by
        refine ⟨fun _ => one, nofun, nofun, nofun, fun status' detail' same => ?_, fun _ _ => rfl⟩
        cases same
        exact ⟨bad, by simp [named]⟩
      cases half <;> cases reply <;> try exact suits.elim
      · exact made _ _ rfl
      · exact refused _ rfl suits
      · exact made _ _ rfl
      · exact refused _ rfl suits
    · rename_i h i stopping
      split
      · rename_i mine
        subst mine
        obtain ⟨before, last⟩ := old.stopping h id stopping
        obtain ⟨empty, turn⟩ := lastReplied lines last (heardPosted lines first)
        refine ⟨nofun, nofun, fun _ _ => ⟨empty, fun t running => (Prod.mk.inj (turn t running)).2⟩, fun h' named => ?_, nofun,
          fun _ _ => rfl⟩
        cases named
        obtain ⟨reply, member, handle⟩ := old.object h (by rw [stopping]; rfl)
        exact ⟨reply, heard member, handle⟩
      · exact same _
    · exact same _
  · exact same _

theorem phasesStep {a : Label} {t : State} (lines : Lines half library s) (old : Phases s) (one : step half library s a = some t) :
    Phases t := by
  have running {h : Handle} (at_ : s.phase = .running h) : s.alive = false → s.threw = false → False := by
    intro alive threw
    have := old.dead alive threw
    rw [at_] at this
    cases this
  cases a with
  | call method =>
    simp only [step] at one
    split at one
    · rename_i h at_
      obtain ⟨command, named, rfl⟩ := Option.map_eq_some_iff.mp one
      refine ⟨fun none_ => ?_, fun h' i same => ?_, fun h' same => ?_, old.object, old.failed, old.dead⟩
      · cases (at_ ▸ none_ : (Phase.running h).object = none)
      · cases (at_.symm.trans same : Phase.running h = _)
      · cases (at_.symm.trans same : Phase.running h = _)
    · cases one
    · cases one
    · cases one; exact old
    · cases one; exact old
  | stop =>
    simp only [step] at one
    split at one <;> cases one
    · rename_i h at_
      refine ⟨nofun, fun h' i same => ?_, nofun, fun h' same => ?_, nofun, fun alive threw => (running at_ alive threw).elim⟩
      · cases same
        exact ⟨s.sent, rfl⟩
      · cases same
        exact old.object h (by rw [at_]; rfl)
    · exact old
    · exact old
  | take =>
    simp only [step] at one
    split at one <;> cases one
    rename_i next
    refine ⟨old.few, old.stopping, fun h at_ => ?_, old.object, old.failed, old.dead⟩
    rw [(old.ended h at_).1] at next
    cases next
  | answer a =>
    simp only [step] at one
    split at one
    · rename_i u alive turn
      obtain ⟨⟨rest, isolate⟩, did, rfl⟩ := Option.map_eq_some_iff.mp one
      refine ⟨old.few, old.stopping, fun h at_ => ⟨(old.ended h at_).1, ?_⟩, old.object, old.failed, old.dead⟩
      rintro _ ⟨⟩
      exact (old.ended h at_).2 u turn
    · cases one
  | finish =>
    simp only [step] at one
    split at one
    · split at one <;> cases one
      · exact ⟨old.few, old.stopping, fun h at_ => ⟨(old.ended h at_).1, nofun⟩, old.object, old.failed, old.dead⟩
      · -- a turn that has thrown ends the isolate without a kill
        exact ⟨old.few, old.stopping, old.ended, old.object, old.failed, fun _ threw => by cases threw⟩
    · cases one
  | deliver =>
    simp only [step] at one
    split at one <;> cases one
    exact phasesDeliver lines old (by assumption)
  | kill =>
    simp only [step] at one
    split at one <;> cases one
    exact ⟨old.few, old.stopping, old.ended, old.object, old.failed, fun _ _ => by assumption⟩
  | cancelled =>
    simp only [step] at one
    split at one <;> cases one
    exact ⟨old.few, old.stopping, old.ended, old.object, old.failed, old.dead⟩

theorem phasesRun {configJson : List (String × Value String)} {labels : List Label}
    (ran : run (step half library) (init half configJson) labels = some s) : Lines half library s ∧ Phases s := by
  refine runKeeps (P := fun s => Lines half library s ∧ Phases s)
    (fun _ _ _ old one => ⟨linesStep old.1 one, phasesStep old.1 old.2 one⟩) ⟨linesInit half library configJson, ?_⟩ ran
  exact ⟨fun _ => rfl, nofun, nofun, nofun, nofun, nofun⟩

/-! What a call of the caller is completed with. -/

structure Ears (s : State) : Prop where
  quiet : s.channel.listening = false → s.phase.disposed = true
  completed : ∀ e ∈ s.channel.completed, e ∈ s.heard ∨ (e.2 = stoppedReply ∧ s.phase.disposed = true)

theorem earsDeliver {id : Nat} {reply : Reply} {rest : List (Nat × Reply)} (old : Ears s) :
    Ears (deliver half s id reply rest) := by
  have completed (disposed : Bool) (on : s.phase.disposed = true → disposed = true) :
      ∀ e ∈ (s.channel.receive id reply).completed,
        e ∈ s.heard ++ [(id, reply)] ∨ (e.2 = stoppedReply ∧ disposed = true) := by
    intro e member
    rcases receivedBy e member with before | rfl
    · exact (old.completed e before).imp (List.mem_append_left _) fun orphan => ⟨orphan.1, on orphan.2⟩
    · exact .inl (by simp)
  have same : Ears {s with outbox := rest, channel := s.channel.receive id reply, heard := s.heard ++ [(id, reply)]} :=
    ⟨fun deaf => old.quiet ((receivedEars s.channel id reply).symm.trans deaf), completed _ fun h => h⟩
  unfold deliver
  split
  · rename_i here
    have hears : (s.channel.receive id reply).listening ≠ false := by
      rw [receivedEars, here.1]
      simp
    split
    · rename_i opening
      have on (disposed : Bool) : s.phase.disposed = true → disposed = true := by
        rw [opening]
        exact nofun
      unfold opened
      split
      · exact ⟨fun deaf => absurd deaf hears, completed _ (on _)⟩
      · exact ⟨fun deaf => absurd deaf hears, completed _ (on _)⟩
      · exact ⟨fun _ => rfl, completed true (on _)⟩
      · exact ⟨fun _ => rfl, completed true (on _)⟩
    · split
      · exact ⟨fun _ => rfl, completed true fun _ => rfl⟩
      · exact same
    · exact same
  · exact same

theorem earsStep {a : Label} {t : State} (old : Ears s) (one : step half library s a = some t) : Ears t := by
  cases a with
  | call method =>
    simp only [step] at one
    split at one
    · obtain ⟨command, named, rfl⟩ := Option.map_eq_some_iff.mp one
      exact ⟨old.quiet, old.completed⟩
    · cases one
    · cases one
    · cases one; exact old
    · cases one; exact old
  | stop =>
    simp only [step] at one
    split at one <;> cases one
    · rename_i h at_
      have on : s.phase.disposed ≠ true := by simp [at_, Phase.disposed]
      refine ⟨fun deaf => absurd (old.quiet deaf) on, fun e member => ?_⟩
      exact (old.completed e member).imp_right fun orphan => absurd orphan.2 on
    · exact old
    · exact old
  | take | finish | kill =>
    simp only [step] at one
    repeat' split at one
    all_goals cases one
    all_goals exact ⟨old.quiet, old.completed⟩
  | answer a =>
    simp only [step] at one
    split at one
    · obtain ⟨⟨rest, isolate⟩, did, rfl⟩ := Option.map_eq_some_iff.mp one
      exact ⟨old.quiet, old.completed⟩
    · cases one
  | deliver =>
    simp only [step] at one
    split at one <;> cases one
    exact earsDeliver old
  | cancelled =>
    simp only [step] at one
    split at one <;> cases one
    rename_i deaf
    have disposed := old.quiet (Bool.not_eq_true _ ▸ deaf)
    refine ⟨fun _ => disposed, fun e member => ?_⟩
    rcases List.mem_append.mp member with before | now
    · exact old.completed e before
    · obtain ⟨id, -, rfl⟩ := List.mem_map.mp now
      exact .inr ⟨rfl, disposed⟩

/- `reply is StatusReply ? reply.status : RkQuicStatus.unrecognised`. -/
def statusOf : Reply → RkQuicStatus
  | .status status _ => status
  | _ => .unrecognised

def openStreamResult : Reply → RkQuicStatus × Option StreamId
  | .streamOpened streamId => (.ok, some streamId)
  | .status status _ => (status, none)
  | _ => (.unrecognised, none)

def Answers : Command → Reply → Prop
  | .openStream _, reply => (∃ streamId, reply = .streamOpened streamId ∧ openStreamResult reply = (.ok, some streamId)) ∨
      ∃ status detail, reply = .status status detail ∧ status ≠ .ok ∧ openStreamResult reply = (status, none)
  | .start _, _ | .connect _, _ => True
  | _, reply => ∃ status detail, reply = .status status detail ∧ statusOf reply = status

theorem suitsAnswers {command : Command} {reply : Reply} (suits : Suits command reply) : Answers command reply := by
  cases command <;> cases reply <;> simp_all [Suits, Answers, openStreamResult, statusOf]

theorem stoppedAnswers (command : Command) : Answers command stoppedReply := by
  cases command <;> simp [Answers, stoppedReply, openStreamResult, statusOf]

def Opened (sessionId : SessionId) (streamId : StreamId) (calls : List Asking) : Prop :=
  ∃ handle out written, calls = [⟨.clientOpenStream handle sessionId out, .ok, written⟩] ∧ written out = streamId

theorem relaysOpened {sessionId : SessionId} {calls : List Asking} {reply : Reply}
    (relays : Relays library (.openStream sessionId) calls reply) (streamId : StreamId) :
    openStreamResult reply = (.ok, some streamId) ↔ Opened sessionId streamId calls := by
  cases relays with
  | unopened => simp [openStreamResult, Opened]
  | @refused _ asking carries failed detail =>
    refine iff_of_false (by simp [openStreamResult]) ?_
    rintro ⟨handle, out, written, same, -⟩
    exact failed (congrArg Asking.status (List.singleton_inj.mp same))
  | @done _ asking carries plain =>
    obtain ⟨call, status, written⟩ := asking
    cases call <;> first | exact carries.elim | cases plain
  | streamOpened handle _ out written =>
    simp only [openStreamResult, Prod.mk.injEq, Option.some.injEq, true_and]
    refine ⟨fun same => ⟨handle, out, written, rfl, same⟩, ?_⟩
    rintro ⟨handle', out', written', same, rfl⟩
    cases same
    rfl

theorem relaysStream {command : Command} {calls : List Asking} {reply : Reply} (relays : Relays library command calls reply)
    {streamId : StreamId} (named : reply = .streamOpened streamId) : ∃ sessionId, command = .openStream sessionId := by
  cases relays <;> first | exact ⟨_, rfl⟩ | cases named

/-- Every call is completed at most once: with the reply to its own command, which relays what the library has answered
to the calls that were made for it, or, when the channel has been disposed, with the word that the endpoint was stopped. -/
theorem callsAnswered {configJson : List (String × Value String)} {labels : List Label}
    (ran : run (step half library) (init half configJson) labels = some s) :
    (∀ id, (id ∈ s.channel.pending ∨ id ∈ s.channel.completed.map Prod.fst) ↔ ∃ command, (id, command) ∈ s.sent) ∧
    (s.channel.pending ++ s.channel.completed.map Prod.fst).Nodup ∧
    ∀ e ∈ s.channel.completed, ∃ command, (e.1, command) ∈ s.sent ∧ Answers command e.2 ∧
      ((e ∈ s.isolate.posted ∧ Relays library command (callsOf s.calls e.1) e.2 ∧
          ∀ sessionId, command = .openStream sessionId → ∀ streamId,
            openStreamResult e.2 = (.ok, some streamId) ↔ Opened sessionId streamId (callsOf s.calls e.1)) ∨
        (e.2 = stoppedReply ∧ s.phase.disposed = true)) := by
  have lines := linesRun ran
  have ears : Ears s := by
    refine runKeeps (P := Ears) (fun _ _ _ old one => earsStep old one) ⟨?_, ?_⟩ ran <;>
      simp [init, CommandChannel.fresh, CommandChannel.send]
  have sentIds (id : Nat) : (∃ command, (id, command) ∈ s.sent) ↔ id < s.channel.nextId := by
    rw [← List.mem_range, ← lines.ids]
    simp
  refine ⟨fun id => ?_, lines.accounted.once, fun e member => ?_⟩
  · rw [lines.accounted.known id, sentIds]
    simp
  · rcases ears.completed e member with heard | ⟨orphan, disposed⟩
    · have posted : e ∈ s.isolate.posted := lines.port ▸ List.mem_append_left _ heard
      obtain ⟨command, sent, suits, relays⟩ := (postedNow lines).1 e posted
      refine ⟨command, sent, suitsAnswers suits, .inl ⟨posted, relays, ?_⟩⟩
      rintro sessionId rfl
      exact relaysOpened relays
    · have known := (lines.accounted.known e.1).mp (.inr (List.mem_map.mpr ⟨e, member, rfl⟩))
      obtain ⟨command, sent⟩ := (sentIds e.1).mpr known.2
      exact ⟨command, sent, orphan ▸ stoppedAnswers command, .inr ⟨orphan, disposed⟩⟩

structure Tidy (s : State) : Prop where
  lawful : ∀ t request next, s.turn = some t → t.rest = .act request next → able s.isolate request
  between : s.turn = none → s.isolate.blocks = (fun _ => none) ∧ s.isolate.strings = fun _ => none
  stopped : ∀ h, s.phase = .ended h → s.isolate.blocks = (fun _ => none) ∧ s.isolate.strings = fun _ => none
  caught : s.alive = false → s.threw = false → s.isolate.strings = (fun _ => none) ∧
    (s.isolate.blocks ≠ (fun _ => none) → ∃ status detail, s.phase = .failed status detail)
  thrown : ∀ t, s.turn = some t → t.rest = .thrown →
    s.isolate.strings = (fun _ => none) ∧ (t.command.makes = false → s.isolate.blocks = fun _ => none)

theorem failedStrings (lines : Lines half library s) (phases : Phases s) {status : RkQuicStatus} {detail : Option String}
    (at_ : s.phase = .failed status detail) : s.isolate.strings = fun _ => none := by
  have rested := lines.rested
  cases turn : s.turn with
  | none =>
    rw [State.resting, turn] at rested
    exact rested.strings
  | some t =>
    rw [State.resting, turn] at rested
    have only := phases.few (by rw [at_]; rfl)
    rw [lines.line, State.working, turn] at only
    have first : s.served = [] := by
      simp only [Option.map_some, Option.toList_some, List.length_append, List.length_singleton] at only
      exact List.eq_nil_of_length_eq_zero (by omega)
    have silent : t.before.posted = [] := by
      have posted := rested.posted
      rwa [first, List.map_nil, List.map_eq_nil_iff] at posted
    have told : (0, .status status detail) ∈ s.isolate.posted :=
      lines.port ▸ List.mem_append_left _ (phases.failed status detail at_).2
    rcases (duringNow (lines.turn t turn)).replied with same | ⟨reply, settled⟩
    · rw [same, silent] at told
      cases told
    · exact settled.strings.trans rested.strings

theorem lifeLeavesNothing {configJson : List (String × Value String)} {labels : List Label}
    (ran : run (step half library) (init half configJson) labels = some s) : Tidy s := by
  obtain ⟨lines, phases⟩ := phasesRun ran
  have rested := lines.rested
  have idle (none_ : s.turn = none) : s.isolate.blocks = (fun _ => none) ∧ s.isolate.strings = fun _ => none := by
    rw [State.resting, none_] at rested
    exact ⟨rested.blocks, rested.strings⟩
  have stopped (h : Handle) (at_ : s.phase = .ended h) :
      s.isolate.blocks = (fun _ => none) ∧ s.isolate.strings = fun _ => none := by
    cases turn : s.turn with
    | none => exact idle turn
    | some t =>
      obtain ⟨blocks, strings⟩ := (duringNow (lines.turn t turn)).still ((phases.ended h at_).2 t turn)
      rw [State.resting, turn] at rested
      exact ⟨blocks.trans rested.blocks, strings.trans rested.strings⟩
  refine ⟨fun t request next turn rest => ?_, idle, stopped, fun dead threw => ?_, fun t turn thrown => ?_⟩
  · have safe := lines.turn t turn
    rw [rest] at safe
    exact safe.2.1
  · have disposed := phases.dead dead threw
    cases at_ : s.phase with
    | failed status detail => exact ⟨failedStrings lines phases at_, fun _ => ⟨status, detail, rfl⟩⟩
    | ended h => exact ⟨(stopped h at_).2, fun left => absurd (stopped h at_).1 left⟩
    | opening | running | stopping =>
      rw [at_] at disposed
      cases disposed
  · have safe := lines.turn t turn
    rw [thrown] at safe
    obtain ⟨strings, -, plain⟩ := safe
    rw [State.resting, turn] at rested
    exact ⟨strings.trans rested.strings, fun makes => (plain makes).1.trans rested.blocks⟩

theorem ownEndpointOnly {configJson : List (String × Value String)} {labels : List Label}
    (ran : run (step half library) (init half configJson) labels = some s) :
    (∀ h, s.phase.object = some h →
      (∀ asking ∈ s.isolate.asked, ∀ x ∈ asking.call.handle, x = h) ∧
        ∀ asking ∈ s.isolate.asked.tail, asking.call.handle = some h) ∧
    (∀ status detail, s.phase = .failed status detail → status ≠ .ok ∧ (0, .status status detail) ∈ s.isolate.posted) := by
  obtain ⟨lines, phases⟩ := phasesRun ran
  refine ⟨fun h object => ?_, fun status detail failed => ?_⟩
  · obtain ⟨reply, heard, named⟩ := phases.object h object
    have own := (postedNow lines).2 reply h (lines.port ▸ List.mem_append_left _ heard) named
    have asked (asking : Asking) (member : asking ∈ s.isolate.asked) (x : Handle) (names : asking.call.handle = some x) :
        x = h := (lines.asked.own asking member x names).trans own
    refine ⟨asked, fun asking later => ?_⟩
    obtain ⟨x, names⟩ := Option.ne_none_iff_exists'.mp (lines.asked.once asking later)
    rw [names, asked asking (List.mem_of_mem_tail later) x names]
  · obtain ⟨bad, heard⟩ := phases.failed status detail failed
    exact ⟨bad, lines.port ▸ List.mem_append_left _ heard⟩

end Steps

/-! A server is started, a stream of it is closed, and it is stopped. -/

def starting : List Label :=
  [.take, .answer (.address 0), .answer (.address 1), .answer (.status .ok fun _ => 7), .answer (.number 7), .answer .done,
    .answer (.address 2), .answer (.status .ok fun _ => 4433), .answer (.number 4433), .answer .done, .answer .done,
    .answer .done, .answer .done, .finish, .deliver]

def stopping : List Label :=
  starting ++ [.call (.closeStream 9 4), .stop, .take, .answer (.status .unknownHandle fun _ => 0),
    .answer (.pointer (some 5) "no such stream"), .answer (.text (some "no such stream")), .answer .done, .answer .done,
    .finish, .take, .answer (.status .ok fun _ => 0), .answer .done, .deliver, .deliver, .kill, .cancelled]

theorem stoppedTidy : ∃ s, run (step .server true) (init .server []) stopping = some s ∧ s.phase = .ended 7 ∧
    s.alive = false ∧ s.isolate.blocks = fun _ => none := by
  obtain ⟨s, ran⟩ : ∃ s, run (step .server true) (init .server []) stopping = some s :=
    Option.isSome_iff_exists.mp (by decide +kernel)
  have phase : (run (step .server true) (init .server []) stopping).map (fun s => (s.phase, s.alive)) = some (.ended 7, false) := by
    decide +kernel
  rw [ran] at phase
  obtain ⟨at_, dead⟩ := Prod.mk.inj (Option.some.inj phase)
  exact ⟨s, ran, at_, dead, ((lifeLeavesNothing ran).stopped 7 at_).1⟩

theorem stoppedOwn : ∃ s, run (step .server true) (init .server []) stopping = some s ∧
    ∀ asking ∈ s.isolate.asked.tail, asking.call.handle = some 7 := by
  obtain ⟨s, ran⟩ : ∃ s, run (step .server true) (init .server []) stopping = some s :=
    Option.isSome_iff_exists.mp (by decide +kernel)
  have phase : (run (step .server true) (init .server []) stopping).map (fun s => s.phase.object) = some (some 7) := by
    decide +kernel
  rw [ran] at phase
  exact ⟨s, ran, ((ownEndpointOnly ran).1 7 (Option.some.inj phase)).2⟩

def opening : List Label :=
  [.take, .answer (.address 0), .answer (.address 1), .answer (.address 2),
    .answer (.status .ok fun p => if p = 1 then 7 else 9), .answer (.number 7), .answer .done, .answer (.number 9),
    .answer .done, .answer .done, .answer .done, .answer .done, .finish, .deliver, .call .openStream, .take,
    .answer (.address 0), .answer (.status .ok fun _ => 4), .answer (.number 4), .answer .done, .deliver]

theorem openedAnswered : ∃ s, run (step .client true) (init .client []) opening = some s ∧
    (1, .streamOpened 4) ∈ s.channel.completed ∧ ∃ sessionId, Opened sessionId 4 (callsOf s.calls 1) := by
  obtain ⟨s, ran⟩ : ∃ s, run (step .client true) (init .client []) opening = some s :=
    Option.isSome_iff_exists.mp (by decide +kernel)
  have completed : (run (step .client true) (init .client []) opening).map (fun s => s.channel.completed) =
      some [(0, .connected 7 9), (1, .streamOpened 4)] := by
    decide +kernel
  rw [ran] at completed
  have completed := Option.some.inj completed
  dsimp only at completed
  have member : (1, .streamOpened 4) ∈ s.channel.completed := by simp [completed]
  obtain ⟨command, -, -, ⟨-, relays, opened⟩ | ⟨stopped, -⟩⟩ := (callsAnswered ran).2.2 _ member
  · obtain ⟨sessionId, rfl⟩ := relaysStream relays rfl
    exact ⟨s, ran, member, sessionId, (opened sessionId rfl 4).mp rfl⟩
  · cases stopped

/-! The port is taken, and the worker is killed after its reply and before its `finally`. -/

def refusing : List Label :=
  [.take, .answer (.address 0), .answer (.address 1), .answer (.status .portInUse fun _ => 0), .answer (.pointer none ""),
    .answer .done, .deliver, .kill]

example : (run (step .server true) (init .server []) refusing).map
    (fun s => (s.phase, s.isolate.blocks 0, s.isolate.blocks 1)) =
    some (.failed .portInUse none, some (.text [0x7b, 0x7d, 0]), some (.cell 0)) := by
  decide +kernel

end RkQuic.Lives
