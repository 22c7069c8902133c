import RkQuic.CommandChannel
import RkQuic.Event
import RkQuic.Status

/-! A running `QuicServer`: the main isolate with its channel, the worker that takes the
commands one by one, and the two ports between them. The main isolate handles one message
at a time, and what a message resumes runs before the next. A native call may wait for
the peer of its session. -/
namespace RkQuic.Commands
open Runs

inductive Command where
  | send (sessionId : SessionId) (message : String) (reliable : Bool)
  | streamSend (sessionId : SessionId) (streamId : StreamId) (message : String)
  | streamClose (sessionId : SessionId) (streamId : StreamId)
  | stop
  deriving DecidableEq, Repr

structure Envelope where
  id : Nat
  command : Command
  deriving DecidableEq, Repr

structure StatusReply where
  status : RkQuicStatus
  detail : Option String
  deriving DecidableEq, Repr

-- anything else than a StatusReply is none
abbrev Payload := Option StatusReply

def stoppedReply : Payload := some ⟨.notRunning, some "the endpoint was stopped"⟩

/- `reply is StatusReply ? reply.status : RkQuicStatus.unrecognised`. -/
def statusOf (reply : Payload) : RkQuicStatus :=
  match reply with
  | some r => r.status
  | none => .unrecognised

structure Issue where
  command : Command
  id : Option Nat
  deriving DecidableEq, Repr

inductive Microtask where
  | resume (id : Nat) (payload : Payload)
  | leave (id : Nat) (payload : Payload)
  deriving DecidableEq, Repr

/-- `stopped` is `_stopped`, with the id of the command that `stop` sent; `leaving` is a `stop`
that waits for the cancelling of its subscription; `busy` is the command in its native call, and
whether that waits for the peer. `issued`, `native`, `returned` and `done` are history. -/
structure State where
  channel : CommandChannel Payload
  stopped : Option Nat
  leaving : Option (Nat × Payload)
  microtasks : List Microtask
  inbox : List Envelope
  busy : Option (Envelope × Bool)
  outbox : List (Nat × Payload)
  issued : List Issue
  native : List Envelope
  returned : List (Envelope × StatusReply)
  done : List (Nat × RkQuicStatus)
  deriving DecidableEq, Repr

def init : State := ⟨.fresh 1, none, none, [], [], none, [], [], [], [], []⟩

inductive Label where
  | issue (command : Command)
  | take (waits : Bool)
  | peer (session : SessionId)
  | answer (status : RkQuicStatus) (lastError : Option String)
  | deliver
  | microtask
  | cancelled
  deriving DecidableEq, Repr

def Command.session : Command → Option SessionId
  | .send sessionId _ _ | .streamSend sessionId _ _ | .streamClose sessionId _ => some sessionId
  | .stop => none

/-- The native call has an await in it: `block_on` of a stream's opening, write or finish. -/
def Command.awaits : Command → Bool
  | .send _ _ reliable => reliable
  | .streamSend _ _ _ | .streamClose _ _ => true
  | .stop => false

def Command.detail (lastError : Option String) (status : RkQuicStatus) : Command → Option String
  | .stop => none
  | _ => if status = .ok then none else lastError

def issue (s : State) (command : Command) : State :=
  match s.stopped with
  | some _ => {s with issued := s.issued ++ [⟨command, none⟩]}
  | none =>
    {s with
      channel := s.channel.send
      stopped := if command = .stop then some s.channel.nextId else none
      inbox := s.inbox ++ [⟨s.channel.nextId, command⟩]
      issued := s.issued ++ [⟨command, some s.channel.nextId⟩]}

/- The listener of the replies completes a completer, and the call that awaits it is resumed. -/
def deliver (s : State) (id : Nat) (payload : Payload) (rest : List (Nat × Payload)) : State :=
  {s with
    outbox := rest
    channel := s.channel.receive id payload
    microtasks := if s.channel.listening = true ∧ id ∈ s.channel.pending then [.resume id payload] else []}

def resume (s : State) (id : Nat) (payload : Payload) (rest : List Microtask) : State :=
  if s.stopped = some id then
    {s with microtasks := rest, leaving := some (id, payload), channel := s.channel.cancel}
  else {s with microtasks := rest, done := s.done ++ [(id, statusOf payload)]}

def step (s : State) : Label → Option State
  | .issue command => some (issue s command)
  | .take waits =>
    match s.busy, s.inbox with
    | none, e :: rest =>
      some {s with busy := some (e, waits && e.command.awaits), inbox := rest, native := s.native ++ [e]}
    | _, _ => none
  | .peer session =>
    match s.busy with
    | some (e, true) => if e.command.session = some session then some {s with busy := some (e, false)} else some s
    | _ => some s
  | .answer status lastError =>
    match s.busy with
    | some (e, false) =>
      let reply := ⟨status, e.command.detail lastError status⟩
      some {s with busy := none, outbox := s.outbox ++ [(e.id, some reply)], returned := s.returned ++ [(e, reply)]}
    | _ => none
  | .deliver =>
    match s.microtasks, s.outbox with
    | [], (id, payload) :: rest => some (deliver s id payload rest)
    | _, _ => none
  | .microtask =>
    match s.microtasks with
    | .resume id payload :: rest => some (resume s id payload rest)
    | .leave id payload :: rest => some {s with microtasks := rest, done := s.done ++ [(id, statusOf payload)]}
    | [] => none
  | .cancelled =>
    -- the worker was killed and the subscription is cancelled; what is still pending is completed
    match s.leaving with
    | some (id, payload) =>
      some {s with
        leaving := none
        channel := s.channel.orphan stoppedReply
        microtasks := s.microtasks ++ s.channel.pending.map (.resume · stoppedReply) ++ [.leave id payload]}
    | none => none

/-! Where every command is: what has been sent is, in one order, returned, in its native call
or in the inbox; what has returned is completed or in the outbox; what is completed is done
or about to be. -/

def Microtask.told : Microtask → Nat × RkQuicStatus
  | .resume id payload | .leave id payload => (id, statusOf payload)

def State.working (s : State) : List Envelope := (s.busy.map Prod.fst).toList

structure Pipeline (sent : List Envelope) (refused : List Command) (s : State) : Prop where
  issued : s.issued = sent.map (fun e => ⟨e.command, some e.id⟩) ++ refused.map (⟨·, none⟩)
  ids : sent.map Envelope.id = List.range' 1 sent.length
  next : s.channel.nextId = 1 + sent.length
  running : s.stopped = none → refused = []
  last : ∀ i, s.stopped = some i → i = sent.length ∧ ∃ rest, sent = rest ++ [⟨i, .stop⟩]
  once : ∀ e ∈ sent, e.command = .stop → s.stopped = some e.id
  worked : s.returned.map Prod.fst ++ s.working ++ s.inbox = sent
  native : s.native = s.returned.map Prod.fst ++ s.working
  heard : s.channel.completed ++ s.outbox = s.returned.map fun done => (done.1.id, some done.2)
  pending : s.channel.pending = s.outbox.map Prod.fst ++ (s.working ++ s.inbox).map Envelope.id
  told : s.done ++ s.microtasks.map Microtask.told ++ s.leaving.toList.map (fun l => (l.1, statusOf l.2)) =
    s.channel.completed.map fun done => (done.1, statusOf done.2)
  leaving : s.leaving ≠ none → s.channel.listening = false
  closed : s.channel.listening = false → s.stopped ≠ none ∧ s.channel.completed.length = sent.length

theorem prefixRange {l : List Nat} {n : Nat} (begins : l <+: List.range' 1 n) : l = List.range' 1 l.length := by
  obtain ⟨rest, split⟩ := begins
  have whole : n = l.length + rest.length := by
    have := congrArg List.length split
    simpa using this.symm
  rw [whole, ← List.range'_append_1] at split
  exact (List.append_inj split (by simp)).1

section Pipeline
variable {sent : List Envelope} {refused : List Command} {s : State}

theorem completedIds (pipeline : Pipeline sent refused s) :
    s.channel.completed.map Prod.fst = List.range' 1 s.channel.completed.length := by
  have begins : s.channel.completed.map Prod.fst <+: List.range' 1 sent.length := by
    refine ⟨(s.outbox.map Prod.fst) ++ (s.working ++ s.inbox).map Envelope.id, ?_⟩
    rw [← pipeline.ids, ← pipeline.worked, ← List.append_assoc, ← List.map_append, pipeline.heard]
    simp
  have whole := prefixRange begins
  rwa [List.length_map] at whole

theorem completedWithin (pipeline : Pipeline sent refused s) :
    s.channel.completed.length + s.outbox.length + (s.working ++ s.inbox).length = sent.length := by
  have returned := congrArg List.length pipeline.heard
  have worked := congrArg List.length pipeline.worked
  simp only [List.length_append, List.length_map] at returned worked ⊢
  omega

theorem closedEmpty (pipeline : Pipeline sent refused s) (closed : s.channel.listening = false) :
    s.outbox = [] ∧ s.working = [] ∧ s.inbox = [] ∧ s.channel.pending = [] := by
  have within := completedWithin pipeline
  rw [(pipeline.closed closed).2] at within
  have outbox : s.outbox = [] := List.eq_nil_of_length_eq_zero (by omega)
  have working : s.working ++ s.inbox = [] := List.eq_nil_of_length_eq_zero (by omega)
  refine ⟨outbox, (List.append_eq_nil_iff.mp working).1, (List.append_eq_nil_iff.mp working).2, ?_⟩
  rw [pipeline.pending, outbox, working]
  rfl

theorem issueRefused {i : Nat} {command : Command} (stopped : s.stopped = some i) (old : Pipeline sent refused s) :
    Pipeline sent (refused ++ [command]) {s with issued := s.issued ++ [⟨command, none⟩]} :=
  {old with
    issued := by simp [old.issued]
    running := fun none => by cases stopped.symm.trans none}

theorem issueSent {command : Command} (running : s.stopped = none) (old : Pipeline sent refused s) :
    Pipeline (sent ++ [⟨s.channel.nextId, command⟩]) refused
      {s with
        channel := s.channel.send
        stopped := if command = .stop then some s.channel.nextId else none
        inbox := s.inbox ++ [⟨s.channel.nextId, command⟩]
        issued := s.issued ++ [⟨command, some s.channel.nextId⟩]} := by
  have none : refused = [] := old.running running
  refine {old with
    issued := ?_
    ids := ?_
    next := ?_
    running := fun _ => none
    last := ?_
    once := ?_
    worked := ?_
    pending := ?_
    closed := ?_}
  · simp [old.issued, none]
  · rw [List.map_append, List.length_append, old.ids, old.next]
    simp [List.range'_concat]
  · simp only [CommandChannel.send, old.next, List.length_append, List.length_singleton]
    omega
  · intro i stopped
    split at stopped
    · rename_i stops
      cases stopped
      exact ⟨by rw [old.next, List.length_append, List.length_singleton, Nat.add_comm], sent, by rw [stops]⟩
    · cases stopped
  · intro e member stops
    rcases List.mem_append.mp member with before | now
    · have := old.once e before stops
      rw [running] at this
      cases this
    · cases List.mem_singleton.mp now
      rw [if_pos stops]
  · rw [← old.worked]
    simp only [State.working, List.append_assoc]
  · simp only [CommandChannel.send, old.pending, State.working, List.map_append, List.append_assoc]
    rfl
  · intro closed
    exact absurd running (old.closed closed).1

theorem takePipeline {e : Envelope} {rest : List Envelope} {waits : Bool} (idle : s.busy = none)
    (queue : s.inbox = e :: rest) (old : Pipeline sent refused s) :
    Pipeline sent refused {s with busy := some (e, waits), inbox := rest, native := s.native ++ [e]} := by
  have working : s.working = [] := by rw [State.working, idle]; rfl
  have worked := old.worked
  have pending := old.pending
  rw [working, queue] at worked pending
  refine {old with worked := ?_, native := ?_, pending := ?_}
  · rw [← worked]
    simp [State.working]
  · rw [old.native, working]
    simp [State.working]
  · rw [pending]
    simp [State.working]

theorem peerPipeline {e : Envelope} {waits : Bool} (busy : s.busy = some (e, waits)) (old : Pipeline sent refused s) :
    Pipeline sent refused {s with busy := some (e, false)} := by
  have working : State.working {s with busy := some (e, false)} = s.working := by rw [State.working, State.working, busy]; rfl
  refine {old with worked := ?_, native := ?_, pending := ?_}
  · rw [working]
    exact old.worked
  · rw [working]
    exact old.native
  · rw [working]
    exact old.pending

theorem answerPipeline {e : Envelope} {waits : Bool} {reply : StatusReply} (busy : s.busy = some (e, waits))
    (old : Pipeline sent refused s) :
    Pipeline sent refused {s with busy := none, outbox := s.outbox ++ [(e.id, some reply)],
                                  returned := s.returned ++ [(e, reply)]} := by
  have working : s.working = [e] := by rw [State.working, busy]; rfl
  have worked := old.worked
  have native := old.native
  have pending := old.pending
  rw [working] at worked native pending
  refine {old with worked := ?_, native := ?_, heard := ?_, pending := ?_}
  · rw [← worked]
    simp [State.working]
  · rw [native]
    simp [State.working]
  · rw [← List.append_assoc, old.heard]
    simp
  · rw [pending]
    simp [State.working]

theorem deliverPipeline {id : Nat} {payload : Payload} {rest : List (Nat × Payload)} (quiet : s.microtasks = [])
    (queue : s.outbox = (id, payload) :: rest) (old : Pipeline sent refused s) :
    Pipeline sent refused (deliver s id payload rest) := by
  have listening : s.channel.listening = true := by
    by_contra closed
    rw [(closedEmpty old (by simpa using closed)).1] at queue
    cases queue
  have pending := old.pending
  rw [queue, List.map_cons, List.cons_append] at pending
  have here : id ∈ s.channel.pending := by rw [pending]; exact List.mem_cons_self
  have received : s.channel.receive id payload =
      {s.channel with pending := s.channel.pending.erase id, completed := s.channel.completed ++ [(id, payload)]} :=
    if_pos ⟨listening, here⟩
  rw [deliver, received, if_pos ⟨listening, here⟩]
  refine {old with heard := ?_, pending := ?_, told := ?_, closed := ?_}
  · rw [← old.heard, queue]
    simp
  · rw [pending, List.erase_cons_head]
    rfl
  · have still : s.leaving = none := by
      by_contra leaves
      cases listening.symm.trans (old.leaving leaves)
    have told := old.told
    rw [quiet, still] at told
    simp only [still, List.map_append, ← told]
    simp [Microtask.told]
  · intro closed
    cases listening.symm.trans closed

theorem stopResumed {id : Nat} {payload : Payload} {rest : List Microtask} (old : Pipeline sent refused s)
    (queue : s.microtasks = .resume id payload :: rest) (stops : s.stopped = some id) :
    rest = [] ∧ s.leaving = none ∧ s.channel.completed.length = sent.length := by
  have told := old.told
  rw [queue] at told
  have ids : (s.done.map Prod.fst ++ id :: (rest.map Microtask.told).map Prod.fst) ++
      (s.leaving.toList.map Prod.fst) = List.range' 1 s.channel.completed.length := by
    rw [← completedIds old]
    have := congrArg (List.map Prod.fst) told
    simpa [Microtask.told, Function.comp_def] using this
  have length := congrArg List.length told
  simp only [List.length_append, List.length_map, List.length_cons] at length
  have position : id = 1 + s.done.length := by
    have here : (List.range' 1 s.channel.completed.length)[s.done.length]? = some id := by
      rw [← ids, List.getElem?_append_left (by simp), List.getElem?_append_right (by simp)]
      simp
    rw [List.getElem?_range' (by omega)] at here
    have := Option.some.inj here
    omega
  have within := completedWithin old
  have whole := (old.last id stops).1
  refine ⟨List.eq_nil_of_length_eq_zero (by omega), ?_, by omega⟩
  rw [← Option.toList_eq_nil_iff]
  exact List.eq_nil_of_length_eq_zero (by omega)

theorem resumePipeline {id : Nat} {payload : Payload} {rest : List Microtask}
    (queue : s.microtasks = .resume id payload :: rest) (old : Pipeline sent refused s) :
    Pipeline sent refused (resume s id payload rest) := by
  have told := old.told
  rw [queue] at told
  unfold resume
  split
  · rename_i stops
    obtain ⟨rest, none, full⟩ := stopResumed old queue stops
    subst rest
    refine {old with told := ?_, leaving := fun _ => rfl, closed := fun _ => ⟨?_, full⟩}
    · refine Eq.trans ?_ told
      rw [none]
      simp [Microtask.told]
    · rw [stops]
      simp
  · refine {old with told := ?_}
    rw [← told]
    simp [Microtask.told]

theorem leavePipeline {id : Nat} {payload : Payload} {rest : List Microtask}
    (queue : s.microtasks = .leave id payload :: rest) (old : Pipeline sent refused s) :
    Pipeline sent refused {s with microtasks := rest, done := s.done ++ [(id, statusOf payload)]} := by
  refine {old with told := ?_}
  rw [← old.told, queue]
  simp [Microtask.told]

theorem cancelledPipeline {id : Nat} {payload : Payload} (waits : s.leaving = some (id, payload))
    (old : Pipeline sent refused s) :
    Pipeline sent refused {s with
      leaving := none
      channel := s.channel.orphan stoppedReply
      microtasks := s.microtasks ++ s.channel.pending.map (.resume · stoppedReply) ++ [.leave id payload]} := by
  have closed : s.channel.listening = false := old.leaving (by rw [waits]; simp)
  obtain ⟨-, -, -, pending⟩ := closedEmpty old closed
  have same : s.channel.orphan stoppedReply = s.channel := by
    rcases whole : s.channel with ⟨nextId, ids, listening, completed⟩
    rw [whole] at pending
    cases (show ids = [] from pending)
    simp [CommandChannel.orphan]
  rw [same, pending]
  refine {old with told := ?_, leaving := fun none => absurd rfl none}
  rw [← old.told, waits]
  simp [Microtask.told]

end Pipeline

theorem pipelineStep {s t : State} {label : Label} (one : step s label = some t)
    (old : ∃ sent refused, Pipeline sent refused s) : ∃ sent refused, Pipeline sent refused t := by
  obtain ⟨sent, refused, old⟩ := old
  cases label with
  | issue command =>
    cases Option.some.inj one
    unfold issue
    split
    · exact ⟨sent, refused ++ [command], issueRefused ‹_› old⟩
    · exact ⟨_, refused, issueSent ‹_› old⟩
  | take waits =>
    simp only [step] at one
    split at one <;> cases one
    exact ⟨sent, refused, takePipeline ‹_› ‹_› old⟩
  | peer session =>
    simp only [step] at one
    split at one
    · split at one <;> cases one
      · exact ⟨sent, refused, peerPipeline ‹_› old⟩
      · exact ⟨sent, refused, old⟩
    · cases one
      exact ⟨sent, refused, old⟩
  | answer status lastError =>
    simp only [step] at one
    split at one <;> cases one
    exact ⟨sent, refused, answerPipeline ‹_› old⟩
  | deliver =>
    simp only [step] at one
    split at one <;> cases one
    exact ⟨sent, refused, deliverPipeline ‹_› ‹_› old⟩
  | microtask =>
    simp only [step] at one
    split at one <;> cases one
    · exact ⟨sent, refused, resumePipeline ‹_› old⟩
    · exact ⟨sent, refused, leavePipeline ‹_› old⟩
  | cancelled =>
    simp only [step] at one
    split at one <;> cases one
    exact ⟨sent, refused, cancelledPipeline ‹_› old⟩

theorem pipelineInit : Pipeline [] [] init := by
  constructor <;> simp [init, CommandChannel.fresh, State.working]

theorem pipelineRun {labels s} (ran : run step init labels = some s) : ∃ sent refused, Pipeline sent refused s :=
  runKeeps (fun _ _ _ old one => pipelineStep one old) ⟨[], [], pipelineInit⟩ ran

/-! What the calls see. -/

def Issue.envelope (issue : Issue) : Option Envelope := issue.id.map (⟨·, issue.command⟩)

def State.results (s : State) (n : Nat) : List RkQuicStatus :=
  match s.issued[n]? with
  | none => []
  | some ⟨_, none⟩ => [.notRunning]
  | some ⟨_, some id⟩ => (s.done.filter fun done => done.1 = id).map Prod.snd

section Results
variable {sent : List Envelope} {refused : List Command} {s : State}

theorem doneIds (pipeline : Pipeline sent refused s) : s.done.map Prod.fst = List.range' 1 s.done.length := by
  have begins : s.done.map Prod.fst <+: List.range' 1 s.channel.completed.length := by
    rw [← completedIds pipeline]
    have := congrArg (List.map Prod.fst) pipeline.told
    refine ⟨(s.microtasks.map Microtask.told).map Prod.fst ++ (s.leaving.toList.map fun l => (l.1, statusOf l.2)).map Prod.fst, ?_⟩
    rw [← List.append_assoc, ← List.map_append, ← List.map_append, this]
    simp
  have whole := prefixRange begins
  rwa [List.length_map] at whole

theorem issuedSent (pipeline : Pipeline sent refused s) {n : Nat} {command : Command} {id : Nat}
    (here : s.issued[n]? = some ⟨command, some id⟩) : sent[n]? = some ⟨id, command⟩ ∧ id = 1 + n := by
  rw [pipeline.issued, List.getElem?_append] at here
  split at here
  · rw [List.getElem?_map, Option.map_eq_some_iff] at here
    obtain ⟨e, there, same⟩ := here
    cases same
    refine ⟨there, ?_⟩
    have inside : n < sent.length := (List.getElem?_eq_some_iff.mp there).1
    have named : (sent.map Envelope.id)[n]? = some e.id := by rw [List.getElem?_map, there]; rfl
    rw [pipeline.ids, List.getElem?_range' inside] at named
    have := Option.some.inj named
    omega
  · simp at here

theorem resultsSent {n : Nat} {command : Command} {id : Nat} (here : s.issued[n]? = some ⟨command, some id⟩) :
    s.results n = (s.done.filter fun done => done.1 = id).map Prod.snd := by
  rw [State.results, here]

theorem oneResult (pipeline : Pipeline sent refused s) (id : Nat) :
    ((s.done.filter fun done => done.1 = id).map Prod.snd).length ≤ 1 := by
  have apart : (s.done.map Prod.fst).Nodup := by
    rw [doneIds pipeline]
    exact List.nodup_range'
  have count := List.nodup_iff_count_le_one.mp apart id
  rw [List.length_map, ← List.countP_eq_length_filter]
  rw [List.count, List.countP_map] at count
  exact count

theorem doneReturned (pipeline : Pipeline sent refused s) {id : Nat} {st : RkQuicStatus} (done : (id, st) ∈ s.done)
    {command : Command} (asked : ⟨id, command⟩ ∈ sent) :
    ∃ reply, (⟨id, command⟩, reply) ∈ s.returned ∧ reply.status = st := by
  have completed : (id, st) ∈ s.channel.completed.map fun done => (done.1, statusOf done.2) := by
    rw [← pipeline.told, List.append_assoc]
    exact List.mem_append_left _ done
  obtain ⟨⟨i, payload⟩, member, same⟩ := List.mem_map.mp completed
  cases same
  have heard : (i, payload) ∈ s.returned.map fun done => (done.1.id, some done.2) := by
    rw [← pipeline.heard]
    exact List.mem_append_left _ member
  obtain ⟨⟨⟨j, asks⟩, reply⟩, returned, same⟩ := List.mem_map.mp heard
  cases same
  have apart : (sent.map Envelope.id).Nodup := by
    rw [pipeline.ids]
    exact List.nodup_range'
  have there : ⟨j, asks⟩ ∈ sent := by
    rw [← pipeline.worked, List.append_assoc]
    exact List.mem_append_left _ (List.mem_map.mpr ⟨_, returned, rfl⟩)
  cases List.inj_on_of_nodup_map apart there asked rfl
  exact ⟨reply, returned, rfl⟩

theorem lastDone (pipeline : Pipeline sent refused s) {st : RkQuicStatus} (done : (sent.length, st) ∈ s.done) :
    s.done.length = sent.length ∧ s.channel.pending = [] := by
  have reached : sent.length ∈ List.range' 1 s.done.length := by
    rw [← doneIds pipeline]
    exact List.mem_map.mpr ⟨_, done, rfl⟩
  rw [List.mem_range'_1] at reached
  have told := congrArg List.length pipeline.told
  have within := completedWithin pipeline
  simp only [List.length_append, List.length_map] at told
  have pending := congrArg List.length pipeline.pending
  simp only [List.length_append, List.length_map] at pending within
  exact ⟨by omega, List.eq_nil_of_length_eq_zero (by omega)⟩

end Results

structure OwnReplies (s : State) : Prop where
  once : ∀ n, (s.results n).length ≤ 1
  own : ∀ n issue st, s.issued[n]? = some issue → st ∈ s.results n →
    (issue.id = none ∧ st = .notRunning ∧ ∃ m < n, ∃ id, s.issued[m]? = some ⟨.stop, some id⟩) ∨
    (∃ id reply, issue.id = some id ∧ (⟨id, issue.command⟩, reply) ∈ s.returned ∧ reply.status = st)
  order : s.native <+: s.issued.filterMap Issue.envelope
  stop : ∀ n id, s.issued[n]? = some ⟨.stop, some id⟩ → s.results n ≠ [] → s.channel.pending = [] ∧
    ∀ m < n, ∃ command id reply, s.issued[m]? = some ⟨command, some id⟩ ∧ s.results m = [reply.status] ∧
      (⟨id, command⟩, reply) ∈ s.returned

theorem envelopesSent {s : State} {sent refused} (pipeline : Pipeline sent refused s) :
    s.issued.filterMap Issue.envelope = sent := by
  rw [pipeline.issued, List.filterMap_append, List.filterMap_map, List.filterMap_map]
  simp [Issue.envelope, Function.comp_def]

theorem sentIssued {s : State} {sent refused} (pipeline : Pipeline sent refused s) {m : Nat} {e : Envelope}
    (there : sent[m]? = some e) : s.issued[m]? = some ⟨e.command, some e.id⟩ := by
  rw [pipeline.issued, List.getElem?_append_left, List.getElem?_map, there]
  · rfl
  · rw [List.length_map]
    exact (List.getElem?_eq_some_iff.mp there).1

theorem refusedAfter {s : State} {sent refused} (pipeline : Pipeline sent refused s) {n : Nat} {command : Command}
    (here : s.issued[n]? = some ⟨command, none⟩) : ∃ m < n, ∃ id, s.issued[m]? = some ⟨.stop, some id⟩ := by
  rw [pipeline.issued, List.getElem?_append] at here
  split at here
  · simp at here
  rename_i late
  cases stopped : s.stopped with
  | none =>
    rw [pipeline.running stopped] at here
    simp at here
  | some i =>
    obtain ⟨-, rest, rfl⟩ := pipeline.last i stopped
    simp only [List.length_map, List.length_append, List.length_singleton, Nat.not_lt] at late
    refine ⟨rest.length, by omega, i, ?_⟩
    have there : (rest ++ [(⟨i, .stop⟩ : Envelope)])[rest.length]? = some ⟨i, .stop⟩ := by simp
    exact sentIssued pipeline there

theorem earlierDone {s : State} {sent refused} (pipeline : Pipeline sent refused s) {m : Nat} {e : Envelope}
    (there : sent[m]? = some e) (early : m < s.done.length) :
    ∃ reply, s.issued[m]? = some ⟨e.command, some e.id⟩ ∧ s.results m = [reply.status] ∧
      (⟨e.id, e.command⟩, reply) ∈ s.returned := by
  have here := sentIssued pipeline there
  have number := (issuedSent pipeline here).2
  have named : (s.done.map Prod.fst)[m]? = some e.id := by
    rw [doneIds pipeline, List.getElem?_range' early, number]
    simp
  rw [List.getElem?_map, Option.map_eq_some_iff] at named
  obtain ⟨⟨i, st⟩, done, rfl⟩ := named
  have done := List.mem_of_getElem? done
  obtain ⟨reply, returned, status⟩ := doneReturned pipeline done (List.mem_of_getElem? there)
  refine ⟨reply, here, ?_, returned⟩
  have member : st ∈ s.results m := by
    rw [resultsSent here]
    exact List.mem_map.mpr ⟨_, List.mem_filter.mpr ⟨done, by simp⟩, rfl⟩
  have one := oneResult pipeline e.id
  rw [← resultsSent here] at one
  rw [status]
  match results : s.results m, one, member with
  | [result], _, member => rw [List.mem_singleton.mp member]

theorem ownReplies {s : State} {sent refused} (pipeline : Pipeline sent refused s) : OwnReplies s where
  once n := by
    unfold State.results
    split
    · simp
    · simp
    · exact oneResult pipeline _
  own n issue st here completes := by
    rcases issue with ⟨command, _ | id⟩
    · rw [State.results, here, List.mem_singleton] at completes
      exact .inl ⟨rfl, completes, refusedAfter pipeline here⟩
    · rw [resultsSent here] at completes
      obtain ⟨⟨i, _⟩, member, rfl⟩ := List.mem_map.mp completes
      obtain ⟨done, same⟩ := List.mem_filter.mp member
      cases of_decide_eq_true same
      have asked := List.mem_of_getElem? (issuedSent pipeline here).1
      obtain ⟨reply, returned, status⟩ := doneReturned pipeline done asked
      exact .inr ⟨i, reply, rfl, returned, status⟩
  order := by
    rw [envelopesSent pipeline, pipeline.native, ← pipeline.worked]
    exact List.prefix_append ..
  stop n id here completes := by
    have ⟨asked, number⟩ := issuedSent pipeline here
    have stopped := pipeline.once _ (List.mem_of_getElem? asked) rfl
    have last := (pipeline.last id stopped).1
    rw [resultsSent here] at completes
    obtain ⟨st, result⟩ := List.exists_mem_of_ne_nil _ completes
    obtain ⟨⟨i, _⟩, member, rfl⟩ := List.mem_map.mp result
    obtain ⟨done, same⟩ := List.mem_filter.mp member
    cases of_decide_eq_true same
    have last : i = sent.length := last
    obtain ⟨all, pending⟩ := lastDone pipeline (by rw [← last]; exact done)
    refine ⟨pending, fun m before => ?_⟩
    obtain ⟨e, there⟩ : ∃ e, sent[m]? = some e := ⟨_, List.getElem?_eq_getElem (by omega)⟩
    exact ⟨e.command, e.id, earlierDone pipeline there (by omega)⟩

theorem overlappingCallsAnswered :
    (∀ labels s, run step init labels = some s → OwnReplies s) ∧
    (∀ first labels c, run (CommandChannel.step stoppedReply) (.fresh first) labels = some c →
      CommandChannel.Disposable stoppedReply first labels c) := by
  refine ⟨fun labels s ran => ?_, fun first labels c => CommandChannel.disposable⟩
  obtain ⟨sent, refused, pipeline⟩ := pipelineRun ran
  exact ownReplies pipeline

def overlapping : List Label :=
  [.issue (.streamSend 1 4 "a"), .issue (.send 2 "b" true), .take true, .issue .stop, .issue (.streamClose 1 4),
    .peer 1, .answer .peerGone none, .take false, .deliver, .answer .ok none, .take false, .microtask,
    .answer .ok none, .deliver, .microtask, .deliver, .microtask, .cancelled, .microtask]

theorem overlappingCallsAnsweredAll : ∃ s, run step init overlapping = some s ∧ OwnReplies s ∧
    [0, 1, 2, 3].map s.results = [[.peerGone], [.ok], [.ok], [.notRunning]] := by
  obtain ⟨s, ran, results⟩ : ∃ s, run step init overlapping = some s ∧
      [0, 1, 2, 3].map s.results = [[.peerGone], [.ok], [.ok], [.notRunning]] := by
    have whole : (run step init overlapping).map (fun s => [0, 1, 2, 3].map s.results) =
        some [[.peerGone], [.ok], [.ok], [.notRunning]] := by decide +kernel
    exact Option.map_eq_some_iff.mp whole
  exact ⟨s, ran, overlappingCallsAnswered.1 _ s ran, results⟩

end RkQuic.Commands
