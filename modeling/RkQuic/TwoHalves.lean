import RkQuic.StreamEnds

/-! A client endpoint and a server endpoint on one connection that stays up. The layer
below hands each stream over under one name at both ends and delivers its bytes in
order, in any chunks; it breaks no stream and does not end the session, and no queue is
full. Every other step of either side is permitted. -/
namespace RkQuic.Endpoint
open Runs Naming Channel

inductive Side where
  | client
  | server
  deriving DecidableEq, Repr

def Side.other : Side → Side
  | .client => .server
  | .server => .client

structure Ends where
  session_id : SessionId
  url : String
  expected_path : String
  deriving DecidableEq, Repr

def Ends.role (ends : Ends) : Side → Role
  | .client => .client ends.session_id ends.url
  | .server => .server ends.expected_path

structure Net where
  client : State
  server : State
  -- the streams that each side has been given
  clientNames : List StreamId
  serverNames : List StreamId

def Net.state (n : Net) : Side → State
  | .client => n.client
  | .server => n.server

def Net.names (n : Net) : Side → List StreamId
  | .client => n.clientNames
  | .server => n.serverNames

def Net.moved (n : Net) (side : Side) (s : State) (names : List StreamId) : Net :=
  match side with
  | .client => {n with client := s, clientNames := names ++ n.clientNames}
  | .server => {n with server := s, serverNames := names ++ n.serverNames}

def State.half (s : State) (t : StreamId) (P : Exchange → Prop) : Prop :=
  ∃ y ∈ List.range s.fresh, (s.exchanges y).stream = t ∧ P (s.exchanges y)

instance (s : State) (t : StreamId) (P : Exchange → Prop) [DecidablePred P] : Decidable (s.half t P) :=
  inferInstanceAs (Decidable (∃ y ∈ List.range s.fresh, (s.exchanges y).stream = t ∧ P (s.exchanges y)))

def delivers (s peer : State) (x : Nat) (input : Input) : Prop :=
  match s.reader x, input with
  | .reading buffer, .chunk bytes => peer.half (s.stream x) fun ex => buffer ++ bytes <+: ex.bytes
  | .reading buffer, .finished => peer.half (s.stream x) fun ex => ex.fin = true ∧ ex.bytes = buffer
  | _, .failed => False
  | _, _ => True

instance (s peer : State) (x : Nat) (input : Input) : Decidable (delivers s peer x input) := by
  unfold delivers
  split <;> infer_instance

def mayFail (s : State) (c : Nat) : Prop :=
  match (s.calls c).bind Call.writes with
  | some x => (s.exchanges x).fin = true
  | none => True

instance (s : State) (c : Nat) : Decidable (mayFail s c) := by
  unfold mayFail
  split <;> infer_instance

/-- The layer below allows the step. A stream is opened under a new name and accepted
once at the other end; the server's one incoming request is the client's. -/
def Net.permits (n : Net) (side : Side) (a : Label) : Prop :=
  (n.state side).queue.waiting.length < EventQueue.eventQueueDepth ∧
    match side, a with
    | .server, .incoming r => r = 0
    | side, .call _ (.opened t) => t ∉ n.names side ∧ t ∉ n.names side.other
    | side, .task _ (.bi t) => t ∉ n.names side ∧ t ∈ n.names side.other
    | _, .task _ (.ended _) => False
    | side, .call c .failed => mayFail (n.state side) c
    | side, .reader x input => delivers (n.state side) (n.state side.other) x input
    | _, _ => True

instance (n : Net) (side : Side) (a : Label) : Decidable (n.permits side a) := by
  unfold Net.permits
  split <;> infer_instance

def Net.step (ends : Ends) (n : Net) (move : Side × Label) : Option Net :=
  if n.permits move.1 move.2 then
    (Endpoint.step (ends.role move.1) (n.state move.1) move.2).map fun s =>
      n.moved move.1 s move.2.names.toList
  else none

def Net.init (ends : Ends) : Net :=
  ⟨Endpoint.init (ends.role .client), Endpoint.init (ends.role .server), [], []⟩

theorem initState (ends : Ends) (side : Side) :
    (Net.init ends).state side = Endpoint.init (ends.role side) := by
  cases side <;> rfl

theorem movedState (n : Net) (side : Side) (s : State) (names : List StreamId) :
    (n.moved side s names).state = Function.update n.state side s := by
  funext q
  cases side <;> cases q <;> rfl

theorem movedNames (n : Net) (side : Side) (s : State) (names : List StreamId) :
    (n.moved side s names).names = Function.update n.names side (names ++ n.names side) := by
  funext q
  cases side <;> cases q <;> rfl

theorem netMoves {ends n side a n'} (one : Net.step ends n (side, a) = some n') :
    n.permits side a ∧ ∃ s, Endpoint.step (ends.role side) (n.state side) a = some s ∧
      n'.state = Function.update n.state side s ∧
      n'.names = Function.update n.names side (a.names.toList ++ n.names side) := by
  unfold Net.step at one
  split at one
  · rename_i allowed
    obtain ⟨s, here, same⟩ := Option.map_eq_some_iff.mp one
    subst same
    exact ⟨allowed, s, here, movedState .., movedNames ..⟩
  · cases one

theorem permitsFresh {n : Net} {side a} (allowed : n.permits side a) :
    ∀ u, a.names = some u → u ∉ n.names side := by
  intro u name
  have guard := allowed.2
  cases a with
  | task r input =>
    cases input with
    | bi t =>
      cases Option.some.inj name
      cases side <;> exact guard.1
    | _ => cases name
  | call c reply =>
    cases reply with
    | opened t =>
      cases Option.some.inj name
      cases side <;> exact guard.1
    | _ => cases name
  | _ => cases name

theorem permitsUpright {n : Net} {side a} (allowed : n.permits side a) : Upright (n.state side) a := by
  rintro c k x rfl here writes
  have guard := allowed.2
  have fails : mayFail (n.state side) c := by cases side <;> exact guard
  simpa [mayFail, here, writes] using fails

theorem permitsReader {n : Net} {side x input} (allowed : n.permits side (.reader x input)) :
    delivers (n.state side) (n.state side.other) x input := by
  have guard := allowed.2
  cases side <;> exact guard

def Final (peer : State) (t : StreamId) (text : String) : Prop :=
  ∃ y, y < peer.fresh ∧ peer.stream y = t ∧ (peer.exchanges y).fin = true ∧
    (peer.exchanges y).bytes = Utf8.encode text

inductive Fed (peer : State) (t : StreamId) : Reader → Prop where
  | unspawned : Fed peer t .unspawned
  | waiting : Fed peer t (.reading [])
  | reading {buffer y} (less : y < peer.fresh) (same : peer.stream y = t)
      (begun : buffer <+: (peer.exchanges y).bytes) : Fed peer t (.reading buffer)
  | telling {text} (whole : Final peer t text) : Fed peer t (.telling text)
  | closing {text} (whole : Final peer t text) : Fed peer t (.closing (some text))
  | ended {text} (whole : Final peer t text) : Fed peer t (.ended (some text))

theorem onGrows (x : Nat) (e : Effect) (ex : Exchange) : ex.bytes <+: (e.on x ex).bytes := by
  rcases onBytes x e ex with same | ⟨chunk, rfl⟩
  · rw [same]
  · simp [Effect.on]

theorem bytesGrow {role s a t} (move : Move role s a t) (keyed : Keyed s) (x : Nat) :
    (s.exchanges x).bytes <+: (t.exchanges x).bytes := by
  by_cases calls : ∃ c reply, a = .call c reply
  · obtain ⟨c, reply, rfl⟩ := calls
    cases move with
    | @call _ _ k k' e here step =>
      have after : ((s.apply e).exchanges x).bytes = (e.on x (s.exchanges x)).bytes :=
        (halfFields (halfAfter keyed.beyond e x)).1
      show (s.exchanges x).bytes <+: ((s.apply e).exchanges x).bytes
      rw [after]
      exact onGrows x e _
  · obtain ⟨half, -⟩ := asideHalf move keyed fun c reply h => calls ⟨c, reply, h⟩
    rw [(halfFields (half x)).1]

theorem finalStep {role s a t u text} (move : Move role s a t) (keyed : Keyed s) (whole : Final s u text) :
    Final t u text := by
  obtain ⟨y, less, same, fin, bytes⟩ := whole
  obtain ⟨grows, keys⟩ := moveKeys move
  obtain ⟨finNow, kept⟩ := finStep move keyed fin
  exact ⟨y, less.trans_le grows, (congrArg Prod.snd (keys y less)).trans same, finNow, kept.trans bytes⟩

theorem fedPeer {role s a t u reader} (move : Move role s a t) (keyed : Keyed s) (fed : Fed s u reader) :
    Fed t u reader := by
  obtain ⟨grows, keys⟩ := moveKeys move
  cases fed with
  | unspawned => exact .unspawned
  | waiting => exact .waiting
  | @reading buffer y less same begun =>
    exact .reading (less.trans_le grows) ((congrArg Prod.snd (keys y less)).trans same)
      (begun.trans (bytesGrow move keyed y))
  | telling whole => exact .telling (finalStep move keyed whole)
  | closing whole => exact .closing (finalStep move keyed whole)
  | ended whole => exact .ended (finalStep move keyed whole)

theorem fedReader {s peer : State} {x id input reader' e}
    (ends : ∀ y, (peer.exchanges y).fin = true → ∃ text, (peer.exchanges y).bytes = Utf8.encode text)
    (guard : delivers s peer x input) (move : ReaderMove id (s.stream x) (s.reader x) input reader' e)
    (fed : Fed peer (s.stream x) (s.reader x)) : Fed peer (s.stream x) reader' := by
  unfold delivers at guard
  generalize s.reader x = reader at guard move fed
  cases move with
  | chunk buffer bytes =>
    obtain ⟨y, member, same, begun⟩ := guard
    exact .reading (List.mem_range.mp member) same begun
  | @whole buffer text valid =>
    obtain ⟨y, member, same, fin, bytes⟩ := guard
    exact .telling ⟨y, List.mem_range.mp member, same, fin, bytes.trans (Utf8.decodeSound valid).symm⟩
  | garbled invalid =>
    obtain ⟨y, member, same, fin, bytes⟩ := guard
    obtain ⟨text, whole⟩ := ends y fin
    rw [← bytes, whole, Utf8.decodeEncode] at invalid
    cases invalid
  | lost buffer => exact absurd guard not_false
  | tell text =>
    cases fed with
    | telling whole => exact .closing whole
  | close told =>
    cases fed with
    | closing whole => exact .ended whole

theorem fedOwn {s t peer : State} {a : Label} (move : StreamMove s a t) (keyed : Keyed s)
    (ends : ∀ y, (peer.exchanges y).fin = true → ∃ text, (peer.exchanges y).bytes = Utf8.encode text)
    (guard : ∀ x input, a = .reader x input → delivers s peer x input)
    (fed : ∀ x, Fed peer (s.stream x) (s.reader x)) (x : Nat) : Fed peer (t.stream x) (t.reader x) := by
  cases move with
  | still quiet unnamed naming spawner fresh streams readers => rw [streams, readers]; exact fed x
  | named quiet name naming spawner fresh streams readers => rw [streams, readers]; exact fed x
  | @registered m u quiet unnamed had naming spawner fresh streams readers =>
    rw [streams, readers]
    by_cases newest : x = s.fresh
    · subst newest
      rw [State.reader, keyed.beyond _ le_rfl]
      exact .unspawned
    · rw [Function.update_of_ne newest]
      exact fed x
  | @spawned m y quiet unnamed had naming spawner fresh streams readers =>
    rw [streams, readers]
    by_cases same : x = y
    · subst same
      rw [Function.update_self]
      exact .waiting
    · rw [Function.update_of_ne same]
      exact fed x
  | @read y input reader' e same move naming spawner fresh streams readers emitted =>
    rw [streams, readers]
    by_cases mine : x = y
    · subst mine
      rw [Function.update_self]
      exact fedReader ends (guard x input same) move (fed x)
    · rw [Function.update_of_ne mine]
      exact fed x

structure Handed (s : State) : Prop where
  live : s.queue.receiver = true ∧ s.queue.bound = EventQueue.eventQueueDepth
  waits : ∀ e ∈ s.emitted, e ∈ s.queue.waiting ∨
    ∃ c k, s.calls c = some k ∧ k.progress = .returned (.event (some e))

theorem applyHands {s : State} {e : Effect} (room : s.queue.waiting.length < EventQueue.eventQueueDepth)
    (handed : Handed s) (other : e ≠ .poll) :
    ((s.apply e).queue.receiver = true ∧ (s.apply e).queue.bound = EventQueue.eventQueueDepth) ∧
      (s.apply e).queue.waiting = s.queue.waiting ++ e.events := by
  obtain ⟨⟨live, bound⟩, -⟩ := handed
  cases e with
  | emit event =>
    have ends := EventQueue.emitEnds s.queue event
    exact ⟨⟨ends.2.trans live, ends.1.trans bound⟩, EventQueue.emitRoom live (bound ▸ room) event⟩
  | poll => exact absurd rfl other
  | _ => exact ⟨⟨live, bound⟩, (List.append_nil _).symm⟩

theorem handedAside {s t : State} (handed : Handed s) {more : List Event}
    (live : t.queue.receiver = true ∧ t.queue.bound = EventQueue.eventQueueDepth)
    (emitted : t.emitted = s.emitted ++ more) (waiting : t.queue.waiting = s.queue.waiting ++ more)
    (calls : ∀ c k a, s.calls c = some k → k.progress = .returned a → t.calls c = some k) : Handed t := by
  refine ⟨live, fun event member => ?_⟩
  rw [emitted] at member
  rw [waiting]
  rcases List.mem_append.mp member with old | new
  · rcases handed.waits event old with inside | ⟨c, k, here, given⟩
    · exact .inl (List.mem_append_left _ inside)
    · exact .inr ⟨c, k, calls c k _ here given, given⟩
  · exact .inl (List.mem_append_right _ new)

theorem handedStep {role s a t} (move : Move role s a t)
    (room : s.queue.waiting.length < EventQueue.eventQueueDepth) (handed : Handed s) : Handed t := by
  cases move with
  | incoming server free =>
    exact handedAside handed handed.live (List.append_nil _).symm (List.append_nil _).symm fun _ _ _ h _ => h
  | @task r input p p' e here step =>
    have other : e ≠ .poll := by
      rintro rfl
      cases step with
      | serve move => cases move
    obtain ⟨live, waiting⟩ := applyHands room handed other
    exact handedAside handed live (applyEmitted s e) waiting fun c k a h _ => by simpa using h
  | @reader x input reader' e step =>
    have other : e ≠ .poll := by
      generalize (s.exchanges x).reader = reader at step
      cases step <;> simp
    have edited : Handed (s.edit x fun ex => {ex with reader := reader'}) := ⟨handed.live, handed.waits⟩
    obtain ⟨live, waiting⟩ := applyHands (s := s.edit x fun ex => {ex with reader := reader'}) room edited other
    exact handedAside handed live (applyEmitted (s.edit x _) e) waiting fun c k a h _ => by simpa using h
  | @enter c method free =>
    refine handedAside handed handed.live (List.append_nil _).symm (List.append_nil _).symm ?_
    intro d k a h _
    have other : d ≠ c := by
      rintro rfl
      rw [free] at h
      cases h
    exact (Function.update_of_ne other ..).trans h
  | @call c reply k k' e here step =>
    have calls : ∀ d k1 a, s.calls d = some k1 → k1.progress = .returned a →
        Function.update s.calls c (some k') d = some k1 := by
      intro d k1 a h given
      have other : d ≠ c := by
        rintro rfl
        cases Option.some.inj (here.symm.trans h)
        exact returnedStays step given
      exact (Function.update_of_ne other ..).trans h
    by_cases polls : e = .poll
    · subst polls
      cases step with
      | polled =>
        obtain ⟨head, tail⟩ := SyncChannel.recvWaiting s.queue
        obtain ⟨bound, receiver⟩ := SyncChannel.recvEnds s.queue
        refine ⟨⟨receiver.trans handed.live.1, bound.trans handed.live.2⟩, fun event member => ?_⟩
        rcases handed.waits event member with inside | ⟨d, k1, there, given⟩
        · obtain ⟨first, rest, split⟩ := List.exists_cons_of_ne_nil (List.ne_nil_of_mem inside)
          rw [split] at inside
          rcases List.mem_cons.mp inside with rfl | later
          · refine .inr ⟨c, _, Function.update_self .., ?_⟩
            simp only [EventQueue.nextEvent, head, split, List.head?_cons]
          · refine .inl ?_
            show event ∈ s.queue.recvTimeout.2.waiting
            rw [tail, split]
            exact later
        · exact .inr ⟨d, k1, calls d k1 _ there given, given⟩
    · obtain ⟨live, waiting⟩ := applyHands room handed polls
      exact handedAside handed live (applyEmitted s e) waiting calls

structure Live (ends : Ends) (n : Net) : Prop where
  reached : ∀ side, ∃ labels,
    run (Endpoint.step (ends.role side)) (Endpoint.init (ends.role side)) labels = some (n.state side)
  names : ∀ side, Named (n.names side) (n.state side)
  spawning : ∀ side, Spawning (n.state side)
  reported : ∀ side, Reported (n.state side)
  clear : ∀ side, Clear (n.state side)
  handed : ∀ side, Handed (n.state side)
  fed : ∀ side x, Fed (n.state side.other) ((n.state side).stream x) ((n.state side).reader x)
  ordered : ∀ side t, Precedes (fun e => (Event.dataOn t e).isSome) (Event.endOn t) (n.state side).emitted

theorem orderedStep {role s a v t peer} (move : Move role s a v) (keyed : Keyed s) (reported : Reported s)
    (fed : ∀ x, Fed peer (s.stream x) (s.reader x))
    (ordered : Precedes (fun e => (Event.dataOn t e).isSome) (Event.endOn t) s.emitted) :
    Precedes (fun e => (Event.dataOn t e).isSome) (Event.endOn t) v.emitted := by
  rcases emitsOne move with same | ⟨event, emitted⟩
  · rw [same]; exact ordered
  · rw [emitted]
    refine precedesSnoc ordered ?_
    rintro ⟨id, rfl⟩
    rcases speaker move emitted with ⟨r, input, p, p', -, -, step⟩ | ⟨x, input, reader', -, step⟩
    · obtain ⟨-, -, -, other, -⟩ := taskSpeaks step
      exact absurd trivial other
    · have inside := readerInside keyed.beyond step
      have told := reported.told x inside
      have fedx := fed x
      obtain ⟨text, said⟩ : ∃ text, (s.reader x).told = [text] := by
        unfold State.reader at fedx ⊢
        generalize (s.exchanges x).reader = reader at step fedx
        cases step with
        | close told =>
          cases fedx with
          | closing whole => exact ⟨_, rfl⟩
      have t_ : s.stream x = t := by
        obtain ⟨-, -, ⟨text, data⟩ | closed⟩ := readerSpeaks step
        · cases data
        · exact (Event.streamClosed.inj closed).2.symm
      rw [said, t_] at told
      obtain ⟨f, member, here⟩ := List.mem_filterMap.mp (by rw [told]; exact List.mem_singleton_self text)
      exact ⟨f, member, by rw [here]; rfl⟩

theorem otherSide (side : Side) : side.other ≠ side := by
  cases side <;> simp [Side.other]

theorem sides (side q : Side) : q = side ∨ q = side.other := by
  cases side <;> cases q <;> simp [Side.other]

theorem otherTwice (side : Side) : side.other.other = side := by
  cases side <;> rfl

theorem spokenAll {role labels s} (ran : run (Endpoint.step role) (Endpoint.init role) labels = some s)
    (clear : Clear s) (y : Nat) (fin : (s.exchanges y).fin = true) :
    ∃ text, (s.exchanges y).bytes = Utf8.encode text :=
  ⟨_, finishedBytes ((writingRun ran).framed y) clear fin⟩

theorem liveStep {ends n n'} {label : Side × Label} (one : Net.step ends n label = some n')
    (live : Live ends n) : Live ends n' := by
  obtain ⟨side, a⟩ := label
  obtain ⟨allowed, s, here, states, names⟩ := netMoves one
  have move := moves here
  obtain ⟨labels, ran⟩ := live.reached side
  obtain ⟨peerLabels, peerRan⟩ := live.reached side.other
  have keyed := keyedRun ran
  have writing := writingRun ran
  have streamMove := streamMoves move keyed
  have mine : n'.state side = s := by rw [states, Function.update_self]
  have theirs : n'.state side.other = n.state side.other := by
    rw [states, Function.update_of_ne (otherSide side)]
  have mineNames : n'.names side = a.names.toList ++ n.names side := by rw [names, Function.update_self]
  have theirNames : n'.names side.other = n.names side.other := by
    rw [names, Function.update_of_ne (otherSide side)]
  have both : ∀ {P : Side → Prop}, P side → P side.other → ∀ q, P q := by
    intro P here there q
    rcases sides side q with rfl | rfl
    · exact here
    · exact there
  refine ⟨both ?_ ?_, both ?_ ?_, both ?_ ?_, both ?_ ?_, both ?_ ?_, both ?_ ?_, both ?_ ?_, both ?_ ?_⟩
  · rw [mine]; exact ⟨labels ++ [a], runSnoc.mpr ⟨_, ran, here⟩⟩
  · rw [theirs]; exact ⟨peerLabels, peerRan⟩
  · rw [mine, mineNames]; exact namedStep streamMove (permitsFresh allowed) (live.names side)
  · rw [theirs, theirNames]; exact live.names side.other
  · rw [mine]; exact spawningStep streamMove keyed (live.spawning side)
  · rw [theirs]; exact live.spawning side.other
  · rw [mine]; exact reportedStep move keyed (live.spawning side) (live.names side) (live.reported side)
  · rw [theirs]; exact live.reported side.other
  · rw [mine]; exact clearStep move keyed writing (permitsUpright allowed) (live.clear side)
  · rw [theirs]; exact live.clear side.other
  · rw [mine]; exact handedStep move allowed.1 (live.handed side)
  · rw [theirs]; exact live.handed side.other
  · rw [mine, theirs]
    refine fedOwn streamMove keyed (spokenAll peerRan (live.clear side.other)) ?_ (live.fed side)
    rintro x input rfl
    exact permitsReader allowed
  · rw [otherTwice, mine, theirs]
    intro x
    have fed := live.fed side.other x
    rw [otherTwice] at fed
    exact fedPeer move keyed fed
  · rw [mine]
    exact fun t => orderedStep move keyed (live.reported side) (live.fed side) (live.ordered side t)
  · rw [theirs]; exact live.ordered side.other

theorem liveInit (ends : Ends) : Live ends (Net.init ends) := by
  have blank : ∀ side, (∀ m, ((Net.init ends).state side).naming m = none) ∧
      (∀ m, ((Net.init ends).state side).spawner m = none) ∧
      ((Net.init ends).state side).fresh = 0 ∧
      (∀ x, ((Net.init ends).state side).exchanges x = .opened 0 0) := by
    intro side
    cases side with
    | server => exact ⟨fun m => by cases m <;> rfl, fun m => by cases m <;> rfl, rfl, fun _ => rfl⟩
    | client =>
      refine ⟨fun m => ?_, fun m => ?_, rfl, fun _ => rfl⟩
      · cases m with
        | inl r => by_cases zero : r = 0 <;> simp [Net.init, Net.state, Ends.role, Endpoint.init, State.naming,
            State.party, zero, Phase.naming]
        | inr c => rfl
      · cases m with
        | inl r => by_cases zero : r = 0 <;> simp [Net.init, Net.state, Ends.role, Endpoint.init, State.spawner,
            State.party, zero, Phase.spawner]
        | inr c => rfl
  have reported : ∀ side, (∀ u, ((Net.init ends).state side).emitted.filterMap (Event.dataOn u) = []) ∧
      ∀ t, ∀ e ∈ ((Net.init ends).state side).emitted, ¬ Event.endOn t e := by
    intro side
    cases side <;> simp [Net.init, Net.state, Ends.role, Endpoint.init, Event.dataOn, Event.endOn]
  refine ⟨fun side => ⟨[], (congrArg some (initState ends side)).symm⟩, fun side => ⟨?_, ?_, ?_, ?_⟩,
    fun side => ⟨?_, ?_⟩, fun side => ⟨?_, ?_⟩,
    fun side x c h => ?_, fun side => ⟨?_, ?_⟩, fun side x => ?_, fun side t before e after h ended => ?_⟩
  · intro x h; rw [(blank side).2.2.1] at h; omega
  · intro x y h; rw [(blank side).2.2.1] at h; omega
  · intro m u h; rw [(blank side).1] at h; cases h
  · intro m k u h; rw [(blank side).1] at h; cases h
  · intro m x h; rw [(blank side).2.1] at h; cases h
  · intro m k x h; rw [(blank side).2.1] at h; cases h
  · intro x h; rw [(blank side).2.2.1] at h; omega
  · exact fun u _ => (reported side).1 u
  · rw [(blank side).2.2.2] at h; exact absurd h List.not_mem_nil
  · cases side with
    | server => exact ⟨rfl, rfl⟩
    | client => exact ⟨rfl, rfl⟩
  · intro e member
    cases side with
    | server => cases member
    | client => exact .inl member
  · rw [State.reader, (blank side).2.2.2]; exact .unspawned
  · exact absurd ended ((reported side).2 t e (by rw [h]; simp))

theorem liveRun {ends labels n} (ran : run (Net.step ends) (Net.init ends) labels = some n) : Live ends n :=
  runKeeps (fun _ _ _ live one => liveStep one live) (liveInit ends) ran

/-! A reader that is waiting for a half the peer has finished can take it in and report it. -/

structure Standing (side : Side) (x : Nat) (was n : Net) (reader : Reader) : Prop where
  reader : (n.state side).reader x = reader
  stream : (n.state side).stream x = (was.state side).stream x
  queue : (n.state side).queue = (was.state side).queue
  peer : n.state side.other = was.state side.other

theorem readerGoes {ends : Ends} {n : Net} {side x input reader' e}
    (room : (n.state side).queue.waiting.length < EventQueue.eventQueueDepth)
    (guard : delivers (n.state side) (n.state side.other) x input)
    (goes : readBiStream ((n.state side).exchanges x).session ((n.state side).exchanges x).stream
      ((n.state side).exchanges x).reader input = some (reader', e)) :
    ∃ n', Net.step ends n (side, .reader x input) = some n' ∧
      n'.state = Function.update n.state side
        (((n.state side).edit x fun ex => {ex with reader := reader'}).apply e) := by
  have allowed : n.permits side (.reader x input) := ⟨room, by cases side <;> exact guard⟩
  refine ⟨_, (if_pos allowed).trans (Option.map_eq_some_iff.mpr ⟨_, ?_, rfl⟩), movedState ..⟩
  show Endpoint.step (ends.role side) (n.state side) (.reader x input) = _
  simp [Endpoint.step, goes]

theorem readerStands {ends : Ends} {was n : Net} {side x input reader reader'}
    (room : (was.state side).queue.waiting.length < EventQueue.eventQueueDepth)
    (standing : Standing side x was n reader)
    (guard : delivers (n.state side) (was.state side.other) x input)
    (goes : ∀ id t, readBiStream id t reader input = some (reader', .none)) :
    ∃ n', Net.step ends n (side, .reader x input) = some n' ∧ Standing side x was n' reader' := by
  have here : ((n.state side).exchanges x).reader = reader := standing.reader
  obtain ⟨n', one, states⟩ := @readerGoes ends n side x input reader' .none (standing.queue ▸ room) (standing.peer ▸ guard)
    (here ▸ goes ((n.state side).exchanges x).session ((n.state side).exchanges x).stream)
  refine ⟨n', one, ?_, ?_, ?_, ?_⟩
  · rw [states, Function.update_self]
    simp [State.reader, State.apply]
  · rw [states, Function.update_self, ← standing.stream]
    simp [State.stream, State.apply]
  · rw [states, Function.update_self, ← standing.queue]
    rfl
  · rw [states, Function.update_of_ne (otherSide side), standing.peer]

theorem dataArrives {ends n side x y buffer} (live : Live ends n)
    (room : (n.state side).queue.waiting.length < EventQueue.eventQueueDepth)
    (reads : (n.state side).reader x = .reading buffer) (less : y < (n.state side.other).fresh)
    (same : (n.state side.other).stream y = (n.state side).stream x)
    (fin : ((n.state side.other).exchanges y).fin = true) :
    ∃ (inputs : List Input) (n' : Net), run (Net.step ends) n (inputs.map fun i => (side, .reader x i)) = some n' ∧
      ∃ id, .streamData id ((n.state side).stream x) ((n.state side.other).spoken y) ∈
        (n'.state side).emitted := by
  obtain ⟨labels, ran⟩ := live.reached side.other
  have bytes := finishedBytes ((writingRun ran).framed y) (live.clear side.other) fin
  have begun : buffer <+: ((n.state side.other).exchanges y).bytes := by
    have fed := live.fed side x
    rw [reads] at fed
    cases fed with
    | waiting => exact List.nil_prefix
    | reading less' same' begun =>
      cases (live.names side.other).apart _ _ less' less (same'.trans same.symm)
      exact begun
  obtain ⟨rest, split⟩ := begun
  have start : Standing side x n n (.reading buffer) := ⟨reads, rfl, rfl, rfl⟩
  obtain ⟨n₁, first, standing₁⟩ := @readerStands ends n n side x (.chunk rest) _ (.reading (buffer ++ rest)) room start
    (by simp only [delivers, reads]; exact ⟨y, List.mem_range.mpr less, same, by rw [split]⟩) (fun _ _ => rfl)
  rw [split] at standing₁
  obtain ⟨n₂, second, standing₂⟩ := @readerStands ends n n₁ side x .finished _
    (.telling ((n.state side.other).spoken y)) room standing₁
    (by simp only [delivers, standing₁.reader, standing₁.stream]; exact ⟨y, List.mem_range.mpr less, same, fin, rfl⟩)
    (fun _ _ => by simp [readBiStream, bytes, Utf8.decodeEncode])
  obtain ⟨n₃, third, states⟩ := @readerGoes ends n₂ side x .go
    (.closing (some ((n.state side.other).spoken y)))
    (.emit (.streamData ((n₂.state side).exchanges x).session ((n₂.state side).exchanges x).stream
      ((n.state side.other).spoken y))) (standing₂.queue ▸ room)
    (by simp only [delivers, standing₂.reader])
    (by rw [show ((n₂.state side).exchanges x).reader = _ from standing₂.reader]; rfl)
  refine ⟨[.chunk rest, .finished, .go], n₃, ?_, ((n₂.state side).exchanges x).session, ?_⟩
  · exact runCons.mpr ⟨n₁, first, runCons.mpr ⟨n₂, second, runCons.mpr ⟨n₃, third, rfl⟩⟩⟩
  · have named : ((n₂.state side).exchanges x).stream = (n.state side).stream x := standing₂.stream
    rw [states, Function.update_self, named]
    simp [State.apply]

structure Carried (sender receiver : State) (t : StreamId) : Prop where
  data : ∀ id text, .streamData id t text ∈ receiver.emitted → ∃ y c k, y < sender.fresh ∧
    sender.stream y = t ∧ text = sender.spoken y ∧ (sender.exchanges y).taken = some c ∧
    sender.calls c = some k ∧ k.method = .streamClose (sender.exchanges y).session t ∧ k.past y
  once : (receiver.emitted.filterMap (Event.dataOn t)).length ≤ 1
  lossless : Precedes (fun e => (Event.dataOn t e).isSome) (Event.endOn t) receiver.emitted
  known : ∀ y z, y < sender.fresh → z < sender.fresh → sender.stream y = t → sender.stream z = t → y = z
  turns : ∀ y, sender.stream y = t → (sender.exchanges y).turns.Nodup ∧
    ∀ c ∈ (sender.exchanges y).turns, ∃ k payload, sender.calls c = some k ∧
      k.method = .streamSend (sender.exchanges y).session t payload
  sends : ∀ c id payload sent, sender.calls c = some ⟨.streamSend id t payload, .returned (.status .ok), sent⟩ →
    ∃ y, y < sender.fresh ∧ (sender.exchanges y).key = (id, t) ∧ c ∈ (sender.exchanges y).turns

structure Exchanged (ends : Ends) (n : Net) : Prop where
  carried : ∀ side t, Carried (n.state side.other) (n.state side) t
  handed : ∀ side, ∀ e ∈ (n.state side).emitted, e ∈ (n.state side).queue.waiting ∨
    ∃ c k, (n.state side).calls c = some k ∧ k.progress = .returned (.event (some e))
  arrives : ∀ side x y buffer, (n.state side).queue.waiting.length < EventQueue.eventQueueDepth →
    (n.state side).reader x = .reading buffer → y < (n.state side.other).fresh →
    (n.state side.other).stream y = (n.state side).stream x →
    ((n.state side.other).exchanges y).fin = true →
    ∃ (inputs : List Input) (n' : Net), run (Net.step ends) n (inputs.map fun i => (side, .reader x i)) = some n' ∧
      ∃ id, .streamData id ((n.state side).stream x) ((n.state side.other).spoken y) ∈
        (n'.state side).emitted

theorem carriedLive {ends n} (live : Live ends n) (side : Side) (t : StreamId) :
    Carried (n.state side.other) (n.state side) t := by
  obtain ⟨labels, ran⟩ := live.reached side.other
  have writing := writingRun ran
  have turns := turnsRun ran
  have reported := live.reported side
  have toldOne : ∀ reader : Reader, reader.told.length ≤ 1 := by
    intro reader
    rcases reader with _ | _ | _ | (_ | _) | (_ | _) <;> simp [Reader.told]
  refine ⟨fun id text member => ?_, ?_, live.ordered side t, fun y z less less' same same' => ?_,
    fun y same => ⟨(writing.framed y).once, fun c h => ?_⟩, fun c id payload sent here => ?_⟩
  · have inside : text ∈ (n.state side).emitted.filterMap (Event.dataOn t) :=
      List.mem_filterMap.mpr ⟨_, member, by simp [Event.dataOn]⟩
    by_cases known : ∃ x, x < (n.state side).fresh ∧ (n.state side).stream x = t
    · obtain ⟨x, less, rfl⟩ := known
      rw [reported.told x less] at inside
      have final : Final (n.state side.other) ((n.state side).stream x) text := by
        have fed := live.fed side x
        generalize (n.state side).reader x = reader at inside fed
        cases fed with
        | unspawned | waiting | reading | telling => cases inside
        | closing whole | ended whole => cases List.mem_singleton.mp inside; exact whole
      obtain ⟨y, lessY, same, fin, bytes⟩ := final
      have spoken := finishedBytes (writing.framed y) (live.clear side.other) fin
      obtain ⟨c, k, taken, here, past⟩ := (finishingRun ran).done y fin
      obtain ⟨k', there, closing⟩ := (takingRun ran).closing y c taken
      cases Option.some.inj (here.symm.trans there)
      refine ⟨y, c, k, lessY, same, Utf8.encodeInjective (bytes.symm.trans spoken), taken, here, ?_, past⟩
      rw [← same]
      cases closing <;> rfl
    · rw [reported.silent t fun x less same => known ⟨x, less, same⟩] at inside
      cases inside
  · by_cases known : ∃ x, x < (n.state side).fresh ∧ (n.state side).stream x = t
    · obtain ⟨x, less, rfl⟩ := known
      rw [reported.told x less]
      exact toldOne _
    · rw [reported.silent t fun x less same => known ⟨x, less, same⟩]
      exact Nat.zero_le _
  · exact (live.names side.other).apart y z less less' (same.trans same'.symm)
  · obtain ⟨-, k, here, target⟩ := turns.own y c h
    obtain ⟨method, progress, sent⟩ := k
    cases method with
    | streamSend id u payload =>
      obtain ⟨rfl, rfl⟩ := Prod.mk.inj (Option.some.inj target)
      exact ⟨_, payload, here, by rw [← same]; rfl⟩
    | _ => cases target
  · obtain ⟨y, member⟩ := turns.served c _ here trivial
    obtain ⟨less, k, there, target⟩ := turns.own y c member
    cases Option.some.inj (here.symm.trans there)
    exact ⟨y, less, (Option.some.inj target).symm, member⟩

theorem exchangesCarried {ends labels n} (ran : run (Net.step ends) (Net.init ends) labels = some n) :
    Exchanged ends n := by
  have live := liveRun ran
  exact ⟨carriedLive live, fun side => (live.handed side).waits,
    fun side x y buffer room reads less same fin => dataArrives live room reads less same fin⟩

def Side.takes (side : Side) (labels : List Label) : List (Side × Label) := labels.map (Prod.mk side)

def askAndAnswer : List (Side × Label) :=
  Side.server.takes [.incoming 0, .task 0 (.requested "till" "/till"), .task 0 .accepted, .task 0 .go,
    .task 0 .go, .task 0 .go] ++
  Side.client.takes [.enter 0 (.openStream 7), .call 0 .go, .call 0 (.opened 0), .call 0 .go, .call 0 .go,
    .enter 1 (.streamSend 7 0 "ab"), .call 1 .go, .call 1 .go, .call 1 (.wrote 1)] ++
  Side.server.takes [.task 0 (.bi 0), .task 0 .go, .task 0 .go, .task 0 .go, .reader 0 (.chunk [97])] ++
  Side.client.takes [.call 1 (.wrote 1), .call 1 .go, .enter 2 (.streamClose 7 0), .call 2 .go, .call 2 .go,
    .call 2 .go, .call 2 .done] ++
  Side.server.takes [.reader 0 (.chunk [98]), .reader 0 .finished, .reader 0 .go, .reader 0 .go,
    .enter 0 (.streamSend 1 0 "c"), .call 0 .go, .call 0 .go, .call 0 (.wrote 1), .call 0 .go,
    .enter 1 (.streamClose 1 0), .call 1 .go, .call 1 .go, .call 1 .go, .call 1 .done] ++
  Side.client.takes [.reader 0 (.chunk [99]), .reader 0 .finished, .reader 0 .go]

theorem askAndAnswerCarried :
    ∃ n, run (Net.step ⟨7, "https://till", "/till"⟩) (Net.init ⟨7, "https://till", "/till"⟩) askAndAnswer =
        some n ∧
      .streamData 1 0 "ab" ∈ (n.state .server).emitted ∧ .streamData 7 0 "c" ∈ (n.state .client).emitted ∧
      Exchanged ⟨7, "https://till", "/till"⟩ n := by
  have reported : (run (Net.step ⟨7, "https://till", "/till"⟩) (Net.init ⟨7, "https://till", "/till"⟩)
      askAndAnswer).map (fun n => (decide (.streamData 1 0 "ab" ∈ (n.state .server).emitted),
        decide (.streamData 7 0 "c" ∈ (n.state .client).emitted))) = some (true, true) := by
    decide +kernel
  obtain ⟨n, ran, both⟩ := Option.map_eq_some_iff.mp reported
  obtain ⟨request, answer⟩ := Prod.mk.inj both
  exact ⟨n, ran, of_decide_eq_true request, of_decide_eq_true answer, exchangesCarried ran⟩

end RkQuic.Endpoint
