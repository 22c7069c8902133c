import RkQuic.EventQueue
import RkQuic.Poller

/-! What the endpoint emits, on its way to who listens: the queue, the isolate that polls it, the
port of the events, and the broadcast stream over that port. The endpoint can be removed, and the
isolate killed, at any moment; a kill waits for a call of the library to return. -/
namespace RkQuic.Hearing
open Creating (Handle)
open Channel EventJson EventQueue Poller Programs Runs

/-- `joined` is history: how much the stream had had when the listener came. -/
structure Listener where
  joined : Nat
  present : Bool
  heard : List QuicEvent
  deriving DecidableEq, Repr

/-- `subscribed` is whether the stream has had its first listener; until then the port keeps
everything. `emitted`, `accepted`, `dropped` and `delivered` are history: what was to go into the
queue, what did, what was in it when the endpoint was dropped, and what the stream has had. -/
structure State where
  queue : SyncChannel Event
  registered : Bool
  poller : Part Request Answer Nat
  isolate : Isolate
  alive : Bool
  port : List String
  subscribed : Bool
  listeners : Nat → Option Listener
  emitted : List Event
  accepted : List Event
  dropped : List Event
  delivered : List String

/- `library` is whether the isolate could open it. -/
def init (library : Bool) (handle : Handle) : State where
  queue := .syncChannel eventQueueDepth
  registered := true
  poller := if library then .entering (pollLoop handle).enter else .left
  isolate := newIsolate
  alive := true
  port := []
  subscribed := false
  listeners := fun _ => none
  emitted := []
  accepted := []
  dropped := []
  delivered := []

inductive Label where
  | emit (event : Event)
  | remove
  | drop
  | answer (a : Answer)
  | next
  | kill
  | listen (n : Nat)
  | cancel (n : Nat)
  | deliver

def Label.onward : Label → Bool
  | .answer _ | .next | .deliver => true
  | _ => false

def Label.own : Label → Bool
  | .answer _ | .next => true
  | _ => false

def emitting (s : State) (e : Event) : State :=
  {s with
    queue := emit s.queue e
    emitted := s.emitted ++ [e]
    accepted :=
      match s.queue.trySend e with
      | .ok _ => s.accepted ++ [e]
      | .error _ => s.accepted}

/- The receiver goes with the endpoint, and what is in the queue goes with it. -/
def hangUp (c : SyncChannel Event) : SyncChannel Event := ⟨c.bound, [], false, Nat.zero_le _⟩

def endpoint (s : State) : Request → Answer → Option (SyncChannel Event)
  | .lookup _ _, .found there => if there = s.registered then some s.queue else none
  | .nextEvent _ _, .event e _ => if (nextEvent s.queue).1 = some e then some (nextEvent s.queue).2 else none
  | .nextEvent _ _, .expired => if (nextEvent s.queue).1 = none then some s.queue else none
  | _, _ => some s.queue

def Listener.hear (e : QuicEvent) (l : Listener) : Listener :=
  if l.present then {l with heard := l.heard ++ [e]} else l

def step (complaint : String → String) (handle : Handle) (s : State) : Label → Option State
  | .emit e => some (emitting s e)
  | .remove => some {s with registered := false}
  | .drop =>
    if s.registered = false ∧ s.isolate.holding = false then
      some {s with queue := hangUp s.queue, dropped := s.dropped ++ s.queue.waiting}
    else none
  | .answer a =>
    match s.alive, s.poller.request with
    | true, some request =>
      (endpoint s request a).bind fun queue =>
        (advancePart device (s.poller, s.isolate) a).map fun (poller, isolate) =>
          {s with
            queue := queue
            poller := poller
            isolate := isolate
            port := s.port ++ isolate.posted.drop s.isolate.posted.length}
    | _, _ => none
  | .next => if s.alive then ((pollLoop handle).next s.poller).map fun poller => {s with poller := poller} else none
  | .kill => if s.isolate.holding then none else some {s with alive := false}
  | .listen n =>
    if s.listeners n = none then
      some {s with subscribed := true, listeners := Function.update s.listeners n (some ⟨s.delivered.length, true, []⟩)}
    else none
  | .cancel n => some {s with listeners := Function.update s.listeners n ((s.listeners n).map fun l => {l with present := false})}
  | .deliver =>
    match s.subscribed, s.port with
    | true, json :: rest =>
      some {s with
        port := rest
        delivered := s.delivered ++ [json]
        listeners := fun n => (s.listeners n).map (Listener.hear (fromJson complaint json))}
    | _, _ => none

structure Line (s : State) : Prop where
  accepted : s.accepted.Sublist s.emitted
  taken : s.accepted = s.isolate.taken ++ s.queue.waiting ++ s.dropped
  dropped : s.dropped ≠ [] → s.queue.receiver = false
  hung : s.queue.receiver = false → s.queue.waiting = [] ∧ s.registered = false
  looping : Looping device During Between Refused Left s.poller s.isolate
  refused : s.isolate.refused = true → s.registered = false
  port : s.isolate.posted = s.delivered ++ s.port

def Hears (complaint : String → String) (delivered : List String) (l : Listener) : Prop :=
  l.joined ≤ delivered.length ∧
  l.heard = ((delivered.drop l.joined).take l.heard.length).map (fromJson complaint) ∧
  (l.present = true → l.joined + l.heard.length = delivered.length)

structure Ears (complaint : String → String) (s : State) : Prop where
  silent : s.subscribed = false → s.delivered = [] ∧ s.listeners = fun _ => none
  first : s.subscribed = true → ∃ n l, s.listeners n = some l ∧ l.joined = 0
  hears : ∀ n l, s.listeners n = some l → Hears complaint s.delivered l

section Steps
variable {complaint : String → String} {handle : Handle} {s t : State}

theorem emittingCases (s : State) (e : Event) :
    (s.queue.receiver = true ∧ (emit s.queue e).waiting = s.queue.waiting ++ [e] ∧
      (emitting s e).accepted = s.accepted ++ [e]) ∨
    ((emit s.queue e).waiting = s.queue.waiting ∧ (emitting s e).accepted = s.accepted) := by
  simp only [emitting, emit, SyncChannel.trySend]
  by_cases gone : s.queue.receiver = false
  · simp [gone]
  · by_cases room : s.queue.waiting.length < s.queue.bound
    · exact .inl ⟨by simpa using gone, by simp [gone, room]⟩
    · simp [gone, room]

structure Answered (s t : State) (request : Request) (a : Answer) : Prop where
  asked : s.poller.request = some request
  alive : s.alive = true
  endpoint : endpoint s request a = some t.queue
  advance : advancePart device (s.poller, s.isolate) a = some (t.poller, t.isolate)
  told : Told s.isolate t.isolate request a
  answers : answers s.isolate request a = some t.isolate
  rest : t = {s with
    queue := t.queue
    poller := t.poller
    isolate := t.isolate
    port := s.port ++ t.isolate.posted.drop s.isolate.posted.length}

theorem answeredOf {a : Answer} (one : step complaint handle s (.answer a) = some t) :
    ∃ request, Answered s t request a := by
  simp only [step] at one
  split at one
  · rename_i request alive asked
    obtain ⟨queue, within, mapped⟩ := Option.bind_eq_some_iff.mp one
    obtain ⟨⟨poller, isolate⟩, advance, rfl⟩ := Option.map_eq_some_iff.mp mapped
    obtain ⟨request', asked', answers⟩ := advancePartAnswers advance
    cases asked.symm.trans asked'
    exact ⟨request, asked, alive, within, advance, told answers, answers, rfl⟩
  · cases one

theorem endpointEnds {request : Request} {a : Answer} {queue : SyncChannel Event} (within : endpoint s request a = some queue) :
    queue.receiver = s.queue.receiver ∧ queue.waiting <:+ s.queue.waiting := by
  unfold endpoint at within
  split at within <;> try split at within
  all_goals cases within
  all_goals simp [nextEvent, List.tail_suffix]

theorem endpointOwn {request : Request} {a : Answer} (own : request.shared = false) : endpoint s request a = some s.queue := by
  cases request <;> first | rfl | cases own

theorem takenOn {request : Request} {a : Answer} (one : Answered s t request a) :
    t.isolate.taken ++ t.queue.waiting = s.isolate.taken ++ s.queue.waiting := by
  have within := one.endpoint
  cases one.told with
  | took taken =>
    simp only [endpoint] at within
    split at within
    · rename_i e _ head
      rw [nextEvent, (SyncChannel.recvWaiting _).1] at head
      rw [taken, ← Option.some.inj within, nextEvent, (SyncChannel.recvWaiting _).2, List.append_assoc,
        List.singleton_append, List.cons_head?_tail head]
    · cases within
  | waited taken | looked taken =>
    simp only [endpoint] at within
    split at within
    · rw [taken, ← Option.some.inj within]
    · cases within
  | sent taken => rw [taken, ← Option.some.inj within]
  | aside own taken => rw [taken, ← Option.some.inj ((endpointOwn own).symm.trans within)]

theorem refusedOn {request : Request} {a : Answer} (one : Answered s t request a)
    (old : s.isolate.refused = true → s.registered = false) (now : t.isolate.refused = true) : s.registered = false := by
  cases one.told with
  | looked _ _ _ refused =>
    have within := one.endpoint
    simp only [endpoint] at within
    split at within
    · rename_i there same
      rw [refused] at now
      simpa [← same] using now
    · cases within
  | took _ _ _ refused | waited _ _ _ refused | sent _ _ _ refused | aside _ _ _ _ refused => exact old (refused ▸ now)

theorem lineInit (library : Bool) (handle : Handle) : Line (init library handle) where
  accepted := .refl _
  taken := rfl
  dropped := by simp [init]
  hung := by simp [init, SyncChannel.syncChannel]
  looping := by
    cases library with
    | true => exact entersSafely
    | false => exact ⟨⟨rfl, rfl⟩, rfl, .inr rfl⟩
  refused := by simp [init, newIsolate]
  port := rfl

theorem lineEmit (e : Event) (old : Line s) : Line (emitting s e) := by
  have receiver : (emitting s e).queue.receiver = s.queue.receiver := (emitEnds s.queue e).2
  rcases emittingCases s e with ⟨live, waiting, accepted⟩ | ⟨waiting, accepted⟩
  · have none_ : s.dropped = [] := by
      by_contra some_
      rw [old.dropped some_] at live
      cases live
    refine ⟨?_, ?_, ?_, ?_, old.looping, old.refused, old.port⟩
    · rw [accepted]
      exact old.accepted.append (.refl _)
    · rw [accepted, old.taken]
      show _ = s.isolate.taken ++ (emit s.queue e).waiting ++ s.dropped
      rw [waiting, none_]
      simp
    · rw [receiver]
      exact old.dropped
    · rw [receiver, live]
      nofun
  · refine ⟨?_, ?_, ?_, ?_, old.looping, old.refused, old.port⟩
    · rw [accepted]
      exact old.accepted.trans (List.sublist_append_left _ _)
    · rw [accepted, old.taken]
      show _ = s.isolate.taken ++ (emit s.queue e).waiting ++ s.dropped
      rw [waiting]
    · rw [receiver]
      exact old.dropped
    · rw [receiver]
      show _ → (emit s.queue e).waiting = [] ∧ s.registered = false
      rw [waiting]
      exact old.hung

theorem lineAnswer {request : Request} {a : Answer} (old : Line s) (one : Answered s t request a) : Line t := by
  have ends := endpointEnds one.endpoint
  have taken := takenOn one
  have refused := refusedOn one old.refused
  have looping := loopingAdvance old.looping one.advance
  have grows := sentGrows one.told
  rw [one.rest]
  refine ⟨old.accepted, ?_, ?_, ?_, looping, refused, ?_⟩
  · show s.accepted = t.isolate.taken ++ t.queue.waiting ++ s.dropped
    rw [taken, old.taken]
  · show _ → t.queue.receiver = false
    rw [ends.1]
    exact old.dropped
  · show t.queue.receiver = false → t.queue.waiting = [] ∧ _
    rw [ends.1]
    intro gone
    exact ⟨List.suffix_nil.mp ((old.hung gone).1 ▸ ends.2), (old.hung gone).2⟩
  · show t.isolate.posted = s.delivered ++ (s.port ++ t.isolate.posted.drop s.isolate.posted.length)
    rw [← List.append_assoc, ← old.port]
    exact grows

theorem lineStep {label : Label} (old : Line s) (one : step complaint handle s label = some t) : Line t := by
  cases label with
  | emit e => cases one; exact lineEmit e old
  | remove =>
    cases one
    exact ⟨old.accepted, old.taken, old.dropped, fun gone => ⟨(old.hung gone).1, rfl⟩, old.looping, fun _ => rfl,
      old.port⟩
  | drop =>
    simp only [step] at one
    split at one <;> cases one
    rename_i free
    refine ⟨old.accepted, ?_, fun _ => rfl, fun _ => ⟨rfl, free.1⟩, old.looping, old.refused, old.port⟩
    show s.accepted = s.isolate.taken ++ [] ++ (s.dropped ++ s.queue.waiting)
    rw [old.taken]
    cases receiver : s.queue.receiver with
    | false => simp [(old.hung receiver).1]
    | true =>
      have none_ : s.dropped = [] := by
        by_contra some_
        rw [old.dropped some_] at receiver
        cases receiver
      simp [none_]
  | answer a =>
    obtain ⟨request, answered⟩ := answeredOf one
    exact lineAnswer old answered
  | next =>
    simp only [step] at one
    split at one
    · obtain ⟨poller, next, rfl⟩ := Option.map_eq_some_iff.mp one
      exact ⟨old.accepted, old.taken, old.dropped, old.hung,
        loopingNext (fun _ _ now => turnSafely now) (fun _ _ now => leavesSafely now) old.looping next, old.refused, old.port⟩
    · cases one
  | kill =>
    simp only [step] at one
    split at one <;> cases one
    exact ⟨old.accepted, old.taken, old.dropped, old.hung, old.looping, old.refused, old.port⟩
  | listen n =>
    simp only [step] at one
    split at one <;> cases one
    exact ⟨old.accepted, old.taken, old.dropped, old.hung, old.looping, old.refused, old.port⟩
  | cancel n =>
    cases one
    exact ⟨old.accepted, old.taken, old.dropped, old.hung, old.looping, old.refused, old.port⟩
  | deliver =>
    simp only [step] at one
    split at one <;> cases one
    rename_i json rest _ port
    refine ⟨old.accepted, old.taken, old.dropped, old.hung, old.looping, old.refused, ?_⟩
    show s.isolate.posted = (s.delivered ++ [json]) ++ rest
    rw [old.port, port, List.append_assoc, List.singleton_append]

theorem lineRun {library : Bool} {labels : List Label} (ran : run (step complaint handle) (init library handle) labels = some s) :
    Line s :=
  runKeeps (P := Line) (fun _ _ _ old one => lineStep old one) (lineInit library handle) ran

/-! What the listeners have heard. -/

theorem hearsNone (complaint : String → String) (delivered : List String) :
    Hears complaint delivered ⟨delivered.length, true, []⟩ :=
  ⟨le_refl _, by simp, fun _ => by simp⟩

theorem hearsOn {delivered : List String} {l : Listener} (json : String) (old : Hears complaint delivered l) :
    Hears complaint (delivered ++ [json]) (l.hear (fromJson complaint json)) := by
  obtain ⟨joined, heard, present⟩ := old
  have within : l.heard.length ≤ (delivered.drop l.joined).length := by
    have lengths := congrArg List.length heard
    rw [List.length_map, List.length_take] at lengths
    omega
  unfold Listener.hear
  split
  · rename_i here
    have all := present here
    refine ⟨by simp; omega, ?_, fun _ => by simp; omega⟩
    dsimp only
    rw [List.drop_append_of_le_length joined, List.take_of_length_le (by simp; omega), List.map_append, List.map_singleton]
    rw [heard, List.take_of_length_le (by simp; omega)]
  · rename_i away
    refine ⟨by simp; omega, ?_, fun here => absurd here away⟩
    rw [List.drop_append_of_le_length joined, List.take_append_of_le_length within]
    exact heard

theorem earsStep {label : Label} (old : Ears complaint s) (one : step complaint handle s label = some t) :
    Ears complaint t := by
  cases label with
  | emit e => cases one; exact ⟨old.silent, old.first, old.hears⟩
  | remove => cases one; exact ⟨old.silent, old.first, old.hears⟩
  | drop =>
    simp only [step] at one
    split at one <;> cases one
    exact ⟨old.silent, old.first, old.hears⟩
  | answer a =>
    obtain ⟨request, answered⟩ := answeredOf one
    rw [answered.rest]
    exact ⟨old.silent, old.first, old.hears⟩
  | next =>
    simp only [step] at one
    split at one
    · obtain ⟨poller, next, rfl⟩ := Option.map_eq_some_iff.mp one
      exact ⟨old.silent, old.first, old.hears⟩
    · cases one
  | kill =>
    simp only [step] at one
    split at one <;> cases one
    exact ⟨old.silent, old.first, old.hears⟩
  | listen n =>
    simp only [step] at one
    split at one <;> cases one
    rename_i free
    refine ⟨nofun, fun _ => ?_, fun m l there => ?_⟩
    · cases before : s.subscribed with
      | false =>
        refine ⟨n, ⟨s.delivered.length, true, []⟩, Function.update_self .., ?_⟩
        simp [(old.silent before).1]
      | true =>
        obtain ⟨m, l, there, joined⟩ := old.first before
        have apart : m ≠ n := by
          rintro rfl
          rw [free] at there
          cases there
        exact ⟨m, l, (Function.update_of_ne apart ..).trans there, joined⟩
    · dsimp only at there ⊢
      by_cases same : m = n
      · subst same
        rw [Function.update_self] at there
        cases there
        exact hearsNone complaint s.delivered
      · rw [Function.update_of_ne same] at there
        exact old.hears m l there
  | cancel n =>
    cases one
    refine ⟨fun silent => ?_, fun heard => ?_, fun m l there => ?_⟩
    · obtain ⟨nothing, nobody⟩ := old.silent silent
      refine ⟨nothing, funext fun m => ?_⟩
      by_cases same : m = n <;> simp [nobody, Function.update, same]
    · -- who leaves keeps its place, and may still be the first
      obtain ⟨m, l, there, joined⟩ := old.first heard
      by_cases same : m = n
      · subst same
        exact ⟨m, {l with present := false}, (Function.update_self ..).trans (by rw [there]; rfl), joined⟩
      · exact ⟨m, l, (Function.update_of_ne same ..).trans there, joined⟩
    · dsimp only at there ⊢
      by_cases same : m = n
      · subst same
        rw [Function.update_self] at there
        obtain ⟨l, here, rfl⟩ := Option.map_eq_some_iff.mp there
        obtain ⟨joined, heard, -⟩ := old.hears m l here
        exact ⟨joined, heard, nofun⟩
      · rw [Function.update_of_ne same] at there
        exact old.hears m l there
  | deliver =>
    simp only [step] at one
    split at one <;> cases one
    rename_i json rest subscribed _
    refine ⟨fun silent => ?_, fun _ => ?_, fun n l there => ?_⟩
    · rw [subscribed] at silent
      cases silent
    · obtain ⟨n, l, there, joined⟩ := old.first subscribed
      refine ⟨n, l.hear (fromJson complaint json), by dsimp only; rw [there]; rfl, ?_⟩
      unfold Listener.hear
      split <;> exact joined
    · obtain ⟨before, here, rfl⟩ := Option.map_eq_some_iff.mp there
      exact hearsOn json (old.hears n before here)

theorem earsRun {library : Bool} {labels : List Label} (ran : run (step complaint handle) (init library handle) labels = some s) :
    Ears complaint s :=
  runKeeps (P := Ears complaint) (fun _ _ _ old one => earsStep old one)
    ⟨fun _ => ⟨rfl, rfl⟩, by simp [init], by simp [init]⟩ ran

theorem sentOn (line : Line s) : ∃ hand, hand.length ≤ 1 ∧ ∃ sent, s.isolate.taken = sent ++ hand ∧
    s.delivered ++ s.port = sent.map toJson := by
  rw [← line.port]
  rcases (nowDuring line.looping).hand with even | ⟨before, e, taken, posted, -⟩
  · exact ⟨[], by simp, s.isolate.taken, by simp, even.posted⟩
  · exact ⟨[e], by simp, before, taken, posted⟩

def Ranged (e : Event) : Prop := (∀ id ∈ e.session, id.toNat < 2 ^ 63) ∧ ∀ id ∈ stream e, id.toNat < 2 ^ 62

theorem fromToJson {e : Event} (ranged : Ranged e) : fromJson complaint (toJson e) = dart e := by
  have crosses := (eventCrosses complaint ranged.1 ranged.2).2.2
  rw [polledJson, Option.map_some] at crosses
  exact Option.some.inj crosses

theorem deliveredDart (line : Line s) (ranged : ∀ e ∈ s.emitted, Ranged e) :
    s.delivered.map (fromJson complaint) = (s.isolate.taken.take s.delivered.length).map dart := by
  obtain ⟨hand, -, sent, taken, all⟩ := sentOn line
  have delivered : s.delivered = (sent.map toJson).take s.delivered.length := by rw [← all, List.take_left]
  have within : s.delivered.length ≤ sent.length := by
    have lengths := congrArg List.length all
    rw [List.length_append, List.length_map] at lengths
    omega
  rw [taken, List.take_append_of_le_length within]
  conv_lhs => rw [delivered, ← List.map_take, List.map_map]
  refine List.map_congr_left fun e member => fromToJson (ranged e ?_)
  refine line.accepted.subset ?_
  rw [line.taken, taken]
  simp [List.mem_of_mem_take member]

structure Heard (s : State) : Prop where
  accepted : s.accepted.Sublist s.emitted
  line : s.accepted = s.isolate.taken ++ s.queue.waiting ++ s.dropped
  sent : ∃ hand, hand.length ≤ 1 ∧ ∃ sent, s.isolate.taken = sent ++ hand ∧
    s.delivered.length + s.port.length = sent.length
  heard : ∀ n l, s.listeners n = some l →
    l.heard = ((s.isolate.taken.drop l.joined).take l.heard.length).map dart ∧
    (l.present = true → l.joined + l.heard.length = s.delivered.length)
  first : s.subscribed = true → ∃ n l, s.listeners n = some l ∧ l.joined = 0

theorem eventsHeard {library : Bool} {labels : List Label}
    (ran : run (step complaint handle) (init library handle) labels = some s) (ranged : ∀ e ∈ s.emitted, Ranged e) :
    Heard s := by
  have line := lineRun ran
  have ears := earsRun ran
  refine ⟨line.accepted, line.taken, ?_, fun n l there => ?_, ears.first⟩
  · obtain ⟨hand, few, sent, taken, all⟩ := sentOn line
    refine ⟨hand, few, sent, taken, ?_⟩
    rw [← List.length_append, all, List.length_map]
  · obtain ⟨joined, heard, present⟩ := ears.hears n l there
    refine ⟨?_, present⟩
    have within : l.heard.length ≤ s.delivered.length - l.joined := by
      have lengths := congrArg List.length heard
      rw [List.length_map, List.length_take, List.length_drop] at lengths
      omega
    rw [List.map_take, List.map_drop, deliveredDart line ranged, ← List.map_drop, ← List.map_take, List.drop_take,
      List.take_take, Nat.min_eq_left within] at heard
    exact heard

/-! The isolate is never stuck, and everything the queue has taken in comes to who listens. -/

theorem freshString (during : During s.isolate) : ∃ p, s.isolate.strings p = none := by
  rcases during.hand with even | ⟨_, _, _, _, none_ | ⟨p, some_⟩⟩
  · exact ⟨0, by rw [even.strings]⟩
  · exact ⟨0, by rw [none_]⟩
  · exact ⟨p + 1, by rw [some_, Function.update_of_ne (by omega)]⟩

theorem freshBlock (during : During s.isolate) : ∃ p, s.isolate.blocks p = none := by
  rcases during.cell with none_ | ⟨out, c, some_⟩
  · exact ⟨0, by rw [none_]⟩
  · exact ⟨out + 1, by rw [some_, cells, Function.update_of_ne (by omega)]⟩

structure Kept (s t : State) : Prop where
  registered : t.registered = s.registered
  alive : t.alive = s.alive
  emitted : t.emitted = s.emitted
  accepted : t.accepted = s.accepted
  delivered : t.delivered = s.delivered
  subscribed : t.subscribed = s.subscribed
  listeners : t.listeners = s.listeners
  fewer : t.queue.waiting.length ≤ s.queue.waiting.length

theorem keptStep {label : Label} (one : step complaint handle s label = some t) (own : label.own = true) : Kept s t := by
  cases label with
  | answer a =>
    obtain ⟨request, answered⟩ := answeredOf one
    have fewer := (endpointEnds answered.endpoint).2.length_le
    rw [answered.rest]
    exact ⟨rfl, rfl, rfl, rfl, rfl, rfl, rfl, fewer⟩
  | next =>
    simp only [step] at one
    split at one
    · obtain ⟨poller, next, rfl⟩ := Option.map_eq_some_iff.mp one
      exact ⟨rfl, rfl, rfl, rfl, rfl, rfl, rfl, le_refl _⟩
    · cases one
  | emit | remove | drop | kill | listen | cancel | deliver => cases own

theorem keptTrans {u : State} (first : Kept s t) (second : Kept t u) : Kept s u :=
  ⟨second.registered.trans first.registered, second.alive.trans first.alive, second.emitted.trans first.emitted,
    second.accepted.trans first.accepted, second.delivered.trans first.delivered, second.subscribed.trans first.subscribed,
    second.listeners.trans first.listeners, second.fewer.trans first.fewer⟩

inductive Works (complaint : String → String) (handle : Handle) : State → State → Prop where
  | stay (s : State) : Works complaint handle s s
  | go {s t u : State} {label : Label} (one : step complaint handle s label = some t) (own : label.own = true)
      (more : Works complaint handle t u) : Works complaint handle s u

theorem worksTrans {u : State} (first : Works complaint handle s t) (second : Works complaint handle t u) :
    Works complaint handle s u := by
  induction first with
  | stay => exact second
  | go one own _ ih => exact .go one own (ih second)

theorem worksOn (works : Works complaint handle s t) (line : Line s) : Line t ∧ Kept s t := by
  induction works with
  | stay => exact ⟨line, rfl, rfl, rfl, rfl, rfl, rfl, rfl, le_refl _⟩
  | go one own _ ih =>
    obtain ⟨last, kept⟩ := ih (lineStep line one)
    exact ⟨last, keptTrans (keptStep one own) kept⟩

theorem worksRun (works : Works complaint handle s t) :
    ∃ more, (∀ a ∈ more, a.onward = true) ∧ run (step complaint handle) s more = some t := by
  induction works with
  | stay s => exact ⟨[], nofun, rfl⟩
  | @go s t u label one own _ ih =>
    obtain ⟨more, onward, ran⟩ := ih
    refine ⟨label :: more, fun a member => ?_, runCons.mpr ⟨t, one, ran⟩⟩
    rcases List.mem_cons.mp member with rfl | later
    · cases a <;> first | rfl | cases own
    · exact onward a later

theorem answeredTurn {out : Nat} {rest : Dart Bool} {request r : Request} {next : Answer → Dart Bool} {a : Answer}
    (at_ : s.poller = .turning out rest) (asks : rest = .act request next) (answered : Answered s t r a) :
    t.poller = .turning out (next a) := by
  have advance := answered.advance
  rw [at_, asks] at advance
  obtain ⟨y, advanced, same⟩ := Option.map_eq_some_iff.mp advance
  obtain ⟨isolate, -, rfl⟩ := Option.map_eq_some_iff.mp advanced
  exact (Prod.mk.inj same).1.symm

theorem answersTurn {out : Nat} {rest : Dart Bool} {request : Request} {next : Answer → Dart Bool} {a : Answer}
    (at_ : s.poller = .turning out rest) (asks : rest = .act request next) (one : step complaint handle s (.answer a) = some t) :
    t.poller = .turning out (next a) := by
  obtain ⟨r, answered⟩ := answeredOf one
  exact answeredTurn at_ asks answered

end Steps

section Onward
variable (complaint : String → String) (handle : Handle) {s t : State}

theorem answering {request : Request} {a : Answer} {queue : SyncChannel Event} {isolate : Isolate} (alive : s.alive = true)
    (asked : s.poller.request = some request) (within : endpoint s request a = some queue)
    (answered : answers s.isolate request a = some isolate) :
    ∃ t, step complaint handle s (.answer a) = some t ∧ t.queue = queue ∧ t.isolate = isolate := by
  obtain ⟨q, advance⟩ := advancePartOf asked (show device.answers s.isolate request a = some isolate from answered)
  simp only [step, alive, asked, within, advance, Option.bind_some, Option.map_some]
  exact ⟨_, rfl, rfl, rfl⟩

theorem answerable {request : Request} (line : Line s) (alive : s.alive = true) (asked : s.poller.request = some request) :
    ∃ a t, step complaint handle s (.answer a) = some t := by
  have during := nowDuring line.looping
  have may : able s.isolate request := (loopingAsks line.looping asked).2
  have answer {a : Answer} {queue : SyncChannel Event} {isolate : Isolate} (within : endpoint s request a = some queue)
      (answered : answers s.isolate request a = some isolate) : ∃ a t, step complaint handle s (.answer a) = some t :=
    have ⟨t, one, _⟩ := answering complaint handle alive asked within answered
    ⟨a, t, one⟩
  cases request with
  | calloc =>
    obtain ⟨p, free⟩ := freshBlock during
    exact answer (a := .address p) rfl (if_pos free)
  | lookup handle out => exact answer (a := .found s.registered) (if_pos rfl) rfl
  | nextEvent timeout_ms out =>
    cases head : (nextEvent s.queue).1 with
    | none => exact answer (a := .expired) (if_pos head) rfl
    | some e =>
      obtain ⟨p, free⟩ := freshString during
      exact answer (a := .event e p) (if_pos head) (if_pos free)
  | value out =>
    obtain ⟨p, there⟩ := Option.ne_none_iff_exists'.mp may
    exact answer (a := .pointer p) rfl (if_pos there)
  | toDartString p => exact answer (a := .text ((s.isolate.strings p).bind Ffi.toDartString)) rfl (if_pos rfl)
  | stringFree p | setNull out | send json | free out => exact answer (a := .done) rfl rfl

theorem turnEnds {out : Nat} {rest : Dart Bool} (line : Line s) (alive : s.alive = true)
    (at_ : s.poller = .turning out rest) :
    ∃ t last, Works complaint handle s t ∧ t.poller = .turning out last ∧ last.request = none := by
  induction rest generalizing s with
  | done again => exact ⟨s, _, .stay s, at_, rfl⟩
  | thrown => exact ⟨s, _, .stay s, at_, rfl⟩
  | act request next ih =>
    have asked : s.poller.request = some request := by rw [at_]; rfl
    obtain ⟨a, t, one⟩ := answerable complaint handle line alive asked
    obtain ⟨u, last, works, end_⟩ := ih a (lineStep line one) ((keptStep one rfl).alive.trans alive)
      (answersTurn at_ rfl one)
    exact ⟨u, last, .go one rfl works, end_⟩

theorem turnsAgain {out : Nat} {rest : Dart Bool} (line : Line s) (alive : s.alive = true) (there : s.registered = true)
    (at_ : s.poller = .turning out rest) :
    ∃ t, Works complaint handle s t ∧ t.poller = .turning out (turn handle out) ∧ Between out t.isolate := by
  obtain ⟨t, last, works, end_, over_⟩ := turnEnds complaint handle line alive at_
  obtain ⟨after, kept⟩ := worksOn works line
  have looping := after.looping
  rw [end_] at looping
  have refused (now : Refused out t.isolate) : False := by
    have gone := after.refused now.refused
    rw [kept.registered, there] at gone
    cases gone
  cases last with
  | act => cases over_
  | thrown => exact (refused looping).elim
  | done again =>
    cases again with
    | false => exact (refused looping).elim
    | true =>
      have one : step complaint handle t .next = some {t with poller := .turning out (turn handle out)} := by
        simp only [step, kept.alive, alive, end_, Loop.next, pollLoop, if_true, Option.map_some]
      exact ⟨_, worksTrans works (.go one rfl (.stay _)), rfl, looping⟩

theorem turnTakes {out : Nat} {e : Event} {others : List Event} (line : Line s) (alive : s.alive = true)
    (there : s.registered = true) (at_ : s.poller = .turning out (turn handle out)) (waiting : s.queue.waiting = e :: others) :
    ∃ t, Works complaint handle s t ∧ t.poller = .turning out (turn handle out) ∧ Between out t.isolate ∧
      t.queue.waiting.length ≤ others.length := by
  have asked : s.poller.request = some (.lookup handle out) := by rw [at_]; rfl
  obtain ⟨u, found, queue, isolate⟩ := answering complaint handle (a := .found s.registered) alive asked (if_pos rfl) rfl
  have looked := answersTurn at_ rfl found
  rw [there] at looked
  have line := lineStep line found
  have same := keptStep found rfl
  have head : (nextEvent u.queue).1 = some e := by rw [queue, nextEvent, (SyncChannel.recvWaiting _).1, waiting]; rfl
  obtain ⟨p, free⟩ := freshString (nowDuring line.looping)
  have asked : u.poller.request = some (.nextEvent (min (UInt32.ofNat pollSlice.inMilliseconds.toNat) 60000) out) := by
    rw [looked]
    rfl
  obtain ⟨v, took, queue', -⟩ := answering complaint handle (a := .event e p) (same.alive.trans alive) asked (if_pos head)
    (if_pos free)
  have taken := answersTurn looked rfl took
  have line := lineStep line took
  have same := keptTrans same (keptStep took rfl)
  obtain ⟨t, works, begun, between⟩ := turnsAgain complaint handle line (same.alive.trans alive)
    (same.registered.trans there) taken
  refine ⟨t, .go found rfl (.go took rfl works), begun, between, ?_⟩
  have fewer := (worksOn works line).2.fewer
  rw [queue', nextEvent, (SyncChannel.recvWaiting _).2, queue, waiting, List.tail_cons] at fewer
  exact fewer

theorem turnsTakeAll {out : Nat} (n : Nat) (line : Line s) (alive : s.alive = true) (there : s.registered = true)
    (at_ : s.poller = .turning out (turn handle out)) (between : Between out s.isolate) (most : s.queue.waiting.length ≤ n) :
    ∃ t, Works complaint handle s t ∧ Between out t.isolate ∧ t.queue.waiting = [] := by
  induction n generalizing s with
  | zero => exact ⟨s, .stay s, between, List.length_eq_zero_iff.mp (by omega)⟩
  | succ n ih =>
    cases waiting : s.queue.waiting with
    | nil => exact ⟨s, .stay s, between, waiting⟩
    | cons e others =>
      obtain ⟨t, works, begun, between, fewer⟩ := turnTakes complaint handle line alive there at_ waiting
      rw [waiting, List.length_cons] at most
      obtain ⟨after, kept⟩ := worksOn works line
      obtain ⟨u, more, end_⟩ := ih after (kept.alive.trans alive) (kept.registered.trans there) begun between (by omega)
      exact ⟨u, worksTrans works more, end_⟩

theorem portEmpties (port : List String) (line : Line s) (subscribed : s.subscribed = true) (at_ : s.port = port) :
    ∃ more t, (∀ a ∈ more, a.onward = true) ∧ run (step complaint handle) s more = some t ∧ t.port = [] ∧
      t.queue = s.queue ∧ t.isolate = s.isolate ∧ t.emitted = s.emitted ∧ t.registered = s.registered ∧
      t.accepted = s.accepted ∧ ∀ n l, s.listeners n = some l →
        ∃ l', t.listeners n = some l' ∧ l'.joined = l.joined ∧ l'.present = l.present := by
  induction port generalizing s with
  | nil => exact ⟨[], s, nofun, rfl, at_, rfl, rfl, rfl, rfl, rfl, fun n l there => ⟨l, there, rfl, rfl⟩⟩
  | cons json rest ih =>
    obtain ⟨t, one, port, same⟩ : ∃ t, step complaint handle s .deliver = some t ∧ t.port = rest ∧
        t = {s with
          port := rest
          delivered := s.delivered ++ [json]
          listeners := fun n => (s.listeners n).map (Listener.hear (fromJson complaint json))} := by
      simp only [step, subscribed, at_]
      exact ⟨_, rfl, rfl, rfl⟩
    have line := lineStep line one
    obtain ⟨more, u, onward, ran, empty, queue, isolate, emitted, registered, accepted, listeners⟩ :=
      ih line (by rw [same]; exact subscribed) port
    rw [same] at queue isolate emitted registered accepted listeners
    refine ⟨.deliver :: more, u, ?_, runCons.mpr ⟨t, one, ran⟩, empty, queue, isolate, emitted, registered, accepted,
      fun n l there => ?_⟩
    · intro a member
      rcases List.mem_cons.mp member with rfl | later
      · rfl
      · exact onward a later
    · obtain ⟨l', there', joined, present⟩ :=
        listeners n (l.hear (fromJson complaint json)) (by simp only [there, Option.map_some])
      refine ⟨l', there', joined.trans ?_, present.trans ?_⟩ <;>
        · unfold Listener.hear
          split <;> rfl

theorem acceptedHeard {library : Bool} {labels : List Label} {out n : Nat} {rest : Dart Bool} {l : Listener}
    (ran : run (step complaint handle) (init library handle) labels = some s) (ranged : ∀ e ∈ s.emitted, Ranged e)
    (alive : s.alive = true) (there : s.registered = true) (polls : s.poller = .turning out rest)
    (listens : s.listeners n = some l) (present : l.present = true) :
    ∃ more t l', (∀ a ∈ more, a.onward = true) ∧ run (step complaint handle) s more = some t ∧
      t.listeners n = some l' ∧ l'.heard = (s.accepted.drop l.joined).map dart := by
  have line := lineRun ran
  have subscribed : s.subscribed = true := by
    by_contra silent
    rw [((earsRun ran).silent (by simpa using silent)).2] at listens
    cases listens
  obtain ⟨t, works, begun, between⟩ := turnsAgain complaint handle line alive there polls
  obtain ⟨after, kept⟩ := worksOn works line
  obtain ⟨u, takes, between, empty⟩ := turnsTakeAll complaint handle t.queue.waiting.length after
    (kept.alive.trans alive) (kept.registered.trans there) begun between (le_refl _)
  obtain ⟨after, kept'⟩ := worksOn takes after
  have kept := keptTrans kept kept'
  obtain ⟨first, onward, ranFirst⟩ := worksRun (worksTrans works takes)
  obtain ⟨second, v, onward', ranSecond, port, queue, isolate, emitted, registered, accepted, listeners⟩ :=
    portEmpties complaint handle u.port after (kept.subscribed.trans subscribed) rfl
  obtain ⟨l', there', joined', present'⟩ := listeners n l (by rw [kept.listeners]; exact listens)
  have ranAll : run (step complaint handle) s (first ++ second) = some v := runAppend.mpr ⟨u, ranFirst, ranSecond⟩
  have ranV := runAppend.mpr ⟨s, ran, ranAll⟩
  have heard := eventsHeard ranV (by rw [emitted, kept.emitted]; exact ranged)
  have lineV := lineRun ranV
  obtain ⟨hears, all⟩ := heard.heard n l' there'
  refine ⟨first ++ second, v, l', fun a member => ?_, ranAll, there', ?_⟩
  · rcases List.mem_append.mp member with before | later
    · exact onward a before
    · exact onward' a later
  · have even : v.isolate.posted = v.isolate.taken.map toJson := by
      rw [isolate]
      exact between.even.posted
    have dropped : v.dropped = [] := by
      by_contra some_
      have gone := (lineV.hung (lineV.dropped some_)).2
      rw [registered, kept.registered, there] at gone
      cases gone
    have everything : v.isolate.taken = s.accepted := by
      rw [← kept.accepted, ← accepted, lineV.taken, queue, empty, dropped]
      simp
    have count := all (present'.trans present)
    have delivered := congrArg List.length lineV.port
    rw [even, port, List.append_nil, List.length_map] at delivered
    rw [hears, everything, joined', List.take_of_length_le]
    rw [everything] at delivered
    rw [List.length_drop]
    omega

end Onward

def hearing : List Label :=
  [.answer (.address 0), .next, .emit (.datagram 7 "a\x00b"), .answer (.found true), .listen 0,
    .answer (.event (.datagram 7 "a\x00b") 5), .answer (.pointer (some 5)),
    .answer (.text (some (toJson (.datagram 7 "a\x00b")))), .answer .done, .emit (.sessionClosed 7 "gone"), .answer .done,
    .answer .done, .deliver, .listen 1]

theorem hearingRanged : ∀ e ∈ [Event.datagram 7 "a\x00b", .sessionClosed 7 "gone"], Ranged e := by
  intro e member
  rcases List.mem_cons.mp member with rfl | last
  · exact ⟨by rintro _ ⟨⟩; decide, by rintro _ ⟨⟩⟩
  · cases List.mem_singleton.mp last
    exact ⟨by rintro _ ⟨⟩; decide, by rintro _ ⟨⟩⟩

theorem hearingHeard : ∃ s, run (step id 1) (init true 1) hearing = some s ∧ Heard s ∧
    (s.listeners 0).map Listener.heard = some [.datagramReceived 7 (Utf16.encode "a\x00b")] := by
  obtain ⟨s, ran⟩ : ∃ s, run (step id 1) (init true 1) hearing = some s := Option.isSome_iff_exists.mp (by decide +kernel)
  have emitted : (run (step id 1) (init true 1) hearing).map (fun s => s.emitted) =
      some [.datagram 7 "a\x00b", .sessionClosed 7 "gone"] := by
    decide +kernel
  have listeners : (run (step id 1) (init true 1) hearing).map (fun s => s.listeners 0) =
      some (some ⟨0, true, [.datagramReceived 7 (Utf16.encode "a\x00b")]⟩) := by
    decide +kernel
  rw [ran] at emitted listeners
  have emitted := Option.some.inj emitted
  have listeners := Option.some.inj listeners
  dsimp only at emitted listeners
  exact ⟨s, ran, eventsHeard ran (emitted ▸ hearingRanged), by rw [listeners]; rfl⟩

theorem waitingHeard : ∃ s more t l', run (step id 1) (init true 1) hearing = some s ∧ run (step id 1) s more = some t ∧
    t.listeners 0 = some l' ∧ l'.heard = [.datagramReceived 7 (Utf16.encode "a\x00b"), .sessionClosed 7 (Utf16.encode "gone")] := by
  obtain ⟨s, ran⟩ : ∃ s, run (step id 1) (init true 1) hearing = some s := Option.isSome_iff_exists.mp (by decide +kernel)
  have events : (run (step id 1) (init true 1) hearing).map (fun s => (s.emitted, s.accepted)) =
      some ([.datagram 7 "a\x00b", .sessionClosed 7 "gone"], [.datagram 7 "a\x00b", .sessionClosed 7 "gone"]) := by
    decide +kernel
  have polling : (run (step id 1) (init true 1) hearing).map
      (fun s => (s.alive, s.registered, s.poller matches .turning 0 _)) = some (true, true, true) := by
    decide +kernel
  have listening : (run (step id 1) (init true 1) hearing).map (fun s => s.listeners 0) =
      some (some ⟨0, true, [.datagramReceived 7 (Utf16.encode "a\x00b")]⟩) := by
    decide +kernel
  rw [ran] at events polling listening
  simp only [Option.map_some, Option.some.injEq, Prod.mk.injEq] at events polling listening
  obtain ⟨emitted, accepted⟩ := events
  obtain ⟨alive, there, polls⟩ := polling
  obtain ⟨rest, at_⟩ : ∃ rest, s.poller = .turning 0 rest := by
    split at polls
    · exact ⟨_, by assumption⟩
    · cases polls
  obtain ⟨more, t, l', -, onward, heard, all⟩ :=
    acceptedHeard id 1 ran (emitted ▸ hearingRanged) alive there at_ listening rfl
  exact ⟨s, more, t, l', ran, onward, heard, by rw [all, accepted]; rfl⟩

end RkQuic.Hearing
