import RkQuic.Channel
import RkQuic.Event

/-! The event queue of one endpoint: `emit` at one end, `next_event` at the other.
Both ends are linearizable operations of a std channel, so an interleaving of any
number of tasks and callers is a list of calls. The reference is the policy that
`EVENT_QUEUE_DEPTH` and `emit` both state; it is compared with the code and is not
read off it. -/
namespace RkQuic.EventQueue
open Channel

def eventQueueDepth : Nat := 1024

def emit (tx : SyncChannel Event) (event : Event) : SyncChannel Event :=
  match tx.trySend event with
  | .ok tx => tx
  | .error (.full _) | .error (.disconnected _) => tx

/- `None` stands for the expired wait; the lock around the receiver is never poisoned,
because nothing under it can panic. -/
def nextEvent (events : SyncChannel Event) : Option Event × SyncChannel Event :=
  events.recvTimeout

theorem emitRoom {tx : SyncChannel Event} (live : tx.receiver = true)
    (room : tx.waiting.length < tx.bound) (event : Event) :
    (emit tx event).waiting = tx.waiting ++ [event] := by
  simp [emit, SyncChannel.trySendRoom live room]

theorem emitFull {tx : SyncChannel Event} (full : ¬ tx.waiting.length < tx.bound) (event : Event) :
    emit tx event = tx := by
  cases live : tx.receiver with
  | false => simp [emit, SyncChannel.trySend, live]
  | true => simp [emit, SyncChannel.trySendFull live full]

@[simp] theorem emitEnds (tx : SyncChannel Event) (event : Event) :
    (emit tx event).bound = tx.bound ∧ (emit tx event).receiver = tx.receiver := by
  unfold emit SyncChannel.trySend
  split_ifs <;> simp

inductive Call where
  | emit (event : Event)
  | nextEvent
  deriving DecidableEq, Repr

structure Served where
  queue : SyncChannel Event
  returned : List (Option Event)
  deriving DecidableEq, Repr

def serve (s : Served) : Call → Served
  | .emit event => {s with queue := emit s.queue event}
  | .nextEvent => ⟨(nextEvent s.queue).2, s.returned ++ [(nextEvent s.queue).1]⟩

def served (calls : List Call) : Served :=
  calls.foldl serve ⟨SyncChannel.syncChannel eventQueueDepth, []⟩

structure Reference where
  waiting : List Event
  returned : List (Option Event)
  deriving DecidableEq, Repr

def refer (r : Reference) : Call → Reference
  | .emit event => {r with waiting := pushDroppingOldest eventQueueDepth r.waiting event}
  | .nextEvent => ⟨r.waiting.tail, r.returned ++ [r.waiting.head?]⟩

def reference (calls : List Call) : Reference := calls.foldl refer ⟨[], []⟩

theorem servedSnoc (calls : List Call) (call : Call) :
    served (calls ++ [call]) = serve (served calls) call := by
  simp [served]

theorem referenceSnoc (calls : List Call) (call : Call) :
    reference (calls ++ [call]) = refer (reference calls) call := by
  simp [reference]

theorem servedEnds (calls : List Call) :
    (served calls).queue.bound = eventQueueDepth ∧ (served calls).queue.receiver = true := by
  induction calls using List.reverseRecOn with
  | nil => exact ⟨rfl, rfl⟩
  | append_singleton calls call ih =>
    rw [servedSnoc]
    cases call with
    | emit event => simpa [serve] using ih
    | nextEvent => simpa [serve, nextEvent] using ih

theorem servedWithin (calls : List Call) :
    (served calls).queue.waiting.length ≤ eventQueueDepth :=
  (servedEnds calls).1 ▸ (served calls).queue.within

def Agrees (calls : List Call) : Prop :=
  (served calls).queue.waiting = (reference calls).waiting ∧
  (served calls).returned = (reference calls).returned

structure OverflowPolicy (calls : List Call) : Prop where
  bounded : ∀ before, before <+: calls → (served before).queue.waiting.length ≤ eventQueueDepth
  agrees : ∀ before, before <+: calls → Agrees before
  newest : ∀ before event, before ++ [.emit event] <+: calls →
    event ∈ (served (before ++ [.emit event])).queue.waiting
  burst : ∀ before (events : List Event) n,
    before ++ events.map .emit ++ List.replicate n .nextEvent <+: calls →
    (served before).queue.waiting = [] → n ≤ min events.length eventQueueDepth →
    (served (before ++ events.map .emit ++ List.replicate n .nextEvent)).returned =
      (served before).returned ++
        (((events.drop (events.length - eventQueueDepth)).take n).map some)

/-- An emit has room, or the queue it finds full holds nothing but that same event. -/
def Room (waiting : List Event) (event : Event) : Prop :=
  waiting.length < eventQueueDepth ∨ ∀ x ∈ waiting, x = event

def FindsRoom (calls : List Call) : Prop :=
  ∀ before event, before ++ [.emit event] <+: calls → Room (served before).queue.waiting event

theorem findsRoomPrefix {before calls : List Call} (within : before <+: calls)
    (room : FindsRoom calls) : FindsRoom before :=
  fun first event h => room first event (h.trans within)

theorem agreeingStep {calls : List Call} (agrees : Agrees calls) (call : Call)
    (room : ∀ event, call = .emit event → Room (served calls).queue.waiting event) :
    Agrees (calls ++ [call]) := by
  obtain ⟨bound, live⟩ := servedEnds calls
  rw [Agrees, servedSnoc, referenceSnoc]
  cases call with
  | nextEvent => simp [serve, refer, nextEvent, agrees.1, agrees.2]
  | emit event =>
    refine ⟨?_, agrees.2⟩
    simp only [serve, refer, ← agrees.1, pushDroppingOldest]
    by_cases fits : (served calls).queue.waiting.length < eventQueueDepth
    · rw [if_pos fits, emitRoom live (bound ▸ fits)]
    · rw [if_neg fits, emitFull (bound ▸ fits)]
      have nonempty : (served calls).queue.waiting ≠ [] := by
        intro none
        simp [none, eventQueueDepth] at fits
      exact (tailSnocOfEqual nonempty ((room event rfl).resolve_left fits)).symm

theorem agreesOfRoom {calls : List Call} (room : FindsRoom calls) : Agrees calls := by
  induction calls using List.reverseRecOn with
  | nil => exact ⟨rfl, rfl⟩
  | append_singleton calls call ih =>
    refine agreeingStep (ih (findsRoomPrefix (List.prefix_append _ _) room)) call ?_
    rintro event rfl
    exact room calls event (List.prefix_refl _)

theorem roomOfAgrees {calls : List Call}
    (agrees : ∀ before, before <+: calls → Agrees before) : FindsRoom calls := by
  intro before event within
  by_cases fits : (served before).queue.waiting.length < eventQueueDepth
  · exact .inl fits
  · have now := (agrees before ((List.prefix_append _ _).trans within)).1
    have after := (agrees _ within).1
    rw [servedSnoc, referenceSnoc] at after
    simp only [serve, refer, ← now, pushDroppingOldest, if_neg fits] at after
    rw [emitFull ((servedEnds before).1 ▸ fits)] at after
    exact .inr (tailSnocSelf after.symm)

theorem referenceEmits (before : List Call) (events : List Event) :
    reference (before ++ events.map .emit) =
      ⟨events.foldl (pushDroppingOldest eventQueueDepth) (reference before).waiting,
        (reference before).returned⟩ := by
  induction events using List.reverseRecOn with
  | nil => simp
  | append_singleton events event ih =>
    rw [List.map_append, List.map_singleton, ← List.append_assoc, referenceSnoc, ih]
    simp [refer]

theorem referencePolls (before : List Call) (n : Nat) (enough : n ≤ (reference before).waiting.length) :
    reference (before ++ List.replicate n .nextEvent) =
      ⟨(reference before).waiting.drop n,
        (reference before).returned ++ ((reference before).waiting.take n).map some⟩ := by
  induction n with
  | zero => simp
  | succ n ih =>
    have left : n < (reference before).waiting.length := by omega
    rw [List.replicate_succ', ← List.append_assoc, referenceSnoc, ih (by omega)]
    simp only [refer, List.tail_drop, List.head?_drop, List.append_assoc, List.take_add_one,
      List.map_append, List.getElem?_eq_getElem left, Option.toList_some, List.map_singleton]

theorem referenceBurst (before : List Call) (events : List Event) (n : Nat)
    (empty : (reference before).waiting = []) (enough : n ≤ min events.length eventQueueDepth) :
    (reference (before ++ events.map .emit ++ List.replicate n .nextEvent)).returned =
      (reference before).returned ++
        (((events.drop (events.length - eventQueueDepth)).take n).map some) := by
  have kept : (reference (before ++ events.map .emit)).waiting =
      events.drop (events.length - eventQueueDepth) := by
    rw [referenceEmits, empty, pushesKeepSuffix (by decide) (Nat.zero_le _)]
    simp
  have length : n ≤ (reference (before ++ events.map .emit)).waiting.length := by
    rw [kept, List.length_drop]
    omega
  rw [referencePolls _ n length, kept, referenceEmits]

theorem overflowPolicyIffRoom (calls : List Call) : OverflowPolicy calls ↔ FindsRoom calls := by
  constructor
  · intro policy
    exact roomOfAgrees policy.agrees
  · intro room
    have agrees : ∀ before, before <+: calls → Agrees before :=
      fun before within => agreesOfRoom (findsRoomPrefix within room)
    refine ⟨fun before _ => servedWithin before, agrees, ?_, ?_⟩
    · intro before event within
      rw [(agrees _ within).1, referenceSnoc]
      exact pushKeepsNewest _ _
    · intro before events n within empty enough
      have start : before <+: calls :=
        ((List.prefix_append _ _).trans (List.prefix_append _ _)).trans within
      have nothing : (reference before).waiting = [] := by rw [← (agrees before start).1, empty]
      rw [(agrees _ within).2, (agrees before start).2, referenceBurst before events n nothing enough]

theorem emitsKeepPrefix (events : List Event) :
    (served (events.map .emit)).queue.waiting = events.take eventQueueDepth := by
  induction events using List.reverseRecOn with
  | nil => rfl
  | append_singleton events event ih =>
    obtain ⟨bound, live⟩ := servedEnds (events.map .emit)
    rw [List.map_append, List.map_singleton, servedSnoc]
    simp only [serve]
    by_cases fits : events.length < eventQueueDepth
    · rw [emitRoom live (by rw [ih, bound, List.length_take]; omega), ih,
        List.take_of_length_le (by omega), List.take_of_length_le (by simp; omega)]
    · rw [emitFull (by rw [ih, bound, List.length_take]; omega), ih,
        List.take_append_of_le_length (by omega)]

def filling : List Event :=
  .sessionOpened 1 "till.local" "/rk" :: List.replicate 1023 (.datagram 1 "x")

theorem fillingFills : filling.length = eventQueueDepth := by
  rw [filling, List.length_cons, List.length_replicate, eventQueueDepth]

theorem closingIsTheOneLost :
    ¬ OverflowPolicy ((filling ++ [Event.sessionClosed 1 "peer gone"]).map .emit) := by
  intro policy
  have kept := policy.newest (filling.map .emit) (.sessionClosed 1 "peer gone")
    (by rw [List.map_append, List.map_singleton])
  rw [← List.map_singleton, ← List.map_append, emitsKeepPrefix, ← fillingFills,
    List.take_left] at kept
  rcases List.mem_cons.mp kept with head | rest
  · exact Event.noConfusion head
  · exact Event.noConfusion (List.eq_of_mem_replicate rest)

end RkQuic.EventQueue
