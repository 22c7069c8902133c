import RkQuic.LastWord

/-! What a client's map of streams holds after its session has ended. The session task
of `connect` forgets the session and announces the end; unlike the one of `accept_loop`
it leaves the streams, so only a `stream_close` ever takes one out. -/
namespace RkQuic.Endpoint
open Runs Naming

def Phase.clientSide : Phase → Prop
  | .serving _ _ | .forgetting _ _ | .closing _ _ | .closed _ _ => True
  | _ => False

def Mapped (s : State) : Prop :=
  ∀ x, x < s.fresh → (s.streams (s.exchanges x).key = some x ↔
    (s.exchanges x).taken = none ∧ ∀ y, x < y → y < s.fresh → (s.exchanges y).key ≠ (s.exchanges x).key)

theorem clientPhases {id url labels s}
    (ran : run (step (.client id url)) (init (.client id url)) labels = some s) :
    ∀ r p, s.tasks r = some p → p.clientSide := by
  refine runKeeps (P := fun s => ∀ r p, s.tasks r = some p → p.clientSide) (fun s a t old one => ?_)
    (fun r p h => ?_) ran
  · intro r p h
    cases moves one with
    | incoming server free => cases server
    | @task q input p0 p1 e here step =>
      rcases updateSome h with ⟨rfl, rfl⟩ | ⟨-, before⟩
      · have was := old r p0 here
        cases step with
        | forget server => cases server
        | serve | ended | forgetOwn | purge | close => trivial
        | _ => cases was
      · exact old r p (by simpa using before)
    | reader step =>
      rw [(readerKeeps (s := s) step).1] at h
      exact old r p h
    | enter free => exact old r p h
    | call here step => exact old r p (by simpa using h)
  · by_cases zero : r = 0
    · simp only [init, zero, if_true, Option.some.injEq] at h
      subst h
      trivial
    · simp [init, zero] at h

theorem onTaken {x : Nat} {e : Effect} (ex : Exchange) (other : ∀ id t c, e ≠ .take id t x c) :
    (e.on x ex).taken = ex.taken := by
  cases e with
  | take id t y c =>
    have apart : x ≠ y := fun same => other id t c (same ▸ rfl)
    simp [Effect.on, apart]
  | _ => simp only [Effect.on] <;> split_ifs <;> rfl

theorem mappedRegister {s : State} (mapped : Mapped s) (id : SessionId) (t : StreamId) :
    Mapped (s.apply (.register id t)) := by
  intro x less
  have less : x < s.fresh + 1 := less
  have old : ∀ y, y < s.fresh → (s.apply (.register id t)).exchanges y = s.exchanges y := by
    intro y h
    have apart : y ≠ s.fresh := by omega
    simp [State.apply, apart]
  have newest := (registered s id t).2
  by_cases last : x = s.fresh
  · subst last
    rw [newest]
    refine ⟨fun _ => ⟨rfl, fun y more bound => ?_⟩, fun _ => ?_⟩
    · have : y < s.fresh + 1 := bound
      omega
    · simp [State.apply, Exchange.key, Exchange.opened]
  · have before : x < s.fresh := by omega
    rw [old x before]
    by_cases again : (s.exchanges x).key = (id, t)
    · constructor
      · intro h
        simp only [State.apply, again, Function.update_self, Option.some.injEq] at h
        omega
      · rintro ⟨-, none_⟩
        refine absurd ?_ (none_ s.fresh before (Nat.lt_succ_self _))
        rw [newest, again]
        rfl
    · have same : (s.apply (.register id t)).streams (s.exchanges x).key = s.streams (s.exchanges x).key := by
        simp [State.apply, again]
      rw [same, mapped x before]
      refine and_congr_right fun _ => ⟨fun h y more bound => ?_, fun h y more bound => ?_⟩
      · have bound : y < s.fresh + 1 := bound
        by_cases new : y = s.fresh
        · subst new
          rw [newest]
          exact Ne.symm again
        · rw [old y (by omega)]
          exact h y more (by omega)
      · rw [← old y bound]
        exact h y more (Nat.lt_succ_of_lt bound)

theorem mappedTake {s : State} (keyed : Keyed s) (mapped : Mapped s) {id : SessionId} {t : StreamId}
    {y c : Nat} (found : s.streams (id, t) = some y) : Mapped (s.apply (.take id t y c)) := by
  obtain ⟨within, key⟩ := keyed.streams (id, t) y found
  intro x less
  have less : x < s.fresh := less
  have keys : ∀ z, z < s.fresh → ((s.apply (.take id t y c)).exchanges z).key = (s.exchanges z).key := by
    intro z h
    rw [applyExchange s (.take id t y c) (.inl h), onKey]
  have later : (∀ z, x < z → z < (s.apply (.take id t y c)).fresh →
      ((s.apply (.take id t y c)).exchanges z).key ≠ ((s.apply (.take id t y c)).exchanges x).key) ↔
      ∀ z, x < z → z < s.fresh → (s.exchanges z).key ≠ (s.exchanges x).key := by
    refine forall_congr' fun z => forall_congr' fun _ => ⟨fun h bound => ?_, fun h bound => ?_⟩
    · rw [← keys z bound, ← keys x less]
      exact h bound
    · rw [keys z bound, keys x less]
      exact h bound
  rw [later, keys x less, applyExchange s (.take id t y c) (.inl less)]
  by_cases self : x = y
  · subst self
    simp [State.apply, Effect.on, key]
  · have kept : (Effect.take id t y c).on x (s.exchanges x) = s.exchanges x := by simp [Effect.on, self]
    rw [kept, ← mapped x less]
    by_cases same : (s.exchanges x).key = (id, t)
    · simp [State.apply, same, found, Ne.symm self]
    · simp [State.apply, same]

theorem mappedElse {s : State} {e : Effect} (mapped : Mapped s) (streams : (s.apply e).streams = s.streams)
    (fresh : (s.apply e).fresh = s.fresh) (notTake : ∀ id t x c, e ≠ .take id t x c) :
    Mapped (s.apply e) := by
  intro x less
  rw [fresh] at less
  have after : ∀ y, y < s.fresh → (s.apply e).exchanges y = e.on y (s.exchanges y) :=
    fun y h => applyExchange s e (.inl h)
  rw [after x less, onKey, onTaken _ fun id t => notTake id t x, streams, mapped x less, fresh]
  refine and_congr_right fun _ => forall_congr' fun y => forall_congr' fun _ => ?_
  refine ⟨fun h bound => ?_, fun h bound => ?_⟩
  · rw [after y bound, onKey]; exact h bound
  · have := h bound
    rwa [after y bound, onKey] at this

def Effect.mapping : Effect → Prop
  | .register _ _ | .take _ _ _ _ | .retain _ => True
  | _ => False

theorem applyUnmapped {s : State} {e : Effect} (other : ¬ e.mapping) :
    (s.apply e).streams = s.streams ∧ (s.apply e).fresh = s.fresh ∧ ∀ id t x c, e ≠ .take id t x c := by
  cases e <;> simp_all [Effect.mapping, State.apply]

theorem clientTaskMaps {id url next fresh r p input p' e} (side : p.clientSide)
    (move : TaskMove (.client id url) next fresh r p input p' e) :
    ¬ e.mapping ∨ ∃ se t, p = .serving se (.registering t) ∧ e = .register se.id t := by
  cases move with
  | @serve se loop loop' input e move =>
    cases move with
    | register t => exact .inr ⟨se, t, rfl, rfl⟩
    | _ => exact .inl not_false
  | _ => first | exact .inl not_false | cases side

theorem callMaps {s c k reply k' e} (move : CallMove s c k reply k' e) :
    ¬ e.mapping ∨ (∃ id t x, e = .take id t x c ∧ s.streams (id, t) = some x) ∨
      ∃ id t, k.opening = some id ∧ e = .register id t := by
  cases move with
  | closeTake found => exact .inr (.inl ⟨_, _, _, rfl, found⟩)
  | openRegister => exact .inr (.inr ⟨_, _, rfl, rfl⟩)
  | _ => exact .inl not_false

theorem readerUnmapped {id t reader input reader' e} (move : ReaderMove id t reader input reader' e) :
    ¬ e.mapping := by
  cases move <;> exact not_false

theorem mappedStep {id url s a t} (move : Move (.client id url) s a t)
    (phases : ∀ r p, s.tasks r = some p → p.clientSide) (keyed : Keyed s) (mapped : Mapped s) :
    Mapped t := by
  cases move with
  | incoming server free => cases server
  | @task r input p p' e here step =>
    have after : Mapped (s.apply e) := by
      rcases clientTaskMaps (phases r p here) step with other | ⟨se, t, -, rfl⟩
      · obtain ⟨streams, fresh, notTake⟩ := applyUnmapped (s := s) other
        exact mappedElse mapped streams fresh notTake
      · exact mappedRegister mapped se.id t
    exact after
  | @reader y input reader' e step =>
    have same : ∀ x, ((s.edit y (fun ex => {ex with reader := reader'})).exchanges x).key =
        (s.exchanges x).key ∧
        ((s.edit y (fun ex => {ex with reader := reader'})).exchanges x).taken = (s.exchanges x).taken := by
      intro x
      rw [editExchange]
      split_ifs <;> exact ⟨rfl, rfl⟩
    have edited : Mapped (s.edit y (fun ex => {ex with reader := reader'})) := by
      intro x less
      simp only [same]
      exact mapped x less
    obtain ⟨streams, fresh, notTake⟩ := applyUnmapped (readerUnmapped step)
    exact mappedElse edited streams fresh notTake
  | enter free => exact mapped
  | @call c reply k k' e here step =>
    have after : Mapped (s.apply e) := by
      rcases callMaps step with other | ⟨i, t, x, rfl, found⟩ | ⟨i, t, -, rfl⟩
      · obtain ⟨streams, fresh, notTake⟩ := applyUnmapped (s := s) other
        exact mappedElse mapped streams fresh notTake
      · exact mappedTake keyed mapped found
      · exact mappedRegister mapped i t
    exact after

theorem mappedRun {id url labels s}
    (ran : run (step (.client id url)) (init (.client id url)) labels = some s) : Mapped s := by
  refine runHistory (P := fun _ s => Mapped s) (fun x less => ?_) (fun as s a t before old one => ?_) ran
  · exact absurd less (Nat.not_lt_zero x)
  · exact mappedStep (moves one) (clientPhases before) (keyedRun before) old

/-! The end of the session, with no open_stream left open. -/

/-- Open_stream is asked for the session while it is served, and has answered by its end. -/
def OpensInTime (id : SessionId) (s : State) : Label → Prop
  | .enter _ (.openStream i) => i = id → ∃ r se loop, s.tasks r = some (.serving se loop)
  | .task _ (.ended _) =>
    ∀ c k, s.calls c = some k → k.method = .openStream id → ∃ a, k.progress = .returned a
  | _ => True

structure Over (id : SessionId) (s : State) : Prop where
  tasks : ∀ r se loop, s.tasks r ≠ some (.serving se loop)
  calls : ∀ c k, s.calls c = some k → k.method = .openStream id → ∃ a, k.progress = .returned a

theorem overStep {id url s a t} (move : Move (.client id url) s a t)
    (phases : ∀ r p, s.tasks r = some p → p.clientSide) (inTime : OpensInTime id s a) (past : Over id s) :
    Over id t := by
  cases move with
  | incoming server free => cases server
  | @task r input p p' e here step =>
    refine ⟨fun q se loop h => ?_, fun c k h => past.calls c k (by simpa using h)⟩
    rcases updateSome h with ⟨rfl, rfl⟩ | ⟨-, old⟩
    · cases step with
      | open_ => exact phases q _ here
      | serve => exact past.tasks q _ _ here
    · exact past.tasks q se loop (by simpa using old)
  | reader step =>
    obtain ⟨tasks, -, -, -, -, calls⟩ := readerKeeps (s := s) step
    exact ⟨tasks ▸ past.tasks, calls ▸ past.calls⟩
  | @enter c method free =>
    refine ⟨past.tasks, fun d k h opens => ?_⟩
    rcases updateSome h with ⟨-, rfl⟩ | ⟨-, old⟩
    · subst opens
      obtain ⟨r, se, loop, serving⟩ := inTime rfl
      exact absurd serving (past.tasks r se loop)
    · exact past.calls d k old opens
  | @call c reply k k' e here step =>
    refine ⟨fun r se loop h => past.tasks r se loop (by simpa using h), fun d k1 h opens => ?_⟩
    rcases updateSome h with ⟨rfl, rfl⟩ | ⟨-, old⟩
    · obtain ⟨answer, replied⟩ := past.calls d k here ((callKeeps step).2.2.2.2.symm.trans opens)
      exact absurd replied (returnedStays step)
    · exact past.calls d k1 (by simpa using old) opens

theorem overOnceEnded {id url labels s}
    (ran : run (step (.client id url)) (init (.client id url)) labels = some s)
    (inTime : Along (step (.client id url)) (OpensInTime id) (init (.client id url)) labels) :
    (∃ r se loop, s.tasks r = some (.serving se loop)) ∨ Over id s := by
  have all := alongKeeps (P := fun u => (∃ as, run (step (.client id url)) (init (.client id url)) as = some u) ∧
      ((∃ r se loop, u.tasks r = some (.serving se loop)) ∨ Over id u))
    (fun u a v old inTime one => ?_) ⟨⟨[], rfl⟩, .inl ⟨0, _, _, rfl⟩⟩ inTime ran
  · exact all.2
  · obtain ⟨⟨as, before⟩, old⟩ := old
    refine ⟨⟨as ++ [a], runSnoc.mpr ⟨u, before, one⟩⟩, ?_⟩
    have phases := clientPhases before
    have only := (clientKept before).1.1
    rcases old with ⟨r, se, loop, serving⟩ | past
    · have move := moves one
      cases move with
      | incoming server free => cases server
      | @task q input p p' e here step =>
        cases only r _ serving
        cases only q p here
        cases Option.some.inj (serving.symm.trans here)
        cases step with
        | @serve se loop loop' input e move => exact .inl ⟨0, se, loop', by simp⟩
        | ended _ reason =>
          refine .inr ⟨fun q se loop h => ?_, inTime⟩
          rcases updateSome h with ⟨rfl, same⟩ | ⟨other, old⟩
          · cases same
          · exact other (only q _ old)
      | reader step =>
        rw [(readerKeeps (s := u) step).1]
        exact .inl ⟨r, se, loop, serving⟩
      | enter free => exact .inl ⟨r, se, loop, serving⟩
      | call here step => exact .inl ⟨r, se, loop, by simpa using serving⟩
    · exact .inr (overStep (moves one) phases inTime past)

def Forgotten (role : Role) (id : SessionId) (s : State) : Prop :=
  ∀ reason, .sessionClosed id reason ∈ s.emitted →
    (∀ t, s.streams (id, t) = none) ∧
    ∀ c (method : Method), method.on id → s.calls c = some ⟨method, .entered, []⟩ → Refuses role s c method

/-- Every stream registered on the session has been taken out by a `stream_close`, or
its key has been registered anew. -/
def AllTaken (id : SessionId) (s : State) : Prop :=
  ∀ x, x < s.fresh → (s.exchanges x).session = id →
    (s.exchanges x).taken ≠ none ∨
      ∃ y, x < y ∧ y < s.fresh ∧ (s.exchanges y).key = (s.exchanges x).key

theorem emitsUnmapped {role s a t event} (move : Move role s a t)
    (emitted : t.emitted = s.emitted ++ [event]) : t.streams = s.streams := by
  cases move with
  | incoming server free => rfl
  | @task r input p p' e here step =>
    cases eventsOne (List.append_cancel_left ((applyEmitted s e).symm.trans emitted))
    rfl
  | reader step => exact (readerKeeps (s := s) step).2.2.1
  | enter free => rfl
  | call here step =>
    have same := (callKeeps step).2.1
    simp [same] at emitted

theorem allTakenIff {id : SessionId} {s : State} (keyed : Keyed s) (mapped : Mapped s) :
    AllTaken id s ↔ ∀ t, s.streams (id, t) = none := by
  constructor
  · intro all t
    by_contra some_
    obtain ⟨x, found⟩ := Option.ne_none_iff_exists'.mp some_
    obtain ⟨less, key⟩ := keyed.streams (id, t) x found
    obtain ⟨free, last⟩ := (mapped x less).mp (key ▸ found)
    rcases all x less (congrArg Prod.fst key) with taken | ⟨y, more, bound, same⟩
    · exact taken free
    · exact last y more bound same
  · intro none_ x less own
    by_contra neither
    rw [not_or, not_not] at neither
    have found := (mapped x less).mpr ⟨neither.1, fun y more bound same => neither.2 ⟨y, more, bound, same⟩⟩
    have key : (s.exchanges x).key = (id, (s.exchanges x).stream) := by simp [Exchange.key, own]
    rw [key, none_] at found
    cases found

theorem noneStays {id url s a t} (move : Move (.client id url) s a t)
    (phases : ∀ r p, s.tasks r = some p → p.clientSide) (past : Over id s)
    (none_ : ∀ u, s.streams (id, u) = none) (u : StreamId) : t.streams (id, u) = none := by
  by_contra some_
  obtain ⟨x, found⟩ := Option.ne_none_iff_exists'.mp some_
  have clash : ∀ {e : Effect}, (s.apply e).streams (id, u) = some x → e = .register id u := by
    intro e h
    rcases applyStreams h with old | ⟨rfl, -⟩
    · rw [none_] at old; cases old
    · rfl
  cases move with
  | incoming server free => cases server
  | @task r input p p' e here step =>
    have same := clash found
    rcases clientTaskMaps (phases r p here) step with other | ⟨se, v, rfl, -⟩
    · rw [same] at other; exact other trivial
    · exact past.tasks r se _ here
  | reader step =>
    rw [(readerKeeps (s := s) step).2.2.1, none_] at found
    cases found
  | enter free => rw [none_] at found; cases found
  | @call c reply k k' e here step =>
    have same := clash found
    subst same
    cases step with
    | openRegister =>
      obtain ⟨answer, replied⟩ := past.calls c _ here rfl
      cases replied

theorem closedOver {id url labels s} {reason : String}
    (ran : run (step (.client id url)) (init (.client id url)) labels = some s)
    (inTime : Along (step (.client id url)) (OpensInTime id) (init (.client id url)) labels)
    (closed : .sessionClosed id reason ∈ s.emitted) : Over id s := by
  obtain ⟨⟨only, -⟩, kept⟩ := clientKept ran
  obtain ⟨q, se, there, -⟩ := closedTask kept.told closed
  rcases overOnceEnded ran inTime with ⟨r, se', loop, serving⟩ | past
  · cases only q _ there
    cases only r _ serving
    cases there.symm.trans serving
  · exact past

theorem streamsForgottenIffTaken {id url labels s}
    (ran : run (step (.client id url)) (init (.client id url)) labels = some s)
    (inTime : Along (step (.client id url)) (OpensInTime id) (init (.client id url)) labels) :
    (∀ before u, before <+: labels →
      run (step (.client id url)) (init (.client id url)) before = some u →
        Forgotten (.client id url) id u) ↔
    ∀ u a v reason, Takes (step (.client id url)) (init (.client id url)) labels u a v →
      v.emitted = u.emitted ++ [.sessionClosed id reason] → AllTaken id u := by
  constructor
  · intro forgotten u a v reason takes emitted
    obtain ⟨before, after, rfl, reached, one, -⟩ := takesSplit ran takes
    have next : run (step (.client id url)) (init (.client id url)) (before ++ [a]) = some v :=
      runSnoc.mpr ⟨u, reached, one⟩
    have none_ := (forgotten (before ++ [a]) v ⟨after, by simp⟩ next reason (by simp [emitted])).1
    refine (allTakenIff (keyedRun reached) (mappedRun reached)).mpr fun t => ?_
    rw [← emitsUnmapped (moves one) emitted]
    exact none_ t
  · intro taken
    have none_ : ∀ before u, run (step (.client id url)) (init (.client id url)) before = some u →
        before <+: labels → ∀ reason, .sessionClosed id reason ∈ u.emitted →
          ∀ t, u.streams (id, t) = none := by
      intro before u reached
      refine runHistory (P := fun before u => before <+: labels → ∀ reason,
        .sessionClosed id reason ∈ u.emitted → ∀ t, u.streams (id, t) = none)
        (fun _ reason closed => by simp [init] at closed) (fun as u a v sofar old one within reason closed => ?_)
        reached
      have earlier : as <+: labels := (List.prefix_append _ _).trans within
      have stays : .sessionClosed id reason ∈ u.emitted → ∀ t, v.streams (id, t) = none := by
        intro before
        have met : Along (step (.client id url)) (OpensInTime id) (init (.client id url)) as := by
          obtain ⟨rest, rfl⟩ := earlier
          exact ((alongAppend sofar).mp inTime).1
        exact noneStays (moves one) (clientPhases sofar) (closedOver sofar met before)
          (old earlier reason before)
      rcases emitsOne (moves one) with same | ⟨event, emitted⟩
      · exact stays (same ▸ closed)
      · rcases List.mem_append.mp (emitted ▸ closed) with before | last
        · exact stays before
        · cases List.mem_singleton.mp last
          obtain ⟨after, rfl⟩ := within
          have all := taken u a v reason ⟨as, after, by simp, sofar, one⟩ emitted
          rw [emitsUnmapped (moves one) emitted]
          exact (allTakenIff (keyedRun sofar) (mappedRun sofar)).mp all
    intro before u within reached reason closed
    have gone := none_ before u reached within reason closed
    exact ⟨gone, fun c method on here =>
      refusesGone (sessionGone (clientKept reached).2 closed) gone on here⟩

def openedStream : List Label :=
  [.enter 0 (.openStream 7), .call 0 .go, .call 0 (.opened 0), .call 0 .go, .call 0 .go]

def endedSession : List Label := [.task 0 (.ended "gone"), .task 0 .go, .task 0 .go]

theorem openedStreamRun :
    (run (step (.client 7 "https://till")) (init (.client 7 "https://till")) openedStream).map
        (fun s => s.calls 0) = some (some ⟨.openStream 7, .returned (.stream 0), []⟩) := by
  decide

theorem openedStreamInTime :
    Along (step (.client 7 "https://till")) (OpensInTime 7) (init (.client 7 "https://till"))
      (openedStream ++ endedSession) := by
  obtain ⟨u, ran, answered⟩ := Option.map_eq_some_iff.mp openedStreamRun
  have quiet : ∀ s : State, ∀ a : Label, ((∃ reply, a = .call 0 reply) ∨ a = .task 0 .go) →
      OpensInTime 7 s a := by
    rintro s a (⟨reply, rfl⟩ | rfl) <;> trivial
  refine (alongAppend ran).mpr ⟨⟨fun _ => ⟨0, _, _, rfl⟩, fun t _ => ?_⟩, ⟨fun c k here _ => ?_, fun t _ => ?_⟩⟩
  · exact alongMono quiet (alongForall (by simp))
  · have entered := callsEntered (fun _ => rfl) ran here
    have zero : c = 0 := by
      simp only [openedStream, List.mem_cons, Label.enter.injEq, reduceCtorEq, List.not_mem_nil,
        or_false] at entered
      exact entered.1
    subst zero
    cases Option.some.inj (here.symm.trans answered)
    exact ⟨_, rfl⟩
  · exact alongMono quiet (alongForall (by simp))

theorem leakEnds :
    (run (step (.client 7 "https://till")) (init (.client 7 "https://till"))
        (openedStream ++ endedSession)).map (fun s => (s.emitted, s.streams (7, 0))) =
      some ([.sessionOpened 7 "" "https://till", .sessionClosed 7 "gone"], some 0) := by
  decide

theorem leakLeft : ∃ s, run (step (.client 7 "https://till")) (init (.client 7 "https://till"))
    (openedStream ++ endedSession) = some s ∧ .sessionClosed 7 "gone" ∈ s.emitted ∧ s.streams (7, 0) = some 0 := by
  obtain ⟨s, ran, said⟩ := Option.map_eq_some_iff.mp leakEnds
  obtain ⟨emitted, left⟩ := Prod.mk.inj said
  exact ⟨s, ran, by simp [emitted], left⟩

theorem leftNotForgotten {role : Role} {id : SessionId} {s : State} {reason : String} {t : StreamId} {x : Nat}
    (closed : .sessionClosed id reason ∈ s.emitted) (left : s.streams (id, t) = some x) : ¬ Forgotten role id s := by
  intro forgotten
  have gone := (forgotten reason closed).1 t
  rw [left] at gone
  cases gone

theorem openedStreamNotTaken :
    ¬ ∀ u a v reason, Takes (step (.client 7 "https://till")) (init (.client 7 "https://till"))
        (openedStream ++ endedSession) u a v →
      v.emitted = u.emitted ++ [.sessionClosed 7 reason] → AllTaken 7 u := by
  obtain ⟨s, ran, closed, left⟩ := leakLeft
  intro taken
  have forgotten := (streamsForgottenIffTaken ran openedStreamInTime).mpr taken
  exact leftNotForgotten closed left (forgotten _ s List.prefix_rfl ran)

theorem leftInTheMap :
    ∃ s, run (step (.client 7 "https://till")) (init (.client 7 "https://till"))
        (openedStream ++ endedSession) = some s ∧
      Along (step (.client 7 "https://till")) (OpensInTime 7) (init (.client 7 "https://till"))
        (openedStream ++ endedSession) ∧
      .sessionClosed 7 "gone" ∈ s.emitted ∧ s.streams (7, 0) = some 0 ∧
      ¬ Forgotten (.client 7 "https://till") 7 s := by
  obtain ⟨s, ran, closed, left⟩ := leakLeft
  exact ⟨s, ran, openedStreamInTime, closed, left, leftNotForgotten closed left⟩

end RkQuic.Endpoint
