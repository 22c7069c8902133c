import RkQuic.LastWord

/-! Streams that `open_stream` registers on a server's session while its teardown runs.
The teardown purges the map once, so a stream registered after that belongs to nobody. -/
namespace RkQuic.Endpoint
open Runs Naming

def Phase.remembered : Phase → Option SessionId
  | .opening se | .serving se _ | .forgetting se _ | .purging se _ | .closing se _ | .closed se _ => some se.id
  | _ => none

def Phase.unpurged : Phase → Option SessionId
  | .opening se | .serving se _ | .forgetting se _ | .purging se _ => some se.id
  | _ => none

def State.unpurged (s : State) (id : SessionId) : Prop := ∃ r, (s.tasks r).bind Phase.unpurged = some id

/-- When `open_stream` puts its stream into the map, the session's purge is to come. -/
def RegistersInTime (id : SessionId) (s : State) (a : Label) : Prop :=
  ∀ c t sent, a = .call c .go → s.calls c = some ⟨.openStream id, .registering t, sent⟩ → s.unpurged id

def Claimed (id : SessionId) (s : State) : Prop :=
  ∀ t x, s.streams (id, t) = some x → s.unpurged id

theorem unpurgedSession {p : Phase} {id} (h : p.unpurged = some id) :
    ∃ se, p.session = some se ∧ se.id = id ∧ ∀ reason, p ≠ .closed se reason := by
  cases p <;> cases h <;> exact ⟨_, rfl, rfl, fun _ => Phase.noConfusion⟩

theorem unpurgedTask {expected next fresh r p input p' e} (move : TaskMove (.server expected) next fresh r p input p' e)
    {id} (h : p.unpurged = some id) :
    p'.unpurged = some id ∨ ∃ se reason, p = .purging se reason ∧ e = .retain id := by
  cases move with
  | purge se reason =>
    cases h
    exact .inr ⟨se, reason, rfl, rfl⟩
  | forgetOwn client => cases client
  | _ => first | exact .inl h | cases h

theorem unpurgedStays {s t : State} {id r p'} (unpurged : s.unpurged id)
    (tasks : t.tasks = Function.update s.tasks r (some p'))
    (keeps : (s.tasks r).bind Phase.unpurged = some id → p'.unpurged = some id) : t.unpurged id := by
  obtain ⟨q, waits⟩ := unpurged
  refine ⟨q, ?_⟩
  rw [tasks]
  by_cases same : q = r
  · subst same
    simpa using keeps waits
  · rw [Function.update_of_ne same]
    exact waits

theorem taskClaims {expected s r p input p' e id} (claimed : Claimed id s) (here : s.tasks r = some p)
    (move : TaskMove (.server expected) s.next s.fresh r p input p' e) :
    Claimed id {s.apply e with tasks := Function.update s.tasks r (some p')} := by
  intro t x there
  have earlier : s.streams (id, t) = some x ∨ (s.tasks r).bind Phase.unpurged = some id := by
    cases move with
    | @serve se loop loop' input e step =>
      refine (loopOwns step there).imp_right fun same => ?_
      rw [here]
      exact congrArg some same.symm
    | purge se reason =>
      simp only [State.apply] at there
      split at there
      · exact .inl there
      · cases there
    | forgetOwn client => cases client
    | _ => exact .inl there
  have unpurged : s.unpurged id := earlier.elim (claimed t x) fun mine => ⟨r, mine⟩
  refine @unpurgedStays _ _ _ _ p' unpurged rfl fun mine => ?_
  rw [here] at mine
  rcases unpurgedTask move mine with still | ⟨se, reason, rfl, rfl⟩
  · exact still
  · simp [State.apply] at there

theorem callClaims {s c k reply k' e id} (claimed : Claimed id s) (here : s.calls c = some k)
    (inTime : RegistersInTime id s (.call c reply)) (move : CallMove s c k reply k' e) :
    Claimed id {s.apply e with calls := Function.update s.calls c (some k')} := by
  have tasks : ∀ {u}, s.unpurged u → State.unpurged {s.apply e with calls := Function.update s.calls c (some k')} u := by
    rintro u ⟨r, waits⟩
    exact ⟨r, by simpa using waits⟩
  intro t x there
  cases move with
  | @openRegister id' sent t' =>
    rcases updateSome there with ⟨same, -⟩ | ⟨-, old⟩
    · cases same
      exact tasks (inTime c t sent rfl here)
    · exact tasks (claimed t x old)
  | @closeTake id' t' sent y found =>
    have old : s.streams (id, t) = some x := (updateNone there).2
    exact tasks (claimed t x old)
  | _ => exact tasks (claimed t x there)

theorem claimedStep {expected s a t id} (move : Move (.server expected) s a t)
    (inTime : RegistersInTime id s a) (claimed : Claimed id s) : Claimed id t := by
  cases move with
  | @incoming r _ server free =>
    intro u x there
    refine @unpurgedStays _ _ _ _ .handshake (claimed u x there) rfl fun mine => ?_
    rw [free] at mine
    cases mine
  | task here step => exact taskClaims claimed here step
  | reader step =>
    obtain ⟨tasks, -, streams, -⟩ := readerKeeps (s := s) step
    unfold Claimed State.unpurged
    rw [tasks, streams]
    exact claimed
  | enter free => exact claimed
  | call here step => exact callClaims claimed here inTime step

theorem closedUnclaimed {s id reason} (kept : Kept s) (claimed : Claimed id s)
    (closed : .sessionClosed id reason ∈ s.emitted) (t : StreamId) : s.streams (id, t) = none := by
  by_contra some_
  obtain ⟨x, entry⟩ := Option.ne_none_iff_exists'.mp some_
  obtain ⟨r, waits⟩ := claimed t x entry
  obtain ⟨p, here, unpurged⟩ := Option.bind_eq_some_iff.mp waits
  obtain ⟨se, session, same, open_⟩ := unpurgedSession unpurged
  exact open_ reason (closedOnly kept closed here session same)

theorem claimedRun {expected labels s id}
    (ran : run (step (.server expected)) (init (.server expected)) labels = some s)
    (inTime : Along (step (.server expected)) (RegistersInTime id) (init (.server expected)) labels) :
    Claimed id s := by
  refine alongKeeps (P := Claimed id) (fun s a t claimed inTime one => claimedStep (moves one) inTime claimed)
    (fun t x there => ?_) inTime ran
  cases there

/-! The session of an `open_stream` under way is one that a task has put in the map. -/

theorem rememberedTask {role next fresh r p input p' e} (move : TaskMove role next fresh r p input p' e) {id}
    (h : p.remembered = some id) : p'.remembered = some id := by
  cases move with
  | _ => first | exact h | cases h

theorem enrolledRemembered {p : Phase} {id} (h : p.enrolled = some id) : p.remembered = some id := by
  cases p <;> first | exact h | cases h

def Traced (s : State) : Prop :=
  ∀ c k id, s.calls c = some k → k.opening = some id → ∃ r, (s.tasks r).bind Phase.remembered = some id

theorem tracedStep {role s a t} (move : Move role s a t) (enrolled : Enrolled s) (traced : Traced s) :
    Traced t := by
  cases move with
  | @incoming r _ server free =>
    intro c k id here opening
    obtain ⟨q, mine⟩ := traced c k id here opening
    have other : q ≠ r := by
      rintro rfl
      rw [free] at mine
      cases mine
    exact ⟨q, by simpa [other] using mine⟩
  | @task r input p p' e here step =>
    intro c k id there opening
    obtain ⟨q, mine⟩ := traced c k id (by simpa using there) opening
    refine ⟨q, ?_⟩
    by_cases same : q = r
    · subst same
      rw [here] at mine
      simpa using rememberedTask step mine
    · simpa [same] using mine
  | reader step =>
    obtain ⟨tasks, -, -, -, -, calls⟩ := readerKeeps (s := s) step
    unfold Traced
    rw [tasks, calls]
    exact traced
  | enter free =>
    intro c k id here opening
    rcases updateSome here with ⟨-, rfl⟩ | ⟨-, old⟩
    · simp [Call.opening] at opening
    · exact traced c k id old opening
  | @call c reply k k' e here step =>
    intro d k1 id there opening
    have before : ∃ r, (s.tasks r).bind Phase.remembered = some id := by
      rcases updateSome there with ⟨rfl, rfl⟩ | ⟨-, old⟩
      · rcases callOpening step opening with was | ⟨sent, rfl, rfl, found⟩
        · exact traced d k id here was
        · obtain ⟨r, entry⟩ := Option.ne_none_iff_exists'.mp found
          obtain ⟨p, mine, enrols⟩ := Option.bind_eq_some_iff.mp ((enrolled id r).mp entry)
          exact ⟨r, by rw [mine]; exact enrolledRemembered enrols⟩
      · exact traced d k1 id (by simpa using old) opening
    obtain ⟨r, mine⟩ := before
    exact ⟨r, by simpa using mine⟩

theorem tracedRun {expected labels s}
    (ran : run (step (.server expected)) (init (.server expected)) labels = some s)
    (room : s.accepted ≤ 2 ^ 64) : Traced s := by
  refine runHistory (P := fun _ s => s.accepted ≤ 2 ^ 64 → Traced s) (fun _ c k id here => by cases here)
    (fun as s a t before old one room => ?_) ran room
  have room := (acceptedGrows (moves one)).trans room
  exact tracedStep (moves one) (serverKept before room).enrolled (old room)

theorem callAdvances (role : Role) (reply : Reply) {s c k k' e} (here : s.calls c = some k)
    (moves : callStep s c k reply = some (k', e)) :
    ∃ t, step role s (.call c reply) = some t ∧ t.calls c = some k' ∧ t.emitted = s.emitted ++ e.events ∧
      t.streams = (s.apply e).streams := by
  refine ⟨{s.apply e with calls := Function.update s.calls c (some k')}, ?_, ?_, applyEmitted s e, rfl⟩
  · simp only [step, here, bind, Option.bind_some, moves]
  · exact Function.update_self ..

theorem lateOrphan {expected labels s t c id u sent}
    (ran : run (step (.server expected)) (init (.server expected)) labels = some s)
    (room : s.accepted ≤ 2 ^ 64) (here : s.calls c = some ⟨.openStream id, .registering u, sent⟩)
    (late : ¬ s.unpurged id) (one : step (.server expected) s (.call c .go) = some t) :
    ∃ more v reason, run (step (.server expected)) t more = some v ∧ .sessionClosed id reason ∈ v.emitted ∧
      (∃ k, v.calls c = some k ∧ k.progress = .returned (.stream u)) ∧ v.streams (id, u) ≠ none := by
  have after : t = {s.apply (.register id u) with
      calls := Function.update s.calls c (some ⟨.openStream id, .spawning u s.fresh, sent⟩)} := by
    simpa [step, here, callStep, openStream, Call.to] using one.symm
  have kept := serverKept ran room
  obtain ⟨r, mine⟩ := tracedRun ran room c _ id here rfl
  obtain ⟨p, task, remembered⟩ := Option.bind_eq_some_iff.mp mine
  have spawns : ∀ w : State, w.calls c = some ⟨.openStream id, .spawning u s.fresh, sent⟩ →
      ∃ v, step (.server expected) w (.call c .go) = some v ∧ v.emitted = w.emitted ∧ v.streams = w.streams ∧
        ∃ k, v.calls c = some k ∧ k.progress = .returned (.stream u) := by
    intro w there
    obtain ⟨v, one, last, silent, streams⟩ := callAdvances (.server expected) .go there rfl
    exact ⟨v, one, by simpa [Effect.events] using silent, streams, _, last, rfl⟩
  have there : t.calls c = some ⟨.openStream id, .spawning u s.fresh, sent⟩ := by
    rw [after]; exact Function.update_self ..
  have entry : t.streams (id, u) ≠ none := by
    rw [after]
    simp [State.apply]
  -- the task is past its purge: either the announcement is still to come, or it has been made
  have past : (∃ se reason, p = .closing se reason ∧ se.id = id) ∨ ∃ se reason, p = .closed se reason ∧ se.id = id := by
    have done : p.unpurged ≠ some id := fun waits => late ⟨r, by rw [task]; exact waits⟩
    cases p <;> cases remembered <;> first | exact absurd rfl done | exact .inl ⟨_, _, rfl, rfl⟩ | exact .inr ⟨_, _, rfl, rfl⟩
  have tasks : t.tasks r = some p := by rw [after]; simpa using task
  rcases past with ⟨se, reason, rfl, rfl⟩ | ⟨se, reason, rfl, rfl⟩
  · obtain ⟨w, close, -, said, -⟩ := taskAdvances (.server expected) .go tasks rfl
    have same : w.calls = t.calls ∧ w.streams = t.streams := by
      simp only [step, tasks, bind, Option.bind_some, sessionTask, Option.some.injEq] at close
      subst close
      exact ⟨rfl, rfl⟩
    obtain ⟨v, last, emitted, streams, answered⟩ := spawns w (same.1 ▸ there)
    refine ⟨[.task r .go, .call c .go], v, reason,
      runCons.mpr ⟨w, close, runCons.mpr ⟨v, last, rfl⟩⟩, ?_, answered, ?_⟩
    · rw [emitted, said]
      simp [Effect.events]
    · rw [streams, same.2]
      exact entry
  · obtain ⟨v, last, emitted, streams, answered⟩ := spawns t there
    refine ⟨[.call c .go], v, reason, runCons.mpr ⟨v, last, rfl⟩, ?_, answered, ?_⟩
    · have said : Event.sessionClosed se.id reason ∈ s.emitted :=
        saidEmitted kept.told task rfl (by simp [Phase.said])
      rw [emitted, after]
      exact said
    · rw [streams]
      exact entry

theorem openedStreamsPurged {expected labels s}
    (ran : run (step (.server expected)) (init (.server expected)) labels = some s)
    (room : s.accepted ≤ 2 ^ 64) (id : SessionId) :
    (Along (step (.server expected)) (RegistersInTime id) (init (.server expected)) labels →
      ∀ reason, .sessionClosed id reason ∈ s.emitted → ∀ t, s.streams (id, t) = none) ∧
    (∀ c, ¬ RegistersInTime id s (.call c .go) →
      ∃ more v reason k a, run (step (.server expected)) s more = some v ∧ .sessionClosed id reason ∈ v.emitted ∧
        v.calls c = some k ∧ k.progress = .returned a ∧ ∃ t, v.streams (id, t) ≠ none) := by
  refine ⟨fun inTime reason closed => closedUnclaimed (serverKept ran room) (claimedRun ran inTime) closed,
    fun c late => ?_⟩
  simp only [RegistersInTime, not_forall] at late
  obtain ⟨d, u, sent, same, here, late⟩ := late
  cases same
  obtain ⟨t, one, -⟩ := callAdvances (.server expected) .go here rfl
  obtain ⟨more, v, reason, rest, closed, ⟨k, there, answered⟩, entry⟩ := lateOrphan ran room here late one
  exact ⟨.call c .go :: more, v, reason, k, _, runCons.mpr ⟨t, one, rest⟩, closed, there, answered, u, entry⟩

def openingAtTheEnd : List Label :=
  [.incoming 0, .task 0 (.requested "till.local" "/rk"), .task 0 .accepted, .task 0 .go, .task 0 .go, .task 0 .go,
   .enter 0 (.openStream 1), .call 0 .go, .call 0 (.opened 1)]

def registeredBeforePurge : List Label :=
  openingAtTheEnd ++ [.task 0 (.ended "gone"), .call 0 .go, .task 0 .go, .task 0 .go, .task 0 .go, .call 0 .go]

def registeredAfterPurge : List Label :=
  openingAtTheEnd ++ [.task 0 (.ended "gone"), .task 0 .go, .task 0 .go, .task 0 .go, .call 0 .go, .call 0 .go]

def registersInTime (id : SessionId) (r : Nat) (s : State) : Label → Bool
  | .call c .go =>
    match s.calls c with
    | some ⟨.openStream i, .registering _, _⟩ => i != id || (s.tasks r).bind Phase.unpurged == some id
    | _ => true
  | _ => true

theorem registersChecked {id r s a} (checked : registersInTime id r s a = true) : RegistersInTime id s a := by
  rintro c t sent rfl here
  simp only [registersInTime, here, bne_self_eq_false, Bool.false_or, beq_iff_eq] at checked
  exact ⟨r, checked⟩

theorem openedStreamsPurgedOnce :
    ∃ s, run (step (.server "/rk")) (init (.server "/rk")) registeredBeforePurge = some s ∧
      .sessionClosed 1 "gone" ∈ s.emitted ∧ (∃ k, s.calls 0 = some k ∧ k.progress = .returned (.stream 1)) ∧
      s.streams (1, 1) = none := by
  obtain ⟨s, ran, now⟩ : ∃ s, run (step (.server "/rk")) (init (.server "/rk")) registeredBeforePurge = some s ∧
      (s.emitted, s.accepted, s.calls 0) =
        ([.sessionOpened 1 "till.local" "/rk", .sessionClosed 1 "gone"], 1,
          some ⟨.openStream 1, .returned (.stream 1), []⟩) :=
    Option.map_eq_some_iff.mp (by decide +kernel)
  obtain ⟨emitted, rest⟩ := Prod.mk.inj now
  obtain ⟨accepted, answered⟩ := Prod.mk.inj rest
  have inTime : Along (step (.server "/rk")) (RegistersInTime 1) (init (.server "/rk")) registeredBeforePurge :=
    alongChecks (fun s a => registersChecked (r := 0)) (by decide +kernel)
  have closed : .sessionClosed 1 "gone" ∈ s.emitted := by simp [emitted]
  refine ⟨s, ran, closed, ⟨_, answered, rfl⟩, ?_⟩
  exact (openedStreamsPurged ran (by rw [accepted]; decide) 1).1 inTime "gone" closed 1

theorem orphanLeft :
    ∃ s, run (step (.server "/rk")) (init (.server "/rk")) registeredAfterPurge = some s ∧
      .sessionClosed 1 "gone" ∈ s.emitted ∧ s.calls 0 = some ⟨.openStream 1, .returned (.stream 1), []⟩ ∧
      s.streams (1, 1) = some 0 := by
  obtain ⟨s, ran, now⟩ : ∃ s, run (step (.server "/rk")) (init (.server "/rk")) registeredAfterPurge = some s ∧
      (s.emitted, s.calls 0, s.streams (1, 1)) =
        ([.sessionOpened 1 "till.local" "/rk", .sessionClosed 1 "gone"],
          some ⟨.openStream 1, .returned (.stream 1), []⟩, some 0) :=
    Option.map_eq_some_iff.mp (by decide +kernel)
  obtain ⟨emitted, rest⟩ := Prod.mk.inj now
  exact ⟨s, ran, by simp [emitted], (Prod.mk.inj rest).1, (Prod.mk.inj rest).2⟩

end RkQuic.Endpoint
