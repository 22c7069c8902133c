import RkQuic.Sessions

/-! A server's two maps and its announcements, over every interleaving of its accept
tasks, their readers and the calls of other threads. Requests are told apart by the
task that serves them; what their numbers name is a result. The counter has 64 bits and
wraps, so the results are about endpoints that have accepted at most 2^64 requests. -/
namespace RkQuic.Endpoint
open Runs Naming

/-! The owners of the streams in the map. -/

def Owned (s : State) : Prop :=
  ∀ id t x, s.streams (id, t) = some x → ∃ r, (s.tasks r).bind Phase.owning = some id

theorem loopOwns {s : State} {id fresh loop input loop' e} (move : LoopMove id fresh loop input loop' e)
    {key x} (h : (s.apply e).streams key = some x) : s.streams key = some x ∨ key.1 = id := by
  cases move with
  | register t =>
    rcases updateSome h with ⟨rfl, -⟩ | ⟨-, old⟩
    · exact .inr rfl
    · exact .inl old
  | _ => exact .inl h

theorem taskOwns {expected next fresh r p input p' e} {s : State}
    (move : TaskMove (.server expected) next fresh r p input p' e)
    {id t x} (h : (s.apply e).streams (id, t) = some x) :
    (p.owning = some id → p'.owning = some id) ∧
      (s.streams (id, t) = some x ∨ p'.owning = some id) := by
  cases move with
  | serve move =>
    refine ⟨fun h => h, (loopOwns move h).imp_right fun same => ?_⟩
    exact congrArg some same.symm
  | purge se reason =>
    simp only [State.apply] at h
    split at h
    · rename_i other
      refine ⟨fun own => absurd (Option.some.inj own).symm other, .inl h⟩
    · cases h
  | forgetOwn client => cases client
  | open_ se =>
    refine ⟨fun own => ?_, .inl h⟩
    cases own
  | _ => exact ⟨fun h => h, .inl h⟩

theorem ownedStep {expected s a t} (move : Move (.server expected) s a t)
    (noOpen : ∀ c k, s.calls c = some k → ∀ id, k.method ≠ .openStream id) (owned : Owned s) :
    Owned t := by
  cases move with
  | @incoming r _ server free =>
    intro id u x h
    obtain ⟨q, owns⟩ := owned id u x h
    have other : q ≠ r := by rintro rfl; simp [free] at owns
    exact ⟨q, by simpa [other] using owns⟩
  | @task r input p p' e here step =>
    intro id u x h
    obtain ⟨stays, old | new⟩ := taskOwns step h
    · obtain ⟨q, owns⟩ := owned id u x old
      by_cases same : q = r
      · subst same
        refine ⟨q, ?_⟩
        rw [here] at owns
        simpa using stays owns
      · exact ⟨q, by simpa [same] using owns⟩
    · exact ⟨r, by simpa using new⟩
  | reader step =>
    obtain ⟨tasks, -, streams, -⟩ := readerKeeps (s := s) step
    unfold Owned
    rw [tasks, streams]
    exact owned
  | enter free => exact owned
  | call here step =>
    rcases callStreams step with kept | ⟨id, t, opens, -⟩
    · intro id u x h
      simpa using owned id u x (kept _ _ h)
    · exact absurd opens (noOpen _ _ here id)

theorem callsEntered {role s₀ labels s} (none_ : ∀ c, s₀.calls c = none)
    (ran : run (step role) s₀ labels = some s) {c k} (here : s.calls c = some k) :
    .enter c k.method ∈ labels := by
  refine runHistory (P := fun labels s => ∀ c k, s.calls c = some k → .enter c k.method ∈ labels)
    (fun c k h => by rw [none_] at h; cases h) (fun as s a t _ old one c k h => ?_) ran c k here
  refine List.mem_append.mpr ?_
  cases moves one with
  | incoming server free => exact .inl (old c k h)
  | task here step => exact .inl (old c k (by simpa using h))
  | reader step =>
    rw [(readerKeeps (s := s) step).2.2.2.2.2] at h
    exact .inl (old c k h)
  | enter free =>
    rcases updateSome h with ⟨rfl, rfl⟩ | ⟨-, before⟩
    · exact .inr (List.mem_singleton.mpr rfl)
    · exact .inl (old c k before)
  | call here step =>
    rcases updateSome h with ⟨rfl, rfl⟩ | ⟨-, before⟩
    · rw [(callKeeps step).2.2.2.2]
      exact .inl (old _ _ here)
    · exact .inl (old c k (by simpa using before))

/-! Which requests get as far as a session. -/

def Phase.backed (expected : String) (r : Nat) (labels : List Label) : Phase → Prop
  | .accepting authority path => .task r (.requested authority path) ∈ labels ∧ path = expected
  | .numbering authority path =>
    (.task r (.requested authority path) ∈ labels ∧ path = expected) ∧ .task r .accepted ∈ labels
  | .remembering se | .opening se | .serving se _ | .forgetting se _ | .purging se _
  | .closing se _ | .closed se _ =>
    (.task r (.requested se.authority se.path) ∈ labels ∧ se.path = expected) ∧
      .task r .accepted ∈ labels
  | .handshake | .refusing | .dropped => True

theorem backedMore {expected r labels p} (a : Label) (backed : Phase.backed expected r labels p) :
    p.backed expected r (labels ++ [a]) := by
  have grows : ∀ l ∈ labels, l ∈ labels ++ [a] := fun l => List.mem_append_left [a]
  cases p with
  | accepting => exact ⟨grows _ backed.1, backed.2⟩
  | handshake => trivial
  | refusing => trivial
  | dropped => trivial
  | _ => exact ⟨⟨grows _ backed.1.1, backed.1.2⟩, grows _ backed.2⟩

theorem backedMove {expected next fresh r p input p' e labels}
    (move : TaskMove (.server expected) next fresh r p input p' e)
    (backed : p.backed expected r labels) : p'.backed expected r (labels ++ [.task r input]) := by
  have old := backedMore (.task r input) backed
  cases move with
  | letIn server same => cases server; exact ⟨by simp, same⟩
  | accept authority path => exact ⟨old, by simp⟩
  | forgetOwn client => cases client
  | turnAway server other => trivial
  | noHandshake => trivial
  | refused => trivial
  | noAccept => trivial
  | _ => exact old

theorem backedSession {expected r labels p se} (backed : Phase.backed expected r labels p)
    (session : p.session = some se) :
    .task r (.requested se.authority expected) ∈ labels ∧ se.path = expected ∧
      .task r .accepted ∈ labels := by
  cases p <;> cases session <;> obtain ⟨⟨asked, rfl⟩, accepted⟩ := backed <;>
    exact ⟨asked, rfl, accepted⟩

def Phase.astray (p : Phase) : Prop := p = .refusing ∨ p = .dropped

theorem astrayMove {expected next fresh r p input p' e}
    (move : TaskMove (.server expected) next fresh r p input p' e) (astray : p.astray) : p'.astray := by
  rcases astray with rfl | rfl
  · cases move; exact .inr rfl
  · cases move

theorem loopUnasked {id fresh loop authority path loop' e} :
    ¬ LoopMove id fresh loop (.requested authority path) loop' e := by
  intro move
  cases move

structure Recorded (expected : String) (labels : List Label) (s : State) : Prop where
  backed : ∀ r p, s.tasks r = some p → p.backed expected r labels
  astray : ∀ r authority path, .task r (.requested authority path) ∈ labels → path ≠ expected →
    ∃ p, s.tasks r = some p ∧ p.astray

theorem recordedRun {expected labels s}
    (ran : run (step (.server expected)) (init (.server expected)) labels = some s) :
    Recorded expected labels s := by
  have start : Recorded expected [] (init (.server expected)) :=
    ⟨fun r p h => by simp [init] at h, fun r authority path h => absurd h List.not_mem_nil⟩
  refine runHistory (P := Recorded expected) start (fun as s a t _ old one => ?_) ran
  have same : t.tasks = s.tasks → (∀ r i, a ≠ .task r i) → Recorded expected (as ++ [a]) t := by
    intro tasks other
    refine ⟨fun r p h => backedMore a (old.backed r p (tasks ▸ h)), fun r authority path h off => ?_⟩
    rcases List.mem_append.mp h with before | last
    · rw [tasks]; exact old.astray r authority path before off
    · exact absurd (List.mem_singleton.mp last).symm (other _ _)
  cases moves one with
  | @incoming r _ server free =>
    refine ⟨fun q p h => ?_, fun q authority path h off => ?_⟩
    · rcases updateSome h with ⟨rfl, rfl⟩ | ⟨-, before⟩
      · trivial
      · exact backedMore _ (old.backed q p before)
    · rcases List.mem_append.mp h with before | last
      · obtain ⟨p, here, astray⟩ := old.astray q authority path before off
        have other : q ≠ r := by rintro rfl; rw [free] at here; cases here
        exact ⟨p, by simpa [other] using here, astray⟩
      · cases List.mem_singleton.mp last
  | @task r input p p' e here step =>
    refine ⟨fun q p1 h => ?_, fun q authority path h off => ?_⟩
    · rcases updateSome h with ⟨rfl, rfl⟩ | ⟨-, before⟩
      · exact backedMove step (old.backed q p here)
      · exact backedMore _ (old.backed q p1 (by simpa using before))
    · rcases List.mem_append.mp h with before | last
      · obtain ⟨p1, there, astray⟩ := old.astray q authority path before off
        by_cases same : q = r
        · subst same
          cases Option.some.inj (here.symm.trans there)
          exact ⟨p', by simp, astrayMove step astray⟩
        · exact ⟨p1, by simpa [same] using there, astray⟩
      · cases List.mem_singleton.mp last
        refine ⟨p', by simp, ?_⟩
        cases step with
        | letIn server same => cases server; exact absurd same off
        | turnAway server other => exact .inl rfl
        | serve move => exact absurd move loopUnasked
  | reader step => exact same (readerKeeps (s := s) step).1 (by simp)
  | enter free => exact same rfl (by simp)
  | call here step => exact same (by simp) (by simp)

theorem quietTask {role next fresh r p input p' e} (move : TaskMove role next fresh r p input p' e)
    (none_ : p'.session = none) : e = .none := by
  cases move with
  | number => cases none_
  | remember => cases none_
  | open_ => cases none_
  | serve => cases none_
  | forget => cases none_
  | forgetOwn => cases none_
  | purge => cases none_
  | close => cases none_
  | _ => rfl

theorem sessionLasts {role s t labels r se} (ran : run (step role) s labels = some t)
    (mine : s.sessionOf r = some se) : t.sessionOf r = some se :=
  runKeeps (fun _ _ _ old one => sessionKept (moves one) old) mine ran

def Admitted (expected : String) (labels : List Label) (s : State) (id : SessionId) : Prop :=
  ∃ r authority, s.sessionOf r = some ⟨id, authority, expected⟩ ∧
    .task r (.requested authority expected) ∈ labels ∧ .task r .accepted ∈ labels

def TurnedAway (expected : String) (labels : List Label) (r : Nat) : Prop :=
  (∃ authority path, .task r (.requested authority path) ∈ labels ∧ path ≠ expected) ∨
    .task r .accepted ∉ labels

def Untouched (u v : State) : Prop :=
  v.sessions = u.sessions ∧ v.streams = u.streams ∧ v.queue = u.queue ∧ v.emitted = u.emitted

structure Bookkept (expected : String) (labels : List Label) (s : State) : Prop where
  sessionsAdmitted : ∀ id r, s.sessions id = some r → Admitted expected labels s id
  streamsAdmitted : ∀ id t x, s.streams (id, t) = some x → Admitted expected labels s id
  distinct : Distinct s
  turnedAway : ∀ u v r input, TurnedAway expected labels r →
    Takes (step (.server expected)) (init (.server expected)) labels u (.task r input) v → Untouched u v
  announced : ∀ id, Announced id s.emitted
  openedInMap : ∀ u a v id authority path,
    Takes (step (.server expected)) (init (.server expected)) labels u a v →
    v.emitted = u.emitted ++ [.sessionOpened id authority path] → ∃ r, u.sessions id = some r
  gone : ∀ id reason, .sessionClosed id reason ∈ s.emitted →
    s.sessions id = none ∧ ∀ t, s.streams (id, t) = none
  refused : ∀ id reason, .sessionClosed id reason ∈ s.emitted → ∀ c (method : Method), method.on id →
    s.calls c = some ⟨method, .entered, []⟩ → Refuses (.server expected) s c method

theorem admittedOf {expected labels s r se} (recorded : Recorded expected labels s)
    (mine : s.sessionOf r = some se) : Admitted expected labels s se.id := by
  obtain ⟨p, here, session⟩ := sessionOfSome.mp mine
  obtain ⟨asked, path, accepted⟩ := backedSession (recorded.backed r p here) session
  exact ⟨r, se.authority, by rw [mine, ← path], asked, accepted⟩

theorem turnedAwayNoSession {expected labels s r} (recorded : Recorded expected labels s)
    (turned : TurnedAway expected labels r) : s.sessionOf r = none := by
  by_contra some_
  obtain ⟨se, mine⟩ := Option.ne_none_iff_exists'.mp some_
  obtain ⟨p, here, session⟩ := sessionOfSome.mp mine
  rcases turned with ⟨authority, path, asked, off⟩ | refused
  · obtain ⟨p', there, rfl | rfl⟩ := recorded.astray r authority path asked off
    · cases Option.some.inj (here.symm.trans there); cases session
    · cases Option.some.inj (here.symm.trans there); cases session
  · exact refused (backedSession (recorded.backed r p here) session).2.2

theorem openingInMap {role s a t id authority path} (move : Move role s a t) (kept : Kept s)
    (emitted : t.emitted = s.emitted ++ [.sessionOpened id authority path]) :
    ∃ r, s.sessions id = some r := by
  have never : ∀ e : Effect, e.events = [.sessionOpened id authority path] →
      e = .emit (.sessionOpened id authority path) := by
    intro e same
    cases e <;> simp_all [Effect.events]
  cases move with
  | incoming server free => simp at emitted
  | @task r input p p' e here step =>
    have said := never e (List.append_cancel_left ((applyEmitted s e).symm.trans emitted))
    subst said
    cases step with
    | open_ se => exact ⟨r, (kept.enrolled se.id r).mpr (by simp [here, Phase.enrolled])⟩
    | serve move => cases move
  | reader step =>
    rw [applyEmitted, editEmitted] at emitted
    have silent := readerSays step id
    rw [List.append_cancel_left emitted] at silent
    simp [announcements, Event.announces] at silent
  | enter free => simp at emitted
  | call here step =>
    have same := (callKeeps step).2.1
    simp [same] at emitted

theorem streamsGone {s id reason} (kept : Kept s) (owned : Owned s)
    (closed : .sessionClosed id reason ∈ s.emitted) (t : StreamId) : s.streams (id, t) = none := by
  by_contra some_
  obtain ⟨x, entry⟩ := Option.ne_none_iff_exists'.mp some_
  obtain ⟨r, owns⟩ := owned id t x entry
  obtain ⟨p, here, owning⟩ := Option.bind_eq_some_iff.mp owns
  obtain ⟨se, session, same⟩ := owningSession owning
  rw [closedOnly kept closed here session same] at owning
  cases owning

theorem ownedRun {expected labels s}
    (ran : run (step (.server expected)) (init (.server expected)) labels = some s)
    (noOpen : ∀ c id, .enter c (.openStream id) ∉ labels) : Owned s := by
  refine runHistory (P := fun labels s => (∀ c id, .enter c (.openStream id) ∉ labels) → Owned s)
    (fun _ id t x h => by simp [init] at h) (fun as s a t before old one noOpen => ?_) ran noOpen
  have earlier : ∀ c id, .enter c (.openStream id) ∉ as :=
    fun c id h => noOpen c id (List.mem_append_left _ h)
  refine ownedStep (moves one) (fun c k here id same => ?_) (old earlier)
  exact earlier c id (same ▸ callsEntered (fun _ => rfl) before here)

theorem sessionsBookkept {expected labels s}
    (ran : run (step (.server expected)) (init (.server expected)) labels = some s)
    (noOpen : ∀ c id, .enter c (.openStream id) ∉ labels) (room : s.accepted ≤ 2 ^ 64) :
    Bookkept expected labels s := by
  have kept := serverKept ran room
  have owned := ownedRun ran noOpen
  have recorded := recordedRun ran
  have gone : ∀ id reason, .sessionClosed id reason ∈ s.emitted →
      s.sessions id = none ∧ ∀ t, s.streams (id, t) = none :=
    fun id reason closed => ⟨sessionGone kept closed, streamsGone kept owned closed⟩
  refine ⟨fun id r entry => ?_, fun id t x entry => ?_, kept.distinct, fun u v r input turned takes => ?_,
    toldAnnounced kept.told, fun u a v id authority path takes emitted => ?_, gone,
    fun id reason closed c method on here => ?_⟩
  · obtain ⟨se, mine, rfl⟩ := enrolledOf ((kept.enrolled id r).mp entry)
    exact admittedOf recorded mine
  · obtain ⟨r, owns⟩ := owned id t x entry
    obtain ⟨p, here, owning⟩ := Option.bind_eq_some_iff.mp owns
    obtain ⟨se, session, rfl⟩ := owningSession owning
    exact admittedOf recorded (sessionOfSome.mpr ⟨p, here, session⟩)
  · obtain ⟨before, after, -, -, one, rest⟩ := takesSplit ran takes
    have none_ : v.sessionOf r = none := by
      by_contra some_
      obtain ⟨se, mine⟩ := Option.ne_none_iff_exists'.mp some_
      exact absurd ((turnedAwayNoSession recorded turned).symm.trans (sessionLasts rest mine)) (by simp)
    cases moves one with
    | @task _ _ p p' e here step =>
      have quiet := quietTask step (by simpa [State.sessionOf] using none_)
      subst quiet
      exact ⟨rfl, rfl, rfl, rfl⟩
  · obtain ⟨before, after, -, first, one, rest⟩ := takesSplit ran takes
    have fewer : u.accepted ≤ s.accepted := (acceptedGrows (moves one)).trans (acceptedLasts rest)
    exact openingInMap (moves one) (serverKept first (fewer.trans room)) emitted
  · exact refusesGone (gone id reason closed).1 (gone id reason closed).2 on here

def oneSession : List Label :=
  [.incoming 0, .task 0 (.requested "till.local" "/rk"), .task 0 .accepted, .task 0 .go, .task 0 .go,
   .task 0 .go, .task 0 (.bi 4), .task 0 .go, .task 0 .go, .task 0 .go, .task 0 (.ended "gone"),
   .task 0 .go, .task 0 .go, .task 0 .go, .enter 0 (.streamSend 1 4 "late")]

theorem oneSessionBookkept :
    ∃ s, run (step (.server "/rk")) (init (.server "/rk")) oneSession = some s ∧
      .sessionClosed 1 "gone" ∈ s.emitted ∧ Bookkept "/rk" oneSession s := by
  have emitted : (run (step (.server "/rk")) (init (.server "/rk")) oneSession).map State.emitted =
      some [.sessionOpened 1 "till.local" "/rk", .streamOpened 1 4, .sessionClosed 1 "gone"] := by decide
  have accepted : (run (step (.server "/rk")) (init (.server "/rk")) oneSession).map State.accepted =
      some 1 := by decide
  obtain ⟨s, ran, said⟩ := Option.map_eq_some_iff.mp emitted
  rw [ran, Option.map_some, Option.some.injEq] at accepted
  refine ⟨s, ran, by simp [said], sessionsBookkept ran (fun c id h => ?_) (by omega)⟩
  simp [oneSession] at h

/-! Past 2^64 accepted requests the counter has wrapped. -/

def admission (expected : String) (r : Nat) : List Label :=
  [.incoming r, .task r (.requested "till.local" expected), .task r .accepted, .task r .go]

def admissions (expected : String) (n : Nat) : List Label := (List.range n).flatMap (admission expected)

def admittedState (expected : String) (n : Nat) : State :=
  {init (.server expected) with
    tasks := fun r =>
      if r < n then some (.remembering ⟨UInt64.ofNat (1 + r), "till.local", expected⟩) else none
    next := UInt64.ofNat (1 + n)
    accepted := n}

theorem admissionsRun (expected : String) (n : Nat) :
    run (step (.server expected)) (init (.server expected)) (admissions expected n) =
      some (admittedState expected n) := by
  induction n with
  | zero => rfl
  | succ n ih =>
    rw [admissions, List.range_succ, List.flatMap_append, List.flatMap_singleton, runAppend]
    refine ⟨_, ih, ?_⟩
    have tasks : Function.update (admittedState expected n).tasks n
        (some (.remembering ⟨UInt64.ofNat (1 + n), "till.local", expected⟩)) =
          (admittedState expected (n + 1)).tasks := by
      funext r
      by_cases same : r = n
      · subst same; simp [admittedState]
      · have near : r ≤ n ↔ r < n := by omega
        simp [admittedState, same, near]
    have next : UInt64.ofNat (1 + n) + 1 = UInt64.ofNat (1 + (n + 1)) := nextNumber rfl
    have vacant : (admittedState expected n).tasks n = none := by simp [admittedState]
    simp only [admission, run, step, vacant, Option.bind_some, Function.update_self, bind,
      sessionTask, ne_eq, not_true_eq_false, if_false, State.apply, Function.update_idem]
    have same : (admittedState expected n).next = UInt64.ofNat (1 + n) := rfl
    simp only [same, tasks, next]
    rfl

theorem admissionsNoCall (expected : String) (n c : Nat) (method : Method) :
    .enter c method ∉ admissions expected n := by
  simp [admissions, admission]

theorem wrappedNumberShared :
    ¬ ∀ labels s, run (step (.server "/rk")) (init (.server "/rk")) labels = some s →
      (∀ c id, .enter c (.openStream id) ∉ labels) → Bookkept "/rk" labels s := by
  intro always
  have kept := always _ _ (admissionsRun "/rk" (2 ^ 64 + 1)) fun c id => admissionsNoCall _ _ c _
  have first : (admittedState "/rk" (2 ^ 64 + 1)).sessionOf 0 =
      some ⟨UInt64.ofNat (1 + 0), "till.local", "/rk"⟩ := by
    simp [State.sessionOf, admittedState, Phase.session]
  have last : (admittedState "/rk" (2 ^ 64 + 1)).sessionOf (2 ^ 64) =
      some ⟨UInt64.ofNat (1 + 2 ^ 64), "till.local", "/rk"⟩ := by
    simp [State.sessionOf, admittedState, Phase.session]
  exact absurd (kept.distinct _ _ _ _ first last (by decide)) (by decide)

end RkQuic.Endpoint
