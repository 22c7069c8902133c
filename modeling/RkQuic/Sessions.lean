import RkQuic.EndpointMoves
import RkQuic.Naming

/-! The session tasks: which numbers they get, what is in the two maps at each stage of
a task, and the two announcements of a session. A session is named by the task that
serves it; that its number names it too is the first result, and everything said about
a number rests on it. -/
namespace RkQuic.Endpoint
open Runs Naming

def Phase.session : Phase → Option Session
  | .remembering se | .opening se | .serving se _ => some se
  | .forgetting se _ | .purging se _ | .closing se _ | .closed se _ => some se
  | .handshake | .refusing | .accepting _ _ | .numbering _ _ | .dropped => none

def State.sessionOf (s : State) (r : Nat) : Option Session := (s.tasks r).bind Phase.session

def Phase.enrolled : Phase → Option SessionId
  | .opening se | .serving se _ | .forgetting se _ => some se.id
  | _ => none

def Phase.owning : Phase → Option SessionId
  | .serving se _ | .forgetting se _ | .purging se _ => some se.id
  | _ => none

def Phase.said : Phase → List Event
  | .serving se _ | .forgetting se _ | .purging se _ | .closing se _ =>
    [.sessionOpened se.id se.authority se.path]
  | .closed se reason => [.sessionOpened se.id se.authority se.path, .sessionClosed se.id reason]
  | _ => []

theorem sessionOfSome {s : State} {r : Nat} {se : Session} :
    s.sessionOf r = some se ↔ ∃ p, s.tasks r = some p ∧ p.session = some se := by
  simp [State.sessionOf, Option.bind_eq_some_iff]

/-! What a step leaves alone, party by party. -/

theorem callKeeps {s c k reply k' e} (move : CallMove s c k reply k' e) :
    (s.apply e).sessions = s.sessions ∧ (s.apply e).emitted = s.emitted ∧
      (s.apply e).next = s.next ∧ (s.apply e).accepted = s.accepted ∧ k'.method = k.method := by
  cases move <;> exact ⟨rfl, rfl, rfl, rfl, rfl⟩

theorem callStreams {s c k reply k' e} (move : CallMove s c k reply k' e) :
    (∀ key x, (s.apply e).streams key = some x → s.streams key = some x) ∨
      ∃ id t, k.method = .openStream id ∧ e = .register id t := by
  cases move with
  | @openRegister id sent t => exact .inr ⟨id, t, rfl, rfl⟩
  | @closeTake id t sent x found =>
    refine .inl fun key y h => ?_
    by_cases same : key = (id, t)
    · subst same; simp [State.apply] at h
    · simpa [State.apply, same] using h
  | _ => exact .inl fun _ _ h => h

theorem readerKeeps {s : State} {x : Nat} {id t reader input reader' e}
    (move : ReaderMove id t reader input reader' e) :
    let u := (s.edit x (fun ex => {ex with reader := reader'})).apply e
    u.tasks = s.tasks ∧ u.sessions = s.sessions ∧ u.streams = s.streams ∧ u.next = s.next ∧
      u.accepted = s.accepted ∧ u.calls = s.calls := by
  cases move <;> exact ⟨rfl, rfl, rfl, rfl, rfl, rfl⟩

theorem loopKeeps {s : State} {id fresh loop input loop' e} (move : LoopMove id fresh loop input loop' e) :
    (s.apply e).sessions = s.sessions ∧ (s.apply e).next = s.next ∧
      (s.apply e).accepted = s.accepted := by
  cases move <;> exact ⟨rfl, rfl, rfl⟩

theorem taskSession {role next fresh r p input p' e} (move : TaskMove role next fresh r p input p' e) :
    (p'.session = p.session ∧ e ≠ .allot) ∨
      ∃ authority path, p = .numbering authority path ∧ p' = .remembering ⟨next, authority, path⟩ ∧
        e = .allot := by
  cases move with
  | number authority path => exact .inr ⟨authority, path, rfl, rfl, rfl⟩
  | serve move => exact .inl ⟨rfl, by cases move <;> simp⟩
  | _ => exact .inl ⟨rfl, by simp⟩

theorem applyCounter {s : State} {e : Effect} (other : e ≠ .allot) :
    (s.apply e).next = s.next ∧ (s.apply e).accepted = s.accepted := by
  cases e <;> first | exact ⟨rfl, rfl⟩ | exact absurd rfl other

theorem numberingStep {role s a t} (move : Move role s a t) :
    (t.sessionOf = s.sessionOf ∧ t.next = s.next ∧ t.accepted = s.accepted) ∨
      ∃ r authority path, s.tasks r = some (.numbering authority path) ∧
        t.sessionOf = Function.update s.sessionOf r (some ⟨s.next, authority, path⟩) ∧
        t.next = s.next + 1 ∧ t.accepted = s.accepted + 1 := by
  cases move with
  | @incoming r expected server free =>
    refine .inl ⟨funext fun q => ?_, rfl, rfl⟩
    by_cases same : q = r
    · subst same; simp [State.sessionOf, free, Phase.session]
    · simp [State.sessionOf, same]
  | @task r input p p' e here step =>
    rcases taskSession step with ⟨kept, other⟩ | ⟨authority, path, rfl, rfl, rfl⟩
    · refine .inl ⟨funext fun q => ?_, (applyCounter other).1, (applyCounter other).2⟩
      by_cases same : q = r
      · subst same; simp [State.sessionOf, here, kept]
      · simp [State.sessionOf, same]
    · refine .inr ⟨r, authority, path, here, funext fun q => ?_, rfl, rfl⟩
      by_cases same : q = r
      · subst same; simp [State.sessionOf, Phase.session]
      · simp [State.sessionOf, same]
  | reader step =>
    obtain ⟨tasks, -, -, next, accepted, -⟩ := readerKeeps (s := s) step
    exact .inl ⟨by unfold State.sessionOf; rw [tasks], next, accepted⟩
  | enter free => exact .inl ⟨rfl, rfl, rfl⟩
  | call here step =>
    obtain ⟨-, -, next, accepted, -⟩ := callKeeps step
    exact .inl ⟨by unfold State.sessionOf; simp, next, accepted⟩

theorem acceptedGrows {role s a t} (move : Move role s a t) : s.accepted ≤ t.accepted := by
  rcases numberingStep move with ⟨-, -, same⟩ | ⟨-, -, -, -, -, -, more⟩ <;> omega

theorem acceptedLasts {role s labels t} (ran : run (step role) s labels = some t) :
    s.accepted ≤ t.accepted :=
  runRelates (R := fun s t : State => s.accepted ≤ t.accepted) (fun _ => le_rfl)
    (fun _ _ _ _ old one => old.trans (acceptedGrows (moves one))) ran

def Distinct (s : State) : Prop :=
  ∀ r r' se se', s.sessionOf r = some se → s.sessionOf r' = some se' → se.id = se'.id → r = r'

structure Numbered (s : State) : Prop where
  counter : s.next = UInt64.ofNat (1 + s.accepted)
  allotted : ∀ r se, s.sessionOf r = some se → ∃ k < s.accepted, se.id = UInt64.ofNat (1 + k)
  distinct : Distinct s

theorem numberedStep {role s a t} (move : Move role s a t) (room : t.accepted ≤ 2 ^ 64)
    (numbered : Numbered s) : Numbered t := by
  rcases numberingStep move with ⟨same, next, accepted⟩ | ⟨r, authority, path, here, sessions, next, accepted⟩
  · exact ⟨by rw [next, accepted]; exact numbered.counter,
      by rw [same, accepted]; exact numbered.allotted,
      by unfold Distinct; rw [same]; exact numbered.distinct⟩
  · have apart : ∀ q se, s.sessionOf q = some se → se.id ≠ s.next := by
      intro q se hq
      obtain ⟨k, less, id⟩ := numbered.allotted q se hq
      rw [id, numbered.counter]
      exact numbersApart (by omega) (by omega)
    refine ⟨?_, ?_, ?_⟩
    · rw [next, accepted]
      exact nextNumber numbered.counter
    · intro q se hq
      rw [sessions] at hq
      rcases updateSome hq with ⟨-, rfl⟩ | ⟨-, old⟩
      · exact ⟨s.accepted, by omega, numbered.counter⟩
      · obtain ⟨k, less, id⟩ := numbered.allotted q se old
        exact ⟨k, by omega, id⟩
    · intro q q' se se' hq hq' same
      rw [sessions] at hq hq'
      rcases updateSome hq with ⟨rfl, rfl⟩ | ⟨-, old⟩ <;>
        rcases updateSome hq' with ⟨rfl, rfl⟩ | ⟨-, old'⟩
      · rfl
      · exact absurd same.symm (apart q' se' old')
      · exact absurd same (apart q se old)
      · exact numbered.distinct q q' se se' old old' same

theorem numberedInit (expected : String) : Numbered (init (.server expected)) := by
  refine ⟨rfl, ?_, ?_⟩
  · intro r se h; simp [init, State.sessionOf] at h
  · intro r r' se se' h; simp [init, State.sessionOf] at h

def Single (id : SessionId) (s : State) : Prop :=
  (∀ r p, s.tasks r = some p → r = 0) ∧ ∃ se, s.sessionOf 0 = some se ∧ se.id = id

theorem singleDistinct {id s} (single : Single id s) : Distinct s := by
  intro r r' se se' h h' _
  obtain ⟨p, hp, -⟩ := sessionOfSome.mp h
  obtain ⟨p', hp', -⟩ := sessionOfSome.mp h'
  rw [single.1 r p hp, single.1 r' p' hp']

/-! The map of sessions, entry by entry. -/

theorem enrolledSession {p : Phase} {id} (h : p.enrolled = some id) :
    ∃ se, p.session = some se ∧ se.id = id := by
  cases p <;> simp_all [Phase.enrolled, Phase.session]

theorem owningSession {p : Phase} {id} (h : p.owning = some id) :
    ∃ se, p.session = some se ∧ se.id = id := by
  cases p <;> simp_all [Phase.owning, Phase.session]

def Enrolled (s : State) : Prop :=
  ∀ id r, s.sessions id = some r ↔ (s.tasks r).bind Phase.enrolled = some id

theorem taskEnrols {role next fresh r p input p' e} (s : State)
    (move : TaskMove role next fresh r p input p' e) :
    (∃ se entry, p.session = some se ∧
      (s.apply e).sessions = Function.update s.sessions se.id entry ∧
      (∀ q, entry = some q ↔ q = r ∧ p'.enrolled = some se.id) ∧
      ∀ id, id ≠ se.id → p.enrolled ≠ some id ∧ p'.enrolled ≠ some id) ∨
    (p'.enrolled = p.enrolled ∧ (s.apply e).sessions = s.sessions) := by
  cases move with
  | remember se =>
    refine .inl ⟨se, some r, rfl, rfl, fun q => ?_, fun id other => ?_⟩
    · simp [Phase.enrolled, eq_comm]
    · simp [Phase.enrolled, Ne.symm other]
  | forget server se reason =>
    refine .inl ⟨se, none, rfl, rfl, fun q => ?_, fun id other => ?_⟩
    · simp [Phase.enrolled]
    · simp [Phase.enrolled, Ne.symm other]
  | forgetOwn client se reason =>
    refine .inl ⟨se, none, rfl, rfl, fun q => ?_, fun id other => ?_⟩
    · simp [Phase.enrolled]
    · simp [Phase.enrolled, Ne.symm other]
  | serve move => exact .inr ⟨rfl, (loopKeeps move).1⟩
  | _ => exact .inr ⟨rfl, rfl⟩

theorem enrolledOf {s : State} {r id} (h : (s.tasks r).bind Phase.enrolled = some id) :
    ∃ se, s.sessionOf r = some se ∧ se.id = id := by
  obtain ⟨p, here, enrolled⟩ := Option.bind_eq_some_iff.mp h
  obtain ⟨se, session, same⟩ := enrolledSession enrolled
  exact ⟨se, sessionOfSome.mpr ⟨p, here, session⟩, same⟩

theorem enrolledStep {role s a t} (move : Move role s a t) (distinct : Distinct s)
    (enrolled : Enrolled s) : Enrolled t := by
  cases move with
  | @incoming r expected server free =>
    intro id q
    have old := enrolled id q
    by_cases same : q = r
    · subst same
      simpa [free, Phase.enrolled] using old
    · simpa [same] using old
  | @task r input p p' e here step =>
    rcases taskEnrols s step with ⟨se, entry, session, map, exact_, others⟩ | ⟨kept, map⟩
    · intro id q
      have old := enrolled id q
      have mine : s.sessionOf r = some se := sessionOfSome.mpr ⟨p, here, session⟩
      by_cases own : id = se.id
      · subst own
        by_cases same : q = r
        · subst same
          simp [map, exact_]
        · have other : (s.tasks q).bind Phase.enrolled ≠ some se.id := by
            intro h
            obtain ⟨se', theirs, twin⟩ := enrolledOf h
            exact same (distinct q r se' se theirs mine twin)
          simp [map, exact_, same, other]
      · by_cases same : q = r
        · subst same
          simpa [map, own, here, (others id own).1, (others id own).2] using old
        · simpa [map, own, same] using old
    · intro id q
      have old := enrolled id q
      by_cases same : q = r
      · subst same
        simpa [map, here, kept] using old
      · simpa [map, same] using old
  | reader step =>
    obtain ⟨tasks, sessions, -⟩ := readerKeeps (s := s) step
    intro id q
    rw [tasks, sessions]
    exact enrolled id q
  | enter free => exact enrolled
  | call here step =>
    intro id q
    simpa [(callKeeps step).1] using enrolled id q

/-! The two announcements of a session. -/

theorem sessionKept {role s a t r se} (move : Move role s a t) (mine : s.sessionOf r = some se) :
    t.sessionOf r = some se := by
  rcases numberingStep move with ⟨same, -, -⟩ | ⟨q, authority, path, here, sessions, -, -⟩
  · rw [same]; exact mine
  · have other : r ≠ q := by
      rintro rfl
      simp [State.sessionOf, here, Phase.session] at mine
    rw [sessions, Function.update_of_ne other]
    exact mine

structure Told (s : State) : Prop where
  own : ∀ r p se, s.tasks r = some p → p.session = some se → announcements se.id s.emitted = p.said
  nobody : ∀ id, (∀ r se, s.sessionOf r = some se → se.id ≠ id) → announcements id s.emitted = []

theorem loopSays {id fresh loop input loop' e} (move : LoopMove id fresh loop input loop' e)
    (other : SessionId) : announcements other e.events = [] := by
  cases move <;> rfl

theorem readerSays {id t reader input reader' e} (move : ReaderMove id t reader input reader' e)
    (other : SessionId) : announcements other e.events = [] := by
  cases move <;> rfl

theorem taskSays {role next fresh r p input p' e} (move : TaskMove role next fresh r p input p' e) :
    (∃ se, p.session = some se ∧ p'.session = some se ∧
      p'.said = p.said ++ announcements se.id e.events ∧
      ∀ id, id ≠ se.id → announcements id e.events = []) ∨
    (e.events = [] ∧ p.session = none ∧ p'.said = []) := by
  cases move with
  | remember se => exact .inl ⟨se, rfl, rfl, rfl, fun _ _ => rfl⟩
  | open_ se =>
    refine .inl ⟨se, rfl, rfl, ?_, fun id other => ?_⟩
    · simp [Phase.said, announcements, Effect.events, Event.announces]
    · simp [announcements, Effect.events, Event.announces, Ne.symm other]
  | @serve se loop loop' input e move =>
    exact .inl ⟨se, rfl, rfl, by rw [loopSays move]; rfl, fun id _ => loopSays move id⟩
  | ended se reason => exact .inl ⟨se, rfl, rfl, rfl, fun _ _ => rfl⟩
  | forget server se reason => exact .inl ⟨se, rfl, rfl, rfl, fun _ _ => rfl⟩
  | forgetOwn client se reason => exact .inl ⟨se, rfl, rfl, rfl, fun _ _ => rfl⟩
  | purge se reason => exact .inl ⟨se, rfl, rfl, rfl, fun _ _ => rfl⟩
  | close se reason =>
    refine .inl ⟨se, rfl, rfl, ?_, fun id other => ?_⟩
    · simp [Phase.said, announcements, Effect.events, Event.announces]
    · simp [announcements, Effect.events, Event.announces, Ne.symm other]
  | _ => exact .inr ⟨rfl, rfl, rfl⟩

theorem toldTask {role s r p input p' e} (here : s.tasks r = some p)
    (step : TaskMove role s.next s.fresh r p input p' e)
    (distinct : Distinct {s.apply e with tasks := Function.update s.tasks r (some p')})
    (kept : ∀ q se, s.sessionOf q = some se →
      State.sessionOf {s.apply e with tasks := Function.update s.tasks r (some p')} q = some se)
    (told : Told s) : Told {s.apply e with tasks := Function.update s.tasks r (some p')} := by
  have now : ∀ se, p'.session = some se →
      State.sessionOf {s.apply e with tasks := Function.update s.tasks r (some p')} r = some se :=
    fun se h => sessionOfSome.mpr ⟨p', by simp, h⟩
  have emitted := applyEmitted s e
  rcases taskSays step with ⟨se, was, is, said, others⟩ | ⟨silent, was, said⟩
  · refine ⟨fun q p1 se1 hq session => ?_, fun id none => ?_⟩
    · show announcements se1.id (s.apply e).emitted = p1.said
      rw [emitted, announcementsAppend]
      rcases updateSome hq with ⟨rfl, rfl⟩ | ⟨other, old⟩
      · cases Option.some.inj (is.symm.trans session)
        rw [told.own q p se here was, said]
      · have apart : se1.id ≠ se.id := fun same =>
          other (distinct q r se1 se (sessionOfSome.mpr ⟨p1, hq, session⟩) (now se is) same)
        rw [others se1.id apart, told.own q p1 se1 old session, List.append_nil]
    · show announcements id (s.apply e).emitted = []
      rw [emitted, announcementsAppend, others id (Ne.symm (none r se (now se is))),
        told.nobody id fun q se h => none q se (kept q se h)]
      rfl
  · refine ⟨fun q p1 se1 hq session => ?_, fun id none => ?_⟩
    · show announcements se1.id (s.apply e).emitted = p1.said
      rw [emitted, silent, List.append_nil]
      rcases updateSome hq with ⟨rfl, rfl⟩ | ⟨other, old⟩
      · rw [said]
        refine told.nobody se1.id fun q' se' theirs same => ?_
        have twin := distinct q' q se' se1 (kept q' se' theirs) (now se1 session) same
        subst twin
        simp [State.sessionOf, here, was] at theirs
      · exact told.own q p1 se1 old session
    · show announcements id (s.apply e).emitted = []
      rw [emitted, silent, List.append_nil]
      exact told.nobody id fun q se h => none q se (kept q se h)

theorem toldStep {role s a t} (move : Move role s a t) (distinct : Distinct t) (told : Told s) :
    Told t := by
  have kept : ∀ r se, s.sessionOf r = some se → t.sessionOf r = some se :=
    fun r se => sessionKept move
  cases move with
  | @incoming r expected server free =>
    refine ⟨fun q p se hq session => ?_, fun id none => told.nobody id fun q se h => none q se (kept q se h)⟩
    rcases updateSome hq with ⟨-, rfl⟩ | ⟨-, old⟩
    · simp [Phase.session] at session
    · exact told.own q p se old session
  | task here step => exact toldTask here step distinct kept told
  | reader step =>
    obtain ⟨tasks, -⟩ := readerKeeps (s := s) step
    refine ⟨fun q p se hq session => ?_, fun id none => ?_⟩
    · rw [applyEmitted, editEmitted, announcementsAppend, readerSays step, List.append_nil]
      rw [tasks] at hq
      exact told.own q p se hq session
    · rw [applyEmitted, editEmitted, announcementsAppend, readerSays step, List.append_nil]
      exact told.nobody id fun q se h => none q se (kept q se h)
  | enter free => exact ⟨told.own, told.nobody⟩
  | call here step =>
    have emitted := (callKeeps step).2.1
    refine ⟨fun q p se hq session => ?_, fun id none => ?_⟩
    · show announcements se.id (s.apply _).emitted = p.said
      rw [emitted]
      exact told.own q p se (by simpa using hq) session
    · show announcements id (s.apply _).emitted = []
      rw [emitted]
      exact told.nobody id fun q se h => none q se (kept q se h)

structure Kept (s : State) : Prop where
  distinct : Distinct s
  enrolled : Enrolled s
  told : Told s

theorem keptStep {role s a t} (move : Move role s a t) (distinct : Distinct t) (kept : Kept s) : Kept t :=
  ⟨distinct, enrolledStep move kept.distinct kept.enrolled, toldStep move distinct kept.told⟩

theorem serverInitKept (expected : String) : Kept (init (.server expected)) := by
  refine ⟨(numberedInit expected).distinct, fun id r => ?_, fun r p se h => ?_, fun id _ => rfl⟩
  · simp [init]
  · simp [init] at h

theorem clientInitKept (id : SessionId) (url : String) : Kept (init (.client id url)) := by
  have single : Single id (init (.client id url)) := by
    refine ⟨fun r p h => ?_, ⟨id, "", url⟩, by simp [init, State.sessionOf, Phase.session], rfl⟩
    by_contra other
    simp [init, other] at h
  refine ⟨singleDistinct single, fun other r => ?_, fun r p se h session => ?_, fun other none => ?_⟩
  · by_cases zero : r = 0
    · simp [init, zero, Phase.enrolled, eq_comm]
    · simp [init, zero, Ne.symm zero]
  · cases single.1 r p h
    simp only [init, if_true, Option.some.injEq] at h
    subst h
    cases Option.some.inj session
    simp [init, announcements, Event.announces, Phase.said]
  · have apart : id ≠ other := none 0 ⟨id, "", url⟩ (by simp [init, State.sessionOf, Phase.session])
    simp [init, announcements, Event.announces, apart]

theorem serverKept {expected labels s}
    (ran : run (step (.server expected)) (init (.server expected)) labels = some s)
    (room : s.accepted ≤ 2 ^ 64) : Kept s := by
  have all : s.accepted ≤ 2 ^ 64 → Numbered s ∧ Kept s := by
    refine runKeeps (P := fun s => s.accepted ≤ 2 ^ 64 → Numbered s ∧ Kept s)
      (fun s a t old one room => ?_) (fun _ => ⟨numberedInit expected, serverInitKept expected⟩) ran
    have move := moves one
    obtain ⟨numbered, kept⟩ := old ((acceptedGrows move).trans room)
    have next := numberedStep move room numbered
    exact ⟨next, keptStep move next.distinct kept⟩
  exact (all room).2

theorem singleStep {id url s a t} (move : Move (.client id url) s a t) (single : Single id s) :
    Single id t := by
  obtain ⟨only, se, mine, same⟩ := single
  refine ⟨?_, se, sessionKept move mine, same⟩
  cases move with
  | incoming server free => cases server
  | @task r input p p' e here step =>
    intro q p1 h
    rcases updateSome h with ⟨rfl, -⟩ | ⟨-, old⟩
    · exact only q p here
    · exact only q p1 (by simpa using old)
  | reader step =>
    rw [(readerKeeps (s := s) step).1]
    exact only
  | enter free => exact only
  | call here step =>
    intro q p1 h
    exact only q p1 (by simpa using h)

theorem clientKept {id url labels s}
    (ran : run (step (.client id url)) (init (.client id url)) labels = some s) :
    Single id s ∧ Kept s := by
  refine runKeeps (P := fun s => Single id s ∧ Kept s) (fun s a t old one => ?_)
    ⟨⟨fun r p h => ?_, ⟨id, "", url⟩, by simp [init, State.sessionOf, Phase.session], rfl⟩,
      clientInitKept id url⟩ ran
  · have next := singleStep (moves one) old.1
    exact ⟨next, keptStep (moves one) (singleDistinct next) old.2⟩
  · by_contra other
    simp [init, other] at h

def Announced (id : SessionId) (log : List Event) : Prop :=
  announcements id log = [] ∨
  (∃ authority path, announcements id log = [.sessionOpened id authority path]) ∨
  ∃ authority path reason,
    announcements id log = [.sessionOpened id authority path, .sessionClosed id reason]

theorem toldAnnounced {s : State} (told : Told s) (id : SessionId) : Announced id s.emitted := by
  by_cases known : ∃ r se, s.sessionOf r = some se ∧ se.id = id
  · obtain ⟨r, se, mine, rfl⟩ := known
    obtain ⟨p, here, session⟩ := sessionOfSome.mp mine
    unfold Announced
    rw [told.own r p se here session]
    cases p <;> cases session <;> simp [Phase.said]
  · refine .inl (told.nobody id fun r se mine same => known ⟨r, se, mine, same⟩)

theorem announcedTask {s : State} (told : Told s) {id : SessionId} {e : Event}
    (announces : e.announces id = true) (emitted : e ∈ s.emitted) :
    ∃ r p se, s.tasks r = some p ∧ p.session = some se ∧ se.id = id ∧ e ∈ p.said := by
  have member : e ∈ announcements id s.emitted := List.mem_filter.mpr ⟨emitted, announces⟩
  by_cases known : ∃ r se, s.sessionOf r = some se ∧ se.id = id
  · obtain ⟨r, se, mine, rfl⟩ := known
    obtain ⟨p, here, session⟩ := sessionOfSome.mp mine
    exact ⟨r, p, se, here, session, rfl, told.own r p se here session ▸ member⟩
  · rw [told.nobody id fun r se mine same => known ⟨r, se, mine, same⟩] at member
    simp at member

theorem closedTask {s : State} (told : Told s) {id : SessionId} {reason : String}
    (emitted : .sessionClosed id reason ∈ s.emitted) :
    ∃ r se, s.tasks r = some (.closed se reason) ∧ se.id = id := by
  have announces : (Event.sessionClosed id reason).announces id = true := by simp [Event.announces]
  obtain ⟨r, p, se, here, session, same, said⟩ := announcedTask told announces emitted
  refine ⟨r, se, ?_, same⟩
  cases p <;> cases session <;> simp_all [Phase.said]

theorem closedOnly {s : State} (kept : Kept s) {id : SessionId} {reason : String}
    (closed : .sessionClosed id reason ∈ s.emitted) {r p se} (here : s.tasks r = some p)
    (session : p.session = some se) (same : se.id = id) : p = .closed se reason := by
  obtain ⟨q, se', there, twin⟩ := closedTask kept.told closed
  have mine := sessionOfSome.mpr ⟨p, here, session⟩
  have theirs : s.sessionOf q = some se' := sessionOfSome.mpr ⟨_, there, rfl⟩
  cases kept.distinct r q se se' mine theirs (same.trans twin.symm)
  cases Option.some.inj (mine.symm.trans theirs)
  exact Option.some.inj (here.symm.trans there)

theorem sessionGone {s : State} (kept : Kept s) {id : SessionId} {reason : String}
    (closed : .sessionClosed id reason ∈ s.emitted) : s.sessions id = none := by
  by_contra some_
  obtain ⟨r, entry⟩ := Option.ne_none_iff_exists'.mp some_
  obtain ⟨p, here, enrolled⟩ := Option.bind_eq_some_iff.mp ((kept.enrolled id r).mp entry)
  obtain ⟨se, session, same⟩ := enrolledSession enrolled
  rw [closedOnly kept closed here session same] at enrolled
  cases enrolled

/-! Calls on a session that is gone. -/

def Method.on (id : SessionId) : Method → Prop
  | .send s _ _ | .streamSend s _ _ | .streamClose s _ => s = id
  | .openStream _ | .nextEvent => False

def Refuses (role : Role) (s : State) (c : Nat) (method : Method) : Prop :=
  step role s (.call c .go) = some {s with
    calls := Function.update s.calls c (some ⟨method, .returned (.status .unknownHandle), []⟩)}

theorem refusesGone {role s id} (noSession : s.sessions id = none)
    (noStream : ∀ t, s.streams (id, t) = none) {c method} (on : method.on id)
    (here : s.calls c = some ⟨method, .entered, []⟩) : Refuses role s c method := by
  have looked : callStep s c ⟨method, .entered, []⟩ .go =
      some (⟨method, .returned (.status .unknownHandle), []⟩, .none) := by
    cases method with
    | send => cases on; simp [callStep, send, noSession, Call.answer, Call.to]
    | streamSend => cases on; simp [callStep, streamSend, noStream, Call.answer, Call.to]
    | streamClose => cases on; simp [callStep, streamClose, noStream, Call.answer, Call.to]
    | openStream => cases on
    | nextEvent => cases on
  simp [Refuses, step, here, looked, State.apply]

end RkQuic.Endpoint
