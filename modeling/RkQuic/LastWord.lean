import RkQuic.Bookkeeping
import RkQuic.Streams

/-! What is emitted about a session before its opening and after its end. The task of a
session speaks of it between the two announcements only. The readers of its streams are
detached from that task on purpose, and one that still runs may speak once more. -/
namespace RkQuic.Endpoint
open Runs Naming

def Opens (id : SessionId) (e : Event) : Prop := ∃ authority path, e = .sessionOpened id authority path

def Closes (id : SessionId) (e : Event) : Prop := ∃ reason, e = .sessionClosed id reason

def Enclosed (id : SessionId) (log : List Event) : Prop :=
  Precedes (Opens id) (fun e => e.session = some id ∧ ¬ Opens id e) log ∧
    Silences (Closes id) (fun e => e.session = some id) log

def Bracketed (id : SessionId) (log : List Event) : Prop :=
  Precedes (Opens id) (fun e => e.session = some id ∧ ¬ Opens id e) log ∧
    Silences (Closes id) (fun e => e.session = some id ∧ ¬ e.ofReader) log

/-! Who emits what. -/

theorem emittedGrows {role s a t} (move : Move role s a t) : s.emitted <+: t.emitted := by
  cases move with
  | incoming server free => exact List.prefix_refl _
  | task here step => exact ⟨_, (applyEmitted s _).symm⟩
  | reader step => exact ⟨_, (applyEmitted (s.edit _ _) _).symm⟩
  | enter free => exact List.prefix_refl _
  | call here step => exact ⟨_, (applyEmitted s _).symm⟩

theorem eventsOne {e : Effect} {event : Event} (h : e.events = [event]) : e = .emit event := by
  cases e <;> simp_all [Effect.events]

theorem speaker {role s a t event} (move : Move role s a t) (emitted : t.emitted = s.emitted ++ [event]) :
    (∃ r input p p', a = .task r input ∧ s.tasks r = some p ∧
      TaskMove role s.next s.fresh r p input p' (.emit event)) ∨
    ∃ x input reader', a = .reader x input ∧
      ReaderMove (s.exchanges x).session (s.exchanges x).stream (s.exchanges x).reader input reader'
        (.emit event) := by
  cases move with
  | incoming server free => simp at emitted
  | @task r input p p' e here step =>
    cases eventsOne (List.append_cancel_left ((applyEmitted s e).symm.trans emitted))
    exact .inl ⟨r, input, p, p', rfl, here, step⟩
  | @reader x input reader' e step =>
    rw [applyEmitted, editEmitted] at emitted
    cases eventsOne (List.append_cancel_left emitted)
    exact .inr ⟨x, input, reader', rfl, step⟩
  | enter free => simp at emitted
  | call here step =>
    have same := (callKeeps step).2.1
    simp [same] at emitted

theorem emitsOne {role s a t} (move : Move role s a t) :
    t.emitted = s.emitted ∨ ∃ event, t.emitted = s.emitted ++ [event] := by
  have one : ∀ e : Effect, e.events = [] ∨ ∃ event, e.events = [event] := by
    intro e
    cases e <;> simp [Effect.events]
  cases move with
  | incoming server free => exact .inl rfl
  | @task r input p p' e here step =>
    rcases one e with none_ | ⟨event, said⟩
    · exact .inl ((applyEmitted s e).trans (by simp [none_]))
    · exact .inr ⟨event, (applyEmitted s e).trans (by rw [said])⟩
  | @reader x input reader' e step =>
    rcases one e with none_ | ⟨event, said⟩
    · exact .inl ((applyEmitted (s.edit x _) e).trans (by simp [none_]))
    · exact .inr ⟨event, (applyEmitted (s.edit x _) e).trans (by rw [said]; rfl)⟩
  | enter free => exact .inl rfl
  | call here step => exact .inl (callKeeps step).2.1

theorem taskSpeaks {role next fresh r p input p' event}
    (move : TaskMove role next fresh r p input p' (.emit event)) :
    ∃ se, p.session = some se ∧ event.session = some se.id ∧ ¬ event.ofReader ∧
      (∀ reason, p ≠ .closed se reason) ∧
      (Opens se.id event ∨ .sessionOpened se.id se.authority se.path ∈ p.said) := by
  cases move with
  | open_ se => exact ⟨se, rfl, rfl, id, by simp, .inl ⟨_, _, rfl⟩⟩
  | close se reason => exact ⟨se, rfl, rfl, id, by simp, .inr (by simp [Phase.said])⟩
  | @serve se loop loop' input e move =>
    refine ⟨se, rfl, ?_, ?_, by simp, .inr (by simp [Phase.said])⟩
    · cases move <;> rfl
    · cases move <;> exact id

theorem readerSpeaks {id t reader input reader' event}
    (move : ReaderMove id t reader input reader' (.emit event)) :
    reader ≠ .unspawned ∧ (∀ told, reader ≠ .ended told) ∧
      ((∃ text, event = .streamData id t text) ∨ event = .streamClosed id t) := by
  cases move with
  | tell text => exact ⟨by simp, by simp, .inl ⟨text, rfl⟩⟩
  | close told => exact ⟨by simp, by simp, .inr rfl⟩

theorem saidEmitted {s : State} (told : Told s) {r p se event} (here : s.tasks r = some p)
    (session : p.session = some se) (said : event ∈ p.said) : event ∈ s.emitted := by
  rw [← told.own r p se here session] at said
  exact List.mem_of_mem_filter said

/-! A reader runs only for a session that has been announced. -/

def Call.opening : Call → Option SessionId
  | ⟨.openStream id, .opening _, _⟩ | ⟨.openStream id, .registering _, _⟩
  | ⟨.openStream id, .spawning _ _, _⟩ => some id
  | _ => none

def LooksUpKnown (s : State) (a : Label) : Prop :=
  ∀ c id sent, a = .call c .go → s.calls c = some ⟨.openStream id, .entered, sent⟩ →
    s.sessions id ≠ none → ∃ e ∈ s.emitted, Opens id e

structure Heard (s : State) : Prop where
  readers : ∀ x, (s.exchanges x).reader ≠ .unspawned →
    ∃ e ∈ s.emitted, Opens (s.exchanges x).session e
  calls : ∀ c k id, s.calls c = some k → k.opening = some id → ∃ e ∈ s.emitted, Opens id e

theorem callOpening {s c k reply k' e} (move : CallMove s c k reply k' e) {id}
    (h : k'.opening = some id) :
    k.opening = some id ∨ ∃ sent, reply = .go ∧ k = ⟨.openStream id, .entered, sent⟩ ∧
      s.sessions id ≠ none := by
  cases move with
  | @openFound i sent conn found => cases h; exact .inr ⟨sent, rfl, rfl, by simp [found]⟩
  | opened t => cases h; exact .inl rfl
  | openRegister => cases h; exact .inl rfl
  | _ => cases h

theorem onReader {x : Nat} {e : Effect} (ex : Exchange) (other : e ≠ .spawn x) :
    (e.on x ex).reader = ex.reader := by
  cases e with
  | spawn y =>
    have apart : x ≠ y := fun same => other (same ▸ rfl)
    simp [Effect.on, apart]
  | _ => simp only [Effect.on] <;> split_ifs <;> rfl

theorem readerRan {s : State} {e : Effect} (beyond : ∀ x, s.fresh ≤ x → s.exchanges x = .opened 0 0)
    (inside : ∀ x, e.target = some x → x < s.fresh) {x : Nat}
    (runs : ((s.apply e).exchanges x).reader ≠ .unspawned) :
    x < s.fresh ∧ ((s.apply e).exchanges x).session = (s.exchanges x).session ∧
      ((s.exchanges x).reader ≠ .unspawned ∨ e = .spawn x) := by
  rcases exchangeAfter s e x with ⟨id, t, rfl, rfl, after⟩ | after
  · rw [after] at runs
    exact absurd rfl runs
  · have less : x < s.fresh := by
      by_contra more
      have other : e.target ≠ some x := fun same => more (inside x same)
      rw [after, onElse other, beyond x (by omega)] at runs
      exact runs rfl
    refine ⟨less, ?_, ?_⟩
    · rw [after]
      exact congrArg Prod.fst (onKey x e (s.exchanges x))
    · by_cases spawns : e = .spawn x
      · exact .inr spawns
      · rw [after, onReader _ spawns] at runs
        exact .inl runs

theorem callSpawns {s c k reply k' x} (move : CallMove s c k reply k' (.spawn x)) :
    ∃ id t, k.opening = some id ∧ k.holds = some (x, (id, t)) := by
  cases move with
  | @openSpawn id sent t => exact ⟨id, t, rfl, rfl⟩

theorem holdsSession {p : Phase} {x id} (h : p.holds = some (x, id)) :
    ∃ se, p.session = some se ∧ se.id = id ∧ .sessionOpened se.id se.authority se.path ∈ p.said := by
  unfold Phase.holds at h
  split at h <;> cases h <;> exact ⟨_, rfl, rfl, by simp [Phase.said]⟩

theorem heardStep {role s a t} (move : Move role s a t) (told : Told s) (keyed : Keyed s)
    (known : LooksUpKnown s a) (heard : Heard s) : Heard t := by
  have lasts : ∀ {e}, e ∈ s.emitted → e ∈ t.emitted := fun h => (emittedGrows move).subset h
  have still : ∀ {id}, (∃ e ∈ s.emitted, Opens id e) → ∃ e ∈ t.emitted, Opens id e :=
    fun ⟨e, said, opens⟩ => ⟨e, lasts said, opens⟩
  cases move with
  | incoming server free => exact ⟨heard.readers, heard.calls⟩
  | @task r input p p' e here step =>
    refine ⟨fun x runs => ?_, fun c k id h opening => still (heard.calls c k id (by simpa using h) opening)⟩
    obtain ⟨less, same, ran | rfl⟩ := readerRan keyed.beyond (fun x => taskInside keyed here step) runs
    · exact still (same ▸ heard.readers x ran)
    · obtain ⟨-, id, holds⟩ := taskTarget step rfl
      obtain ⟨se, session, rfl, said⟩ := holdsSession holds
      refine still ⟨_, saidEmitted told here session said, se.authority, se.path, ?_⟩
      rw [same, (keyed.tasks r p x se.id here holds).2]
  | @reader y input reader' e step =>
    refine ⟨fun x runs => ?_, fun c k id h opening => still (heard.calls c k id ?_ opening)⟩
    · have started : (s.exchanges y).reader ≠ .unspawned := by
        intro none_
        rw [none_] at step
        cases step
      rw [readerExchanges _ step] at runs ⊢
      by_cases same : x = y
      · subst same
        rw [editSame]
        exact still (heard.readers x started)
      · rw [editOther _ _ _ same] at runs ⊢
        exact still (heard.readers x runs)
    · rw [(readerKeeps (s := s) step).2.2.2.2.2] at h
      exact h
  | enter free =>
    refine ⟨heard.readers, fun c k id h opening => ?_⟩
    rcases updateSome h with ⟨-, rfl⟩ | ⟨-, old⟩
    · simp [Call.opening] at opening
    · exact heard.calls c k id old opening
  | @call c reply k k' e here step =>
    refine ⟨fun x runs => ?_, fun d k1 id h opening => still ?_⟩
    · obtain ⟨less, same, ran | rfl⟩ := readerRan keyed.beyond (fun x => callInside keyed here step) runs
      · exact still (same ▸ heard.readers x ran)
      · obtain ⟨id, u, opening, holds⟩ := callSpawns step
        have mine := congrArg Prod.fst (keyed.calls c k x (id, u) here holds).2
        exact still ((same.trans mine) ▸ heard.calls c k id here opening)
    · rcases updateSome h with ⟨rfl, rfl⟩ | ⟨-, old⟩
      · rcases callOpening step opening with before | ⟨sent, rfl, rfl, found⟩
        · exact heard.calls d k id here before
        · exact known d id sent rfl here found
      · exact heard.calls d k1 id (by simpa using old) opening

/-! After the end. -/

theorem closedSpeaker {role s a t event} {id : SessionId} {reason : String} (move : Move role s a t)
    (kept : Kept s) (closed : .sessionClosed id reason ∈ s.emitted)
    (emitted : t.emitted = s.emitted ++ [event]) (about : event.session = some id) :
    ∃ x input reader', a = .reader x input ∧
      ReaderMove (s.exchanges x).session (s.exchanges x).stream (s.exchanges x).reader input reader'
        (.emit event) := by
  rcases speaker move emitted with ⟨r, input, p, p', -, here, step⟩ | reads
  · obtain ⟨se, session, own, -, going, -⟩ := taskSpeaks step
    exact absurd (closedOnly kept closed here session (Option.some.inj (own.symm.trans about)))
      (going reason)
  · exact reads

theorem readerEventSession {id t reader input reader' event}
    (move : ReaderMove id t reader input reader' (.emit event)) :
    event.session = some id ∧ event.ofReader := by
  cases move <;> exact ⟨rfl, trivial⟩

theorem bracketedStep {role s a t} (move : Move role s a t) (kept : Kept s) (heard : Heard s)
    (all : ∀ id, Bracketed id s.emitted) (id : SessionId) : Bracketed id t.emitted := by
  rcases emitsOne move with same | ⟨event, emitted⟩
  · rw [same]; exact all id
  · rw [emitted]
    refine ⟨precedesSnoc (all id).1 ?_, silencesSnoc (all id).2 ?_⟩
    · rintro ⟨about, later⟩
      rcases speaker move emitted with ⟨r, input, p, p', -, here, step⟩ | ⟨x, input, reader', -, step⟩
      · obtain ⟨se, session, own, -, -, opens | said⟩ := taskSpeaks step
        · cases Option.some.inj (own.symm.trans about)
          exact absurd opens later
        · cases Option.some.inj (own.symm.trans about)
          exact ⟨_, saidEmitted kept.told here session said, se.authority, se.path, rfl⟩
      · have own := (readerEventSession step).1
        cases Option.some.inj (own.symm.trans about)
        exact heard.readers x (readerSpeaks step).1
    · rintro ⟨about, notReader⟩ f closed ⟨reason, rfl⟩
      obtain ⟨x, input, reader', -, step⟩ := closedSpeaker move kept closed emitted about
      exact notReader (readerEventSession step).2

structure Quiet (id : SessionId) (s : State) : Prop where
  readers : ∀ x, (s.exchanges x).session = id →
    (s.exchanges x).reader = .unspawned ∨ ∃ told, (s.exchanges x).reader = .ended told
  calls : ∀ c k, s.calls c = some k → k.opening ≠ some id

theorem quietReader {id : SessionId} {s : State} (quiet : Quiet id s) {x t input reader' e}
    (move : ReaderMove (s.exchanges x).session t (s.exchanges x).reader input reader' e) :
    (s.exchanges x).session ≠ id := by
  intro own
  rcases quiet.readers x own with none_ | ⟨told, done⟩
  · rw [none_] at move; cases move
  · rw [done] at move; cases move

theorem quietApply {id : SessionId} {s : State} {e : Effect} (quiet : Quiet id s)
    (others : ∀ x, e = .spawn x → (s.exchanges x).session ≠ id) {x : Nat}
    (own : ((s.apply e).exchanges x).session = id) :
    ((s.apply e).exchanges x).reader = .unspawned ∨
      ∃ told, ((s.apply e).exchanges x).reader = .ended told := by
  rcases exchangeAfter s e x with ⟨i, t, -, -, after⟩ | after
  · rw [after]; exact .inl rfl
  · have same : (s.exchanges x).session = id := by
      rw [after] at own
      exact (congrArg Prod.fst (onKey x e (s.exchanges x))).symm.trans own
    rw [after, onReader _ fun spawns => others x spawns same]
    exact quiet.readers x same

theorem quietStep {role s a t} {id : SessionId} {reason : String} (move : Move role s a t) (kept : Kept s)
    (keyed : Keyed s) (closed : .sessionClosed id reason ∈ s.emitted) (quiet : Quiet id s) : Quiet id t := by
  cases move with
  | incoming server free => exact ⟨quiet.readers, quiet.calls⟩
  | @task r input p p' e here step =>
    refine ⟨fun x => quietApply quiet (fun y spawns => ?_), fun c k h => quiet.calls c k (by simpa using h)⟩
    subst spawns
    obtain ⟨-, i, holds⟩ := taskTarget step rfl
    obtain ⟨se, session, same, -⟩ := holdsSession holds
    rw [(keyed.tasks r p y i here holds).2, ← same]
    intro own
    rw [closedOnly kept closed here session own] at holds
    cases holds
  | @reader y input reader' e step =>
    refine ⟨fun x own => ?_, fun c k h => ?_⟩
    · rw [readerExchanges _ step] at own ⊢
      by_cases same : x = y
      · subst same
        rw [editSame] at own
        exact absurd own (quietReader quiet step)
      · rw [editOther _ _ _ same] at own ⊢
        exact quiet.readers x own
    · rw [(readerKeeps (s := s) step).2.2.2.2.2] at h
      exact quiet.calls c k h
  | enter free =>
    refine ⟨quiet.readers, fun c k h => ?_⟩
    rcases updateSome h with ⟨-, rfl⟩ | ⟨-, old⟩
    · simp [Call.opening]
    · exact quiet.calls c k old
  | @call c reply k k' e here step =>
    refine ⟨fun x => quietApply quiet (fun y spawns own => ?_), fun d k1 h opening => ?_⟩
    · subst spawns
      obtain ⟨i, u, opening, holds⟩ := callSpawns step
      have mine := congrArg Prod.fst (keyed.calls c k y (i, u) here holds).2
      exact quiet.calls c k here (opening.trans (congrArg some (mine.symm.trans own)))
    · rcases updateSome h with ⟨rfl, rfl⟩ | ⟨-, old⟩
      · rcases callOpening step opening with before | ⟨sent, -, -, found⟩
        · exact quiet.calls d k here before
        · exact found (sessionGone kept closed)
      · exact quiet.calls d k1 (by simpa using old) opening

/-! Whole runs. -/

def Bounded (role : Role) (s : State) : Prop :=
  ∀ expected, role = .server expected → s.accepted ≤ 2 ^ 64

def AsksKnown (role : Role) (labels : List Label) : Prop :=
  ∀ expected, role = .server expected → Along (step role) LooksUpKnown (init role) labels

theorem boundedBack {role s labels t} (ran : run (step role) s labels = some t) (room : Bounded role t) :
    Bounded role s :=
  fun expected server => (acceptedLasts ran).trans (room expected server)

theorem keptRun {role labels s} (ran : run (step role) (init role) labels = some s)
    (room : Bounded role s) : Kept s := by
  cases role with
  | server expected => exact serverKept ran (room expected rfl)
  | client id url => exact (clientKept ran).2

theorem emittedLasts {role s labels t} (ran : run (step role) s labels = some t) :
    s.emitted <+: t.emitted :=
  runRelates (R := fun s t : State => s.emitted <+: t.emitted) (fun _ => List.prefix_refl _)
    (fun _ _ _ _ old one => old.trans (emittedGrows (moves one))) ran

theorem clientKnown {id url labels s}
    (ran : run (step (.client id url)) (init (.client id url)) labels = some s) (a : Label) :
    LooksUpKnown s a := by
  intro c i sent _ _ found
  obtain ⟨⟨only, se, mine, rfl⟩, kept⟩ := clientKept ran
  obtain ⟨r, entry⟩ := Option.ne_none_iff_exists'.mp found
  obtain ⟨se', theirs, same⟩ := enrolledOf ((kept.enrolled i r).mp entry)
  obtain ⟨p, here, -⟩ := sessionOfSome.mp theirs
  cases only r p here
  cases Option.some.inj (mine.symm.trans theirs)
  subst same
  exact ⟨_, (emittedLasts ran).subset (by simp [init]), "", url, rfl⟩

theorem asksKnownAlong {role labels} (known : AsksKnown role labels) :
    Along (step role) LooksUpKnown (init role) labels := by
  cases role with
  | server expected => exact known expected rfl
  | client id url =>
    refine alongOf (P := fun u => ∃ as, run (step (.client id url)) (init (.client id url)) as = some u)
      (fun s a t before one => ?_) (fun s a before => ?_) ⟨[], rfl⟩ labels
    · obtain ⟨as, ran⟩ := before
      exact ⟨as ++ [a], runSnoc.mpr ⟨s, ran, one⟩⟩
    · obtain ⟨as, ran⟩ := before
      exact clientKnown ran a

theorem initHeard (role : Role) : Heard (init role) ∧ ∀ id, Bracketed id (init role).emitted := by
  cases role with
  | server expected =>
    exact ⟨⟨fun x runs => absurd rfl runs, fun c k id h => by simp [init] at h⟩,
      fun id => ⟨precedesNil, silencesNil⟩⟩
  | client own url =>
    refine ⟨⟨fun x runs => absurd rfl runs, fun c k id h => by simp [init] at h⟩, fun id => ?_⟩
    have one : (init (.client own url)).emitted = [] ++ [.sessionOpened own "" url] := rfl
    rw [one]
    refine ⟨precedesSnoc precedesNil ?_, silencesSnoc silencesNil fun _ f h => absurd h List.not_mem_nil⟩
    rintro ⟨about, later⟩
    cases Option.some.inj about
    exact absurd ⟨"", url, rfl⟩ later

theorem heardRun {role labels s} (ran : run (step role) (init role) labels = some s)
    (room : Bounded role s) (known : AsksKnown role labels) :
    Heard s ∧ ∀ id, Bracketed id s.emitted := by
  have all := alongKeeps (P := fun u => (∃ as, run (step role) (init role) as = some u) ∧
      (Bounded role u → Heard u ∧ ∀ id, Bracketed id u.emitted))
    (fun u a v old known one => ?_) ⟨⟨[], rfl⟩, fun _ => initHeard role⟩ (asksKnownAlong known) ran
  · exact all.2 room
  · obtain ⟨⟨as, before⟩, old⟩ := old
    refine ⟨⟨as ++ [a], runSnoc.mpr ⟨u, before, one⟩⟩, fun room => ?_⟩
    have earlier : Bounded role u := fun e server => (acceptedGrows (moves one)).trans (room e server)
    obtain ⟨heard, bracketed⟩ := old earlier
    have kept := keptRun before earlier
    exact ⟨heardStep (moves one) kept.told (keyedRun before) known heard,
      bracketedStep (moves one) kept heard bracketed⟩

theorem quietRun {role before u after s} {id : SessionId} {reason : String}
    (reached : run (step role) (init role) before = some u)
    (closed : .sessionClosed id reason ∈ u.emitted) (quiet : Quiet id u)
    (ran : run (step role) u after = some s) (room : Bounded role s) :
    ∃ more, s.emitted = u.emitted ++ more ∧ ∀ e ∈ more, e.session ≠ some id := by
  have all := runKeeps (P := fun v => (∃ as, run (step role) (init role) as = some v) ∧
      (Bounded role v → Quiet id v ∧
        ∃ more, v.emitted = u.emitted ++ more ∧ ∀ e ∈ more, e.session ≠ some id))
    (fun v a w old one => ?_) ⟨⟨before, reached⟩, fun _ => ⟨quiet, [], by simp, by simp⟩⟩ ran
  · exact (all.2 room).2
  · obtain ⟨⟨as, sofar⟩, old⟩ := old
    refine ⟨⟨as ++ [a], runSnoc.mpr ⟨v, sofar, one⟩⟩, fun room => ?_⟩
    have earlier : Bounded role v := fun e server => (acceptedGrows (moves one)).trans (room e server)
    obtain ⟨still, more, since, silent⟩ := old earlier
    have kept := keptRun sofar earlier
    have ended : .sessionClosed id reason ∈ v.emitted := by
      rw [since]; exact List.mem_append_left _ closed
    refine ⟨quietStep (moves one) kept (keyedRun sofar) ended still, ?_⟩
    rcases emitsOne (moves one) with same | ⟨event, emitted⟩
    · exact ⟨more, same.trans since, silent⟩
    · refine ⟨more ++ [event], by rw [emitted, since, List.append_assoc], fun e h => ?_⟩
      rcases List.mem_append.mp h with old | last
      · exact silent e old
      · cases List.mem_singleton.mp last
        intro about
        obtain ⟨x, input, reader', -, step⟩ := closedSpeaker (moves one) kept ended emitted about
        have own := (readerEventSession step).1
        exact quietReader still step (Option.some.inj (own.symm.trans about))

structure LastWord (role : Role) (labels : List Label) (s : State) : Prop where
  bracketed : ∀ id, Bracketed id s.emitted
  readersOnly : ∀ u a v id reason event, Takes (step role) (init role) labels u a v →
    .sessionClosed id reason ∈ u.emitted → v.emitted = u.emitted ++ [event] → event.session = some id →
    ∃ x input, a = .reader x input ∧ (u.exchanges x).session = id ∧ event.ofReader
  quiet : ∀ before after u id reason, labels = before ++ after →
    run (step role) (init role) before = some u → .sessionClosed id reason ∈ u.emitted → Quiet id u →
    ∃ more, s.emitted = u.emitted ++ more ∧ ∀ e ∈ more, e.session ≠ some id

theorem sessionClosedEndsTask {role labels s} (ran : run (step role) (init role) labels = some s)
    (room : Bounded role s) (known : AsksKnown role labels) : LastWord role labels s := by
  refine ⟨(heardRun ran room known).2, fun u a v id reason event takes closed emitted about => ?_,
    fun before after u id reason split reached closed quiet => ?_⟩
  · obtain ⟨before, after, -, reached, one, rest⟩ := takesSplit ran takes
    have kept := keptRun reached (boundedBack (runCons.mpr ⟨v, one, rest⟩) room)
    obtain ⟨x, input, reader', rfl, step⟩ := closedSpeaker (moves one) kept closed emitted about
    obtain ⟨own, reads⟩ := readerEventSession step
    exact ⟨x, input, rfl, Option.some.inj (own.symm.trans about), reads⟩
  · subst split
    obtain ⟨u', reached', rest⟩ := runAppend.mp ran
    cases Option.some.inj (reached.symm.trans reached')
    exact quietRun reached closed quiet rest room

def strayReader : List Label :=
  [.incoming 0, .task 0 (.requested "till.local" "/rk"), .task 0 .accepted, .task 0 .go, .task 0 .go,
   .task 0 .go, .task 0 (.bi 4), .task 0 .go, .task 0 .go, .task 0 .go, .task 0 (.ended "gone"),
   .task 0 .go, .task 0 .go, .task 0 .go, .reader 0 .failed, .reader 0 .go]

theorem strayReaderEmits :
    (run (step (.server "/rk")) (init (.server "/rk")) strayReader).map
        (fun s => (s.accepted, s.emitted)) =
      some (1, [.sessionOpened 1 "till.local" "/rk", .streamOpened 1 4, .sessionClosed 1 "gone",
        .streamClosed 1 4]) := by
  decide

theorem strayReaderLast :
    ∃ s, run (step (.server "/rk")) (init (.server "/rk")) strayReader = some s ∧
      LastWord (.server "/rk") strayReader s := by
  obtain ⟨s, ran, said⟩ := Option.map_eq_some_iff.mp strayReaderEmits
  have one : s.accepted = 1 := (Prod.mk.inj said).1
  have noCall : ∀ a ∈ strayReader, ∀ c reply, a ≠ .call c reply := by simp [strayReader]
  refine ⟨s, ran, sessionClosedEndsTask ran (fun _ _ => by omega) fun _ _ => ?_⟩
  exact alongMono (fun _ a none_ c _ _ same => absurd same (none_ c .go)) (alongForall noCall)

def earlyStream : List Label :=
  [.incoming 0, .task 0 (.requested "till.local" "/rk"), .task 0 .accepted, .task 0 .go, .task 0 .go,
   .enter 0 (.openStream 1), .call 0 .go, .call 0 (.opened 1), .call 0 .go, .call 0 .go,
   .reader 0 .failed, .reader 0 .go]

theorem taskAdvances (role : Role) (input : Input) {s r p p' e} (here : s.tasks r = some p)
    (moves : sessionTask role s.next s.fresh r p input = some (p', e)) :
    ∃ t, step role s (.task r input) = some t ∧ t.tasks r = some p' ∧
      t.emitted = s.emitted ++ e.events ∧ ∀ q, q ≠ r → t.tasks q = s.tasks q := by
  refine ⟨{s.apply e with tasks := Function.update s.tasks r (some p')}, ?_, ?_, applyEmitted s e,
    fun q other => ?_⟩
  · simp only [step, here, bind, Option.bind_some, moves]
  · exact Function.update_self ..
  · exact Function.update_of_ne other ..

theorem openingRun (expected : String) {s r se} (here : s.tasks r = some (.remembering se)) :
    ∃ t, run (step (.server expected)) s [.task r .go, .task r .go] = some t ∧
      t.tasks r = some (.serving se .selecting) ∧
      t.emitted = s.emitted ++ [.sessionOpened se.id se.authority se.path] ∧
      ∀ q, q ≠ r → t.tasks q = s.tasks q := by
  obtain ⟨u, one, now, silent, others⟩ := taskAdvances (.server expected) .go here rfl
  obtain ⟨t, two, serving, emitted, others'⟩ := taskAdvances (.server expected) .go now rfl
  refine ⟨t, runCons.mpr ⟨u, one, runCons.mpr ⟨t, two, rfl⟩⟩, serving, ?_,
    fun q other => (others' q other).trans (others q other)⟩
  rw [emitted, silent, List.append_assoc]
  rfl

theorem closingRun (expected : String) {s r se} (here : s.tasks r = some (.serving se .selecting))
    (reason : String) :
    ∃ t, run (step (.server expected)) s
        [.task r (.ended reason), .task r .go, .task r .go, .task r .go] = some t ∧
      t.emitted = s.emitted ++ [.sessionClosed se.id reason] ∧ ∀ q, q ≠ r → t.tasks q = s.tasks q := by
  obtain ⟨u, one, at1, said1, others1⟩ :=
    taskAdvances (.server expected) (.ended reason) here rfl
  obtain ⟨v, two, at2, said2, others2⟩ := taskAdvances (.server expected) .go at1 rfl
  obtain ⟨w, three, at3, said3, others3⟩ := taskAdvances (.server expected) .go at2 rfl
  obtain ⟨t, four, -, said4, others4⟩ := taskAdvances (.server expected) .go at3 rfl
  refine ⟨t, runCons.mpr ⟨u, one, runCons.mpr ⟨v, two, runCons.mpr ⟨w, three, runCons.mpr ⟨t, four, rfl⟩⟩⟩⟩,
    ?_, fun q other => ?_⟩
  · rw [said4, said3, said2, said1]
    simp [Effect.events]
  · rw [others4 q other, others3 q other, others2 q other, others1 q other]

theorem wrappedNumberReopens :
    ∃ labels s, run (step (.server "/rk")) (init (.server "/rk")) labels = some s ∧
      (∀ c id, .enter c (.openStream id) ∉ labels) ∧ ¬ Bracketed 1 s.emitted := by
  have first : (admittedState "/rk" (2 ^ 64 + 1)).tasks 0 =
      some (.remembering ⟨UInt64.ofNat (1 + 0), "till.local", "/rk"⟩) := by simp [admittedState]
  have last : (admittedState "/rk" (2 ^ 64 + 1)).tasks (2 ^ 64) =
      some (.remembering ⟨UInt64.ofNat (1 + 2 ^ 64), "till.local", "/rk"⟩) := by simp [admittedState]
  have wrapped : UInt64.ofNat (1 + 2 ^ 64) = 1 := by decide
  obtain ⟨u, opened, serving, said, others⟩ := openingRun "/rk" first
  obtain ⟨t, closed, ended, others'⟩ := closingRun "/rk" serving "gone"
  have waiting := (others' _ (by decide)).trans ((others _ (by decide)).trans last)
  obtain ⟨s, reopened, -, again, -⟩ := openingRun "/rk" waiting
  refine ⟨_, s, runAppend.mpr ⟨t, runAppend.mpr ⟨u, runAppend.mpr
    ⟨_, admissionsRun "/rk" (2 ^ 64 + 1), opened⟩, closed⟩, reopened⟩, fun c id => ?_, fun bracketed => ?_⟩
  · simp [admissionsNoCall]
  · have split : s.emitted = [.sessionOpened 1 "till.local" "/rk"] ++ .sessionClosed 1 "gone" ::
        [.sessionOpened 1 "till.local" "/rk"] := by
      rw [again, ended, said, wrapped]; rfl
    exact bracketed.2 _ _ _ split ⟨"gone", rfl⟩ _ (List.mem_singleton.mpr rfl) ⟨rfl, id⟩

theorem wordsOutside :
    (∃ s, run (step (.server "/rk")) (init (.server "/rk")) strayReader = some s ∧
      ¬ Enclosed 1 s.emitted) ∧
    (∃ s, run (step (.server "/rk")) (init (.server "/rk")) earlyStream = some s ∧
      s.accepted ≤ 2 ^ 64 ∧ ¬ Bracketed 1 s.emitted) ∧
    ∃ labels s, run (step (.server "/rk")) (init (.server "/rk")) labels = some s ∧
      (∀ c id, .enter c (.openStream id) ∉ labels) ∧ ¬ Bracketed 1 s.emitted := by
  refine ⟨?_, ?_, wrappedNumberReopens⟩
  · obtain ⟨s, ran, said⟩ := Option.map_eq_some_iff.mp strayReaderEmits
    refine ⟨s, ran, fun enclosed => ?_⟩
    have split : s.emitted = [.sessionOpened 1 "till.local" "/rk", .streamOpened 1 4] ++
        .sessionClosed 1 "gone" :: [.streamClosed 1 4] := (Prod.mk.inj said).2
    exact enclosed.2 _ _ _ split ⟨"gone", rfl⟩ _ (List.mem_singleton.mpr rfl) rfl
  · have emitted : (run (step (.server "/rk")) (init (.server "/rk")) earlyStream).map
        (fun s => (s.emitted, s.accepted)) = some ([.streamClosed 1 1], 1) := by decide
    obtain ⟨s, ran, said⟩ := Option.map_eq_some_iff.mp emitted
    obtain ⟨log, one⟩ := Prod.mk.inj said
    refine ⟨s, ran, by omega, fun bracketed => ?_⟩
    have early : ¬ Opens 1 (.streamClosed 1 1) := by rintro ⟨authority, path, same⟩; cases same
    obtain ⟨f, before, -⟩ := bracketed.1 [] _ [] log ⟨rfl, early⟩
    cases before

end RkQuic.Endpoint
