import RkQuic.LastWord

/-! The end of an endpoint. `drop` has the endpoint to itself, but not its runtime: the accept
tasks go on between the step that closes the sessions in the map and the one that shuts the
runtime down. A session has ended when its `session_loop` has returned. -/
namespace RkQuic.Endpoint
open Runs Naming

inductive Stage where
  | serving
  | drained
  | shut
  deriving DecidableEq, Repr

/-- `closed` holds the entries whose connections `drop` has closed. -/
structure Dropping where
  endpoint : State
  stage : Stage
  closed : SessionId → Option Nat

inductive DropLabel where
  | moves (a : Label)
  | drains
  | shuts
  deriving DecidableEq, Repr

def Label.ofCaller : Label → Bool
  | .enter _ _ | .call _ _ => true
  | _ => false

/- The map is drained, and what was in it closed, under one lock. -/
def Dropping.step (role : Role) (w : Dropping) : DropLabel → Option Dropping
  | .moves a =>
    if w.stage = .serving ∨ (w.stage = .drained ∧ a.ofCaller = false) then
      (Endpoint.step role w.endpoint a).map fun s => {w with endpoint := s}
    else none
  | .drains =>
    if w.stage = .serving then
      some ⟨{w.endpoint with sessions := fun _ => none}, .drained, w.endpoint.sessions⟩
    else none
  | .shuts => if w.stage = .drained then some {w with stage := .shut} else none

inductive DropMove (role : Role) (w : Dropping) : DropLabel → Dropping → Prop where
  | moves {a s} (allowed : w.stage = .serving ∨ (w.stage = .drained ∧ a.ofCaller = false))
      (taken : Endpoint.step role w.endpoint a = some s) : DropMove role w (.moves a) {w with endpoint := s}
  | drains (serving : w.stage = .serving) :
      DropMove role w .drains ⟨{w.endpoint with sessions := fun _ => none}, .drained, w.endpoint.sessions⟩
  | shuts (drained : w.stage = .drained) : DropMove role w .shuts {w with stage := .shut}

theorem dropMoves {role w a v} (one : Dropping.step role w a = some v) : DropMove role w a v := by
  cases a with
  | moves a =>
    obtain ⟨allowed, done⟩ := Option.ite_none_right_eq_some.mp one
    obtain ⟨s, taken, rfl⟩ := Option.map_eq_some_iff.mp done
    exact .moves allowed taken
  | drains =>
    obtain ⟨serving, done⟩ := Option.ite_none_right_eq_some.mp one
    cases done
    exact .drains serving
  | shuts =>
    obtain ⟨drained, done⟩ := Option.ite_none_right_eq_some.mp one
    cases done
    exact .shuts drained

def Dropping.init (role : Role) : Dropping := ⟨Endpoint.init role, .serving, fun _ => none⟩

def Phase.live : Phase → Option Session
  | .opening se | .serving se _ => some se
  | _ => none

def Dropping.Lives (w : Dropping) (r : Nat) (se : Session) : Prop := (w.endpoint.tasks r).bind Phase.live = some se

def Dropping.Told (w : Dropping) (r : Nat) : Prop := ∃ id, w.closed id = some r

/-- The session was inserted after the drain. -/
def Late (role : Role) (labels : List DropLabel) (r : Nat) : Prop :=
  ∃ u v se, Takes (Dropping.step role) (Dropping.init role) labels u (.moves (.task r .go)) v ∧
    u.stage ≠ .serving ∧ u.endpoint.tasks r = some (.remembering se)

def Missed (role : Role) (labels : List DropLabel) (r : Nat) (se : Session) : Prop :=
  ∃ u v, Takes (Dropping.step role) (Dropping.init role) labels u .drains v ∧ u.Lives r se ∧
    u.endpoint.sessions se.id ≠ some r

/-! What is in the map belongs to the task it names. -/

def MapsOwn (s : State) : Prop := ∀ id r, s.sessions id = some r → (s.tasks r).bind Phase.enrolled = some id

theorem mapsOwnStep {role s a t} (move : Move role s a t) (own : MapsOwn s) : MapsOwn t := by
  intro id q mapped
  cases move with
  | @incoming r expected server free =>
    have old := own id q mapped
    have other : q ≠ r := by
      rintro rfl
      rw [free] at old
      cases old
    simpa [other] using old
  | @task r input p p' e here step =>
    rcases taskEnrols s step with ⟨se, entry, -, map, exact_, others⟩ | ⟨kept, map⟩
    · simp only [map] at mapped
      by_cases mine : id = se.id
      · subst mine
        rw [Function.update_self] at mapped
        obtain ⟨rfl, enrolled⟩ := (exact_ q).mp mapped
        simpa using enrolled
      · rw [Function.update_of_ne mine] at mapped
        have old := own id q mapped
        have other : q ≠ r := by
          rintro rfl
          rw [here] at old
          exact (others id mine).1 old
        simpa [other] using old
    · simp only [map] at mapped
      have old := own id q mapped
      by_cases same : q = r
      · subst same
        simpa [here, kept] using old
      · simpa [same] using old
  | reader step =>
    obtain ⟨tasks, sessions, -⟩ := readerKeeps (s := s) step
    rw [tasks]
    exact own id q (sessions ▸ mapped)
  | enter free => exact own id q mapped
  | call here step =>
    simp only [(callKeeps step).1] at mapped
    simpa using own id q mapped

theorem mapsOwnRun {role labels s} (ran : run (step role) (init role) labels = some s) : MapsOwn s := by
  refine runKeeps (fun s a t own one => mapsOwnStep (moves one) own) ?_ ran
  cases role with
  | server expected => intro id r mapped; cases mapped
  | client id url =>
    intro i r mapped
    simp only [init] at mapped
    split at mapped
    · cases mapped
      simp [init, Phase.enrolled, *]
    · cases mapped

def Phase.early : Phase → Bool
  | .handshake | .refusing | .accepting _ _ | .numbering _ _ | .remembering _ | .dropped => true
  | _ => false

theorem earlyBefore {role next fresh r p input p' e} (move : TaskMove role next fresh r p input p' e)
    (early : p'.early = true) : p.early = true := by
  cases move <;> first | rfl | cases early

theorem earlyOutside {p : Phase} (early : p.early = true) : p.enrolled = none := by
  cases p <;> first | rfl | cases early

theorem liveEnrolled {p : Phase} {se : Session} (live : p.live = some se) : p.enrolled = some se.id := by
  cases p <;> cases live <;> rfl

theorem liveBefore {role next fresh r p input p' e se} (move : TaskMove role next fresh r p input p' e)
    (live : p'.live = some se) : (p.live = some se ∧ ∀ se', p ≠ .remembering se') ∨ (p = .remembering se ∧ input = .go) := by
  cases move with
  | remember => cases live; exact .inr ⟨rfl, rfl⟩
  | open_ | serve => exact .inl ⟨live, by simp⟩
  | _ => cases live

/-! What has been told by when. -/

theorem drainedIff {role labels w} (ran : run (Dropping.step role) (Dropping.init role) labels = some w) :
    .drains ∈ labels ↔ w.stage ≠ .serving := by
  refine runHistory (P := fun as w => .drains ∈ as ↔ w.stage ≠ .serving) (by simp [Dropping.init])
    (fun as u a v before old one => ?_) ran
  cases dropMoves one with
  | moves => simpa using old
  | drains => simp
  | shuts drained => simpa [drained] using old

theorem servingEndpoint {role labels w} (ran : run (Dropping.step role) (Dropping.init role) labels = some w)
    (serving : w.stage = .serving) : ∃ as, run (step role) (init role) as = some w.endpoint := by
  refine runKeeps (P := fun w => w.stage = .serving → ∃ as, run (step role) (init role) as = some w.endpoint)
    (fun u a v old one => ?_) (fun _ => ⟨[], rfl⟩) ran serving
  intro serving
  cases dropMoves one with
  | @moves a s allowed taken =>
    obtain ⟨as, before⟩ := old serving
    exact ⟨as ++ [a], runSnoc.mpr ⟨u.endpoint, before, taken⟩⟩
  | drains | shuts => cases serving

theorem taskChange {role s a t} (move : Move role s a t) (r : Nat) :
    (t.tasks r = s.tasks r ∧ ∀ input, a ≠ .task r input) ∨ (s.tasks r = none ∧ t.tasks r = some .handshake) ∨
      ∃ input p p' e, a = .task r input ∧ s.tasks r = some p ∧ TaskMove role s.next s.fresh r p input p' e ∧
        t.tasks r = some p' := by
  cases move with
  | @incoming q expected server free =>
    by_cases same : r = q
    · subst same
      exact .inr (.inl ⟨free, Function.update_self ..⟩)
    · exact .inl ⟨Function.update_of_ne same .., by simp⟩
  | @task q input p p' e here step =>
    by_cases same : r = q
    · subst same
      exact .inr (.inr ⟨input, p, p', e, rfl, here, step, Function.update_self ..⟩)
    · exact .inl ⟨by simp [same], by simp [Ne.symm same]⟩
  | reader step => exact .inl ⟨congrFun (readerKeeps (s := s) step).1 r, by simp⟩
  | enter free => exact .inl ⟨rfl, by simp⟩
  | call here step => exact .inl ⟨by simp, by simp⟩

structure ToldOf (role : Role) (labels : List DropLabel) (w : Dropping) : Prop where
  early : ∀ r p, (w.endpoint.tasks r = none ∨ (w.endpoint.tasks r = some p ∧ p.early = true)) → ¬ w.Told r
  live : ∀ r se, w.Lives r se → (w.Told r ↔ ¬ Late role labels r ∧ ¬ Missed role labels r se)

theorem toldOfMoves {role labels w v} {a : Label} (reached : run (Dropping.step role) (Dropping.init role) labels = some w)
    (drained : w.stage ≠ .serving) (old : ToldOf role labels w) (one : w.step role (.moves a) = some v) :
    ToldOf role (labels ++ [.moves a]) v := by
  obtain ⟨s, move, rfl⟩ : ∃ s, Move role w.endpoint a s ∧ v = {w with endpoint := s} := by
    cases dropMoves one with
    | moves allowed taken => exact ⟨_, moves taken, rfl⟩
  have missed : ∀ r se, Missed role (labels ++ [.moves a]) r se ↔ Missed role labels r se := by
    intro r se
    simp only [Missed, takesSnoc reached]
    simp
  have late : ∀ r, Late role (labels ++ [.moves a]) r ↔ Late role labels r ∨
      (a = .task r .go ∧ ∃ se, w.endpoint.tasks r = some (.remembering se)) := by
    intro r
    simp only [Late, takesSnoc reached]
    constructor
    · rintro ⟨u, z, se, taken | ⟨rfl, same, -⟩, after, here⟩
      · exact .inl ⟨u, z, se, taken, after, here⟩
      · cases same
        exact .inr ⟨rfl, se, here⟩
    · rintro (⟨u, z, se, taken, after, here⟩ | ⟨rfl, se, here⟩)
      · exact ⟨u, z, se, .inl taken, after, here⟩
      · exact ⟨w, _, se, .inr ⟨rfl, rfl, one⟩, drained, here⟩
  refine ⟨fun r p before => ?_, fun r se live => ?_⟩
  · show ¬ w.Told r
    rcases taskChange move r with ⟨same, -⟩ | ⟨none_, -⟩ | ⟨input, q, q', e, -, here, step, there⟩
    · exact old.early r p (same ▸ before)
    · exact old.early r p (.inl none_)
    · rcases before with none_ | ⟨now, early⟩
      · cases there.symm.trans none_
      · cases there.symm.trans now
        exact old.early r q (.inr ⟨here, earlyBefore step early⟩)
  · show w.Told r ↔ _
    rw [missed, late]
    have kept : (∀ se', w.endpoint.tasks r = some (.remembering se') → a ≠ .task r .go) → w.Lives r se →
        (w.Told r ↔ ¬ (Late role labels r ∨ (a = .task r .go ∧ ∃ se', w.endpoint.tasks r = some (.remembering se'))) ∧
          ¬ Missed role labels r se) := by
      intro other lives
      have aside : ¬ (a = .task r .go ∧ ∃ se', w.endpoint.tasks r = some (.remembering se')) := by
        rintro ⟨go, se', here⟩
        exact other se' here go
      rw [old.live r se lives, not_or, and_iff_left aside]
    rcases taskChange move r with ⟨same, other⟩ | ⟨none_, new⟩ | ⟨input, q, q', e, rfl, here, step, there⟩
    · exact kept (fun _ _ => other .go) (by rw [Dropping.Lives, ← same]; exact live)
    · rw [Dropping.Lives, new] at live
      cases live
    · rw [Dropping.Lives, there] at live
      rcases liveBefore step live with ⟨was, unlike⟩ | ⟨rfl, rfl⟩
      · refine kept (fun se' remembering => ?_) (by rw [Dropping.Lives, here]; exact was)
        cases here.symm.trans remembering
        exact absurd rfl (unlike se')
      · refine iff_of_false (old.early r _ (.inr ⟨here, rfl⟩)) fun fine => fine.1 (.inr ⟨rfl, se, here⟩)

theorem toldOfDrains {role labels w v} (reached : run (Dropping.step role) (Dropping.init role) labels = some w)
    (one : w.step role .drains = some v) : ToldOf role (labels ++ [.drains]) v := by
  obtain ⟨serving, rfl⟩ : w.stage = .serving ∧
      v = ⟨{w.endpoint with sessions := fun _ => none}, .drained, w.endpoint.sessions⟩ := by
    cases dropMoves one with
    | drains serving => exact ⟨serving, rfl⟩
  obtain ⟨as, before⟩ := servingEndpoint reached serving
  have own := mapsOwnRun before
  have never : .drains ∉ labels := fun drained => (drainedIff reached).mp drained serving
  refine ⟨fun r p outside => ?_, fun r se lives => ?_⟩
  · rintro ⟨id, mapped⟩
    have enrolled := own id r mapped
    rcases outside with none_ | ⟨here, early⟩
    · have none_ : w.endpoint.tasks r = none := none_
      rw [none_] at enrolled
      cases enrolled
    · have here : w.endpoint.tasks r = some p := here
      rw [here, Option.bind_some, earlyOutside early] at enrolled
      cases enrolled
  · have late : ¬ Late role (labels ++ [.drains]) r := by
      rintro ⟨u, z, se', taken, after, -⟩
      rcases (takesSnoc reached).mp taken with ⟨first, rest, rfl, ran, -⟩ | ⟨-, same, -⟩
      · exact never (List.mem_append_left _ ((drainedIff ran).mpr after))
      · cases same
    have missed : Missed role (labels ++ [.drains]) r se ↔ w.endpoint.sessions se.id ≠ some r := by
      constructor
      · rintro ⟨u, z, taken, -, unmapped⟩
        rcases (takesSnoc reached).mp taken with ⟨first, rest, rfl, -⟩ | ⟨rfl, -⟩
        · exact absurd (List.mem_append_right _ List.mem_cons_self) never
        · exact unmapped
      · exact fun unmapped => ⟨w, _, (takesSnoc reached).mpr (.inr ⟨rfl, rfl, one⟩), lives, unmapped⟩
    rw [missed, not_not, and_iff_right late]
    refine ⟨fun ⟨id, mapped⟩ => ?_, fun mapped => ⟨se.id, mapped⟩⟩
    have enrolled := own id r mapped
    obtain ⟨p, here, live⟩ := Option.bind_eq_some_iff.mp lives
    have here : w.endpoint.tasks r = some p := here
    rw [here, Option.bind_some, liveEnrolled live] at enrolled
    cases enrolled
    exact mapped

theorem toldOfRun {role labels w} (ran : run (Dropping.step role) (Dropping.init role) labels = some w)
    (drained : w.stage ≠ .serving) : ToldOf role labels w := by
  refine runHistory (P := fun as w => w.stage ≠ .serving → ToldOf role as w) (fun after => absurd rfl after)
    (fun as u a v before old one after => ?_) ran drained
  cases a with
  | moves a =>
    have same : v.stage = u.stage := by
      cases dropMoves one with
      | moves => rfl
    exact toldOfMoves before (same ▸ after) (old (same ▸ after)) one
  | drains => exact toldOfDrains before one
  | shuts =>
    obtain ⟨was, rfl⟩ : u.stage = .drained ∧ v = {u with stage := .shut} := by
      cases dropMoves one with
      | shuts drained => exact ⟨drained, rfl⟩
    have toldOf := old (by simp [was])
    refine ⟨toldOf.early, fun r se lives => ?_⟩
    have late : Late role (as ++ [.shuts]) r ↔ Late role as r := by simp [Late, takesSnoc before]
    have missed : Missed role (as ++ [.shuts]) r se ↔ Missed role as r se := by simp [Missed, takesSnoc before]
    rw [late, missed]
    exact toldOf.live r se lives

theorem missedNever {role labels w} (ran : run (Dropping.step role) (Dropping.init role) labels = some w)
    (few : Bounded role w.endpoint) (r : Nat) (se : Session) : ¬ Missed role labels r se := by
  rintro ⟨u, v, taken, lives, unmapped⟩
  obtain ⟨before, after, rfl, first, one, rest⟩ := takesSplit ran taken
  have grows : ∀ u a v, Dropping.step role u a = some v → u.endpoint.accepted ≤ v.endpoint.accepted := by
    intro u a v one
    cases dropMoves one with
    | moves allowed taken => exact acceptedGrows (moves taken)
    | drains | shuts => exact le_rfl
  have serving : u.stage = .serving := by
    cases dropMoves one with
    | drains serving => exact serving
  have later : u.endpoint.accepted ≤ w.endpoint.accepted := by
    refine (grows u _ v one).trans ?_
    exact runRelates (R := fun u w : Dropping => u.endpoint.accepted ≤ w.endpoint.accepted) (fun _ => le_rfl)
      (fun _ _ _ _ old one => old.trans (grows _ _ _ one)) rest
  obtain ⟨as, reached⟩ := servingEndpoint first serving
  have kept := keptRun reached fun expected server => later.trans (few expected server)
  obtain ⟨p, here, live⟩ := Option.bind_eq_some_iff.mp lives
  refine unmapped ((kept.enrolled se.id r).mpr ?_)
  rw [here, Option.bind_some, liveEnrolled live]

theorem sessionsToldOfDrop {role labels w v} (ran : run (Dropping.step role) (Dropping.init role) labels = some w)
    (begins : w.step role .shuts = some v) :
    ((∀ r se, w.Lives r se → w.Told r) ↔ ∀ r se, w.Lives r se → ¬ Late role labels r ∧ ¬ Missed role labels r se) ∧
      (Bounded role w.endpoint → ∀ r se, ¬ Missed role labels r se) := by
  have drained : w.stage ≠ .serving := by
    intro serving
    simp [Dropping.step, serving] at begins
  have toldOf := toldOfRun ran drained
  exact ⟨forall₂_congr fun r se => forall_congr' fun lives => toldOf.live r se lives, missedNever ran⟩

def insertedTooLate : List DropLabel :=
  [.moves (.incoming 0), .moves (.task 0 (.requested "till" "/rk")), .moves (.task 0 .accepted), .moves (.task 0 .go), .drains,
    .moves (.task 0 .go), .moves (.task 0 .go)]

def insertedBefore : List DropLabel :=
  [.moves (.incoming 0), .moves (.task 0 (.requested "till" "/rk")), .moves (.task 0 .accepted), .moves (.task 0 .go),
    .moves (.task 0 .go), .moves (.task 0 .go)]

theorem sessionNotTold : ∃ w v, run (Dropping.step (.server "/rk")) (Dropping.init (.server "/rk")) insertedTooLate = some w ∧
    w.step (.server "/rk") .shuts = some v ∧ w.endpoint.sessions 1 = some 0 ∧ w.Lives 0 ⟨1, "till", "/rk"⟩ ∧ ¬ w.Told 0 := by
  have seen : (run (Dropping.step (.server "/rk")) (Dropping.init (.server "/rk")) insertedTooLate).map
      (fun w => (w.stage, w.endpoint.sessions 1, w.endpoint.tasks 0)) =
      some (.drained, some 0, some (.serving ⟨1, "till", "/rk"⟩ .selecting)) := by decide
  obtain ⟨w, ran, same⟩ := Option.map_eq_some_iff.mp seen
  simp only [Prod.mk.injEq] at same
  obtain ⟨drained, mapped, here⟩ := same
  have lives : w.Lives 0 ⟨1, "till", "/rk"⟩ := by rw [Dropping.Lives, here]; rfl
  refine ⟨w, _, ran, if_pos drained, mapped, lives, fun told => ?_⟩
  have prompt := ((toldOfRun ran (by simp [drained])).live 0 _ lives).mp told
  refine prompt.1 ?_
  have there : ((run (Dropping.step (.server "/rk")) (Dropping.init (.server "/rk")) (insertedTooLate.take 5)).bind fun u =>
      (u.step (.server "/rk") (.moves (.task 0 .go))).map fun _ => (u.stage, u.endpoint.tasks 0)) =
      some (.drained, some (.remembering ⟨1, "till", "/rk"⟩)) := by decide
  obtain ⟨u, before, one⟩ := Option.bind_eq_some_iff.mp there
  obtain ⟨z, one, same⟩ := Option.map_eq_some_iff.mp one
  obtain ⟨after, remembering⟩ := Prod.mk.inj same
  exact ⟨u, z, _, ⟨insertedTooLate.take 5, [.moves (.task 0 .go)], rfl, before, one⟩, by simp [after], remembering⟩

theorem sessionsToldOfDropBefore : ∃ w, run (Dropping.step (.server "/rk")) (Dropping.init (.server "/rk"))
    (insertedBefore ++ [.drains]) = some w ∧
    w.Lives 0 ⟨1, "till", "/rk"⟩ ∧ ∀ r se, w.Lives r se → w.Told r := by
  have seen : (run (Dropping.step (.server "/rk")) (Dropping.init (.server "/rk")) (insertedBefore ++ [.drains])).map
      (fun w => (w.stage, w.endpoint.accepted, w.endpoint.tasks 0)) =
      some (.drained, 1, some (.serving ⟨1, "till", "/rk"⟩ .selecting)) := by decide
  obtain ⟨w, ran, same⟩ := Option.map_eq_some_iff.mp seen
  simp only [Prod.mk.injEq] at same
  obtain ⟨drained, one, here⟩ := same
  have lives : w.Lives 0 ⟨1, "till", "/rk"⟩ := by rw [Dropping.Lives, here]; rfl
  obtain ⟨told, missed⟩ := sessionsToldOfDrop ran (if_pos drained)
  have few : Bounded (.server "/rk") w.endpoint := by
    intro expected server
    rw [one]
    decide
  refine ⟨w, ran, lives, told.mpr fun r se _ => ⟨?_, missed few r se⟩⟩
  rintro ⟨u, v, se', taken, after, -⟩
  obtain ⟨z, reached, -⟩ := runSnoc.mp ran
  rcases (takesSnoc reached).mp taken with ⟨first, rest, split, before, -⟩ | ⟨-, same, -⟩
  · have inside : .drains ∈ insertedBefore := by
      rw [split]
      exact List.mem_append_left _ ((drainedIff before).mpr after)
    exact absurd inside (by decide)
  · cases same

end RkQuic.Endpoint
