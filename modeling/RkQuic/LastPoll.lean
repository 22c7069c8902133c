import RkQuic.Hearing

/-! The end of a poller: what it leaves behind, when it may end, and how soon it does once its
endpoint has been removed. -/
namespace RkQuic.Hearing
open Creating (Handle)
open EventJson EventQueue Poller Programs Runs

def Short : Part Request Answer Nat → Prop
  | .entering rest => rest.Within 1
  | .turning _ rest => rest.Within 7
  | .leaving rest => rest.Within 1
  | .left => True

def Ends (handle : Handle) : Part Request Answer Nat → Nat → Prop
  | .entering rest, n => ∃ k, rest.Within k ∧ k + 5 ≤ n
  | .turning out rest, n =>
    (rest = turn handle out ∧ 4 ≤ n) ∨ (rest = .done false ∧ 3 ≤ n) ∨ ∃ k, rest.Within k ∧ k + 5 ≤ n
  | .leaving rest, n => ∃ k, rest.Within k ∧ k + 1 ≤ n
  | .left, _ => True

theorem leaveWithin (handle : Handle) (out : Nat) : ((pollLoop handle).leave out).Within 1 := by
  show (perform (.free out)).Within 1
  exact withinAsk _ _

section Steps
variable {complaint : String → String} {handle : Handle} {s t : State}

theorem advanceWithin {α : Type} {rest rest' : Dart α} {w w' : Isolate} {a : Answer} {k : Nat} (within : rest.Within k)
    (one : advance device (rest, w) a = some (rest', w')) : ∃ m, k = m + 1 ∧ rest'.Within m := by
  cases rest with
  | done | thrown => cases one
  | act request next =>
    obtain ⟨u, -, same⟩ := Option.map_eq_some_iff.mp one
    cases same
    obtain ⟨m, same, all⟩ := within
    exact ⟨m, same, all a⟩

theorem shortNext {p q : Part Request Answer Nat} (next : (pollLoop handle).next p = some q) : Short q := by
  have leaves (out : Nat) : Short (.leaving ((pollLoop handle).leave out)) := leaveWithin handle out
  have turns (out : Nat) : Short (.turning out ((pollLoop handle).turn out)) := turnWithin handle out
  cases p with
  | left => cases next
  | entering rest => cases rest <;> cases next <;> first | exact turns _ | exact trivial
  | turning out rest =>
    cases rest with
    | act => cases next
    | thrown => cases next; exact leaves out
    | done again => cases again <;> cases next <;> first | exact leaves out | exact turns out
  | leaving rest => cases rest <;> cases next <;> exact trivial

theorem shortAdvance {p q : Part Request Answer Nat} {w w' : Isolate} {a : Answer} (old : Short p)
    (one : advancePart device (p, w) a = some (q, w')) : Short q := by
  cases p with
  | left => cases one
  | entering rest | turning _ rest | leaving rest =>
    obtain ⟨y, advanced, same⟩ := Option.map_eq_some_iff.mp one
    cases same
    obtain ⟨m, less, within⟩ := advanceWithin old advanced
    exact withinMore (by omega) within

theorem ownMoves {label : Label} (one : step complaint handle s label = some t) (own : label.own = true) :
    (∃ a request, label = .answer a ∧ Answered s t request a) ∨
    ((pollLoop handle).next s.poller = some t.poller ∧ t.isolate = s.isolate) := by
  cases label with
  | answer a =>
    obtain ⟨request, answered⟩ := answeredOf one
    exact .inl ⟨a, request, rfl, answered⟩
  | next =>
    simp only [step] at one
    split at one
    · obtain ⟨poller, next, rfl⟩ := Option.map_eq_some_iff.mp one
      exact .inr ⟨next, rfl⟩
    · cases one
  | emit | remove | drop | kill | listen | cancel | deliver => cases own

theorem othersMove {label : Label} (one : step complaint handle s label = some t) (own : label.own = false) :
    t.poller = s.poller ∧ t.isolate = s.isolate ∧ (s.registered = false → t.registered = false) := by
  cases label with
  | emit e => cases one; exact ⟨rfl, rfl, id⟩
  | remove => cases one; exact ⟨rfl, rfl, fun _ => rfl⟩
  | cancel n => cases one; exact ⟨rfl, rfl, id⟩
  | drop | kill | listen n | deliver =>
    simp only [step] at one
    split at one <;> cases one
    exact ⟨rfl, rfl, id⟩
  | answer | next => cases own

theorem shortRun {library : Bool} {labels : List Label} (ran : run (step complaint handle) (init library handle) labels = some s) :
    Short s.poller := by
  refine runKeeps (P := fun s => Short s.poller) (fun u label v old one => ?_) ?_ ran
  · cases own : label.own with
    | false => exact (othersMove one own).1 ▸ old
    | true =>
      rcases ownMoves one own with ⟨a, request, rfl, answered⟩ | ⟨next, -⟩
      · exact shortAdvance old answered.advance
      · exact shortNext next
  · cases library with
    | true =>
      show calloc.Within 1
      exact withinAsk _ _
    | false => exact trivial

theorem endsShort {p : Part Request Answer Nat} (short : Short p) : Ends handle p 12 := by
  cases p with
  | entering rest => exact ⟨1, short, by omega⟩
  | turning out rest => exact .inr (.inr ⟨7, short, by omega⟩)
  | leaving rest => exact ⟨1, short, by omega⟩
  | left => exact trivial

theorem endsNext {p q : Part Request Answer Nat} {n : Nat} (old : Ends handle p n) (next : (pollLoop handle).next p = some q) :
    ∃ m, n = m + 1 ∧ Ends handle q m := by
  have leaves (out : Nat) (enough : 3 ≤ n) : ∃ m, n = m + 1 ∧ Ends handle (.leaving ((pollLoop handle).leave out)) m :=
    ⟨n - 1, by omega, 1, leaveWithin handle out, by omega⟩
  have turns (out : Nat) (enough : 5 ≤ n) : ∃ m, n = m + 1 ∧ Ends handle (.turning out ((pollLoop handle).turn out)) m :=
    ⟨n - 1, by omega, .inl ⟨rfl, by omega⟩⟩
  cases p with
  | left => cases next
  | entering rest =>
    obtain ⟨k, -, enough⟩ := old
    cases rest <;> cases next
    · exact turns _ (by omega)
    · exact ⟨n - 1, by omega, trivial⟩
  | turning out rest =>
    have enough : 3 ≤ n := by rcases old with ⟨-, most⟩ | ⟨-, most⟩ | ⟨k, -, most⟩ <;> omega
    cases rest with
    | act => cases next
    | thrown => cases next; exact leaves out enough
    | done again =>
      cases again <;> cases next
      · exact leaves out enough
      · rcases old with ⟨same, -⟩ | ⟨same, -⟩ | ⟨k, -, most⟩
        · cases same
        · cases same
        · exact turns out (by omega)
  | leaving rest =>
    obtain ⟨k, -, enough⟩ := old
    cases rest <;> cases next <;> exact ⟨n - 1, by omega, trivial⟩

theorem endsAnswer {request : Request} {a : Answer} {n : Nat} (removed : s.registered = false) (answered : Answered s t request a)
    (old : Ends handle s.poller n) : ∃ m, n = m + 1 ∧ Ends handle t.poller m := by
  have advance := answered.advance
  cases at_ : s.poller with
  | left =>
    rw [at_] at advance
    cases advance
  | entering rest | leaving rest =>
    rw [at_] at advance old
    obtain ⟨y, advanced, same⟩ := Option.map_eq_some_iff.mp advance
    obtain ⟨k, within, enough⟩ := old
    obtain ⟨m, less, within⟩ := advanceWithin within advanced
    rw [← (Prod.mk.inj same).1]
    exact ⟨n - 1, by omega, m, within, by omega⟩
  | turning out rest =>
    rw [at_] at advance old
    obtain ⟨y, advanced, same⟩ := Option.map_eq_some_iff.mp advance
    rcases old with ⟨begins, enough⟩ | ⟨ends, -⟩ | ⟨k, within, enough⟩
    · rw [answeredTurn at_ begins answered]
      subst begins
      have asked : request = .lookup handle out := by
        have asked := answered.asked
        rw [at_] at asked
        exact (Option.some.inj asked).symm
      subst asked
      have within := answered.endpoint
      have answers := answered.answers
      cases a <;> try cases answers
      rename_i there
      simp only [endpoint, removed] at within
      split at within <;> try cases within
      rename_i none_
      subst none_
      exact ⟨n - 1, by omega, .inr (.inl ⟨rfl, by omega⟩)⟩
    · subst ends
      cases advanced
    · obtain ⟨m, less, within⟩ := advanceWithin within advanced
      rw [← (Prod.mk.inj same).1]
      exact ⟨n - 1, by omega, .inr (.inr ⟨m, within, by omega⟩)⟩

theorem endsRun {n : Nat} {more : List Label} (removed : s.registered = false) (ends : Ends handle s.poller n)
    (ran : run (step complaint handle) s more = some t) : (more.filter Label.own).length ≤ n := by
  induction more generalizing s n with
  | nil => exact Nat.zero_le _
  | cons label more ih =>
    obtain ⟨u, one, rest⟩ := runCons.mp ran
    cases own : label.own with
    | false =>
      obtain ⟨poller, -, still⟩ := othersMove one own
      rw [List.filter_cons_of_neg (by simp [own])]
      exact ih (still removed) (poller ▸ ends) rest
    | true =>
      have still := (keptStep one own).registered.trans removed
      rw [List.filter_cons_of_pos own, List.length_cons]
      rcases ownMoves one own with ⟨a, request, rfl, answered⟩ | ⟨next, -⟩
      · obtain ⟨m, rfl, fewer⟩ := endsAnswer removed answered ends
        exact Nat.succ_le_succ (ih still fewer rest)
      · obtain ⟨m, rfl, fewer⟩ := endsNext ends next
        exact Nat.succ_le_succ (ih still fewer rest)

def grasp (s : State) : Nat := s.isolate.taken.length + s.isolate.holding.toNat

theorem graspStep {label : Label} (line : Line s) (removed : s.registered = false)
    (one : step complaint handle s label = some t) : grasp t ≤ grasp s := by
  cases own : label.own with
  | false => rw [grasp, grasp, (othersMove one own).2.1]
  | true =>
    rcases ownMoves one own with ⟨a, request, rfl, answered⟩ | ⟨-, same⟩
    · have within := answered.endpoint
      have may : able s.isolate request := (loopingAsks line.looping answered.asked).2
      cases answered.told with
      | aside _ taken _ holding | sent taken _ holding => rw [grasp, grasp, taken, holding]
      | waited taken _ holding => rw [grasp, grasp, taken, holding]; simp
      | took taken _ holding => simp [grasp, taken, holding, show s.isolate.holding = true from may.2]
      | looked taken _ holding =>
        simp only [endpoint, removed] at within
        split at within <;> try cases within
        rename_i none_
        subst none_
        simp [grasp, taken, holding]
    · rw [grasp, grasp, same]

theorem notStuck (line : Line s) (alive : s.alive = true) (open_ : s.poller ≠ .left) :
    ∃ label t, label.own = true ∧ step complaint handle s label = some t := by
  cases asked : s.poller.request with
  | some request =>
    obtain ⟨a, t, one⟩ := answerable complaint handle line alive asked
    exact ⟨.answer a, t, rfl, one⟩
  | none =>
    have next : ∃ q, (pollLoop handle).next s.poller = some q := by
      cases at_ : s.poller with
      | left => exact absurd at_ open_
      | entering rest | leaving rest =>
        rw [at_] at asked
        cases rest <;> first | exact ⟨_, rfl⟩ | cases asked
      | turning out rest =>
        rw [at_] at asked
        cases rest with
        | act => cases asked
        | thrown => exact ⟨_, rfl⟩
        | done again => cases again <;> exact ⟨_, rfl⟩
    obtain ⟨q, next⟩ := next
    exact ⟨.next, {s with poller := q}, rfl, by simp only [step, alive, next, if_true, Option.map_some]⟩

theorem stoppedPollerEnds {library : Bool} {labels more : List Label}
    (ran : run (step complaint handle) (init library handle) labels = some s) (removed : s.registered = false)
    (on : run (step complaint handle) s more = some t) :
    (more.filter Label.own).length ≤ 12 ∧ t.isolate.taken.length ≤ s.isolate.taken.length + 1 ∧
    (t.alive = true → t.poller ≠ .left → ∃ label u, label.own = true ∧ step complaint handle t label = some u) := by
  refine ⟨endsRun removed (endsShort (shortRun ran)) on, ?_, notStuck (lineRun (runAppend.mpr ⟨s, ran, on⟩))⟩
  have still : Line t ∧ t.registered = false ∧ grasp t ≤ grasp s := by
    refine runKeeps (P := fun u => Line u ∧ u.registered = false ∧ grasp u ≤ grasp s) (fun u label v old one => ?_)
      ⟨lineRun ran, removed, le_refl _⟩ on
    obtain ⟨line, gone, least⟩ := old
    refine ⟨lineStep line one, ?_, (graspStep line gone one).trans least⟩
    cases own : label.own with
    | false => exact (othersMove one own).2.2 gone
    | true => exact (keptStep one own).registered.trans gone
  have most := still.2.2
  have one : s.isolate.holding.toNat ≤ 1 := Bool.toNat_le _
  unfold grasp at most
  omega

structure Frugal (s : State) : Prop where
  lawful : ∀ request, s.poller.request = some request → able s.isolate request
  cell : ∃ out, ∀ p, p ≠ out → s.isolate.blocks p = none
  buffer : ∃ p, ∀ q, q ≠ p → s.isolate.strings q = none
  turns : ∀ out, s.poller = .turning out (.done true) → s.isolate.strings = (fun _ => none)
  left : s.poller = .left → s.isolate.blocks = (fun _ => none) ∧ s.isolate.strings = (fun _ => none) ∧
    s.isolate.posted = s.isolate.taken.map toJson ∧ (s.registered = false ∨ s.isolate.taken = [])

theorem pollerLeavesNothing {library : Bool} {labels : List Label}
    (ran : run (step complaint handle) (init library handle) labels = some s) : Frugal s := by
  have line := lineRun ran
  have during := nowDuring line.looping
  refine ⟨fun request asked => (loopingAsks line.looping asked).2, ?_, ?_, fun out at_ => ?_, fun at_ => ?_⟩
  · rcases during.cell with none_ | ⟨out, c, some_⟩
    · exact ⟨0, fun p _ => by rw [none_]⟩
    · exact ⟨out, fun p apart => by rw [some_, cells, Function.update_of_ne apart]⟩
  · rcases during.hand with even | ⟨_, _, _, _, none_ | ⟨p, some_⟩⟩
    · exact ⟨0, fun q _ => by rw [even.strings]⟩
    · exact ⟨0, fun q _ => by rw [none_]⟩
    · exact ⟨p, fun q apart => by rw [some_, Function.update_of_ne apart]⟩
  · have looping := line.looping
    rw [at_] at looping
    exact looping.even.strings
  · have looping := line.looping
    rw [at_] at looping
    exact ⟨looping.blocks, looping.even.strings, looping.even.posted, looping.ended.imp_left line.refused⟩

end Steps

def lastPoll : List Label :=
  [.answer (.address 0), .next, .answer (.found true), .remove, .emit (.sessionClosed 7 "gone"),
    .answer (.event (.sessionClosed 7 "gone") 5), .drop, .answer (.pointer (some 5)),
    .answer (.text (some (toJson (.sessionClosed 7 "gone")))), .answer .done, .answer .done, .answer .done, .next,
    .answer (.found false), .next, .answer .done, .next]

theorem lastPollFrugal : ∃ s, run (step id 1) (init true 1) lastPoll = some s ∧
    s.isolate.posted = [toJson (.sessionClosed 7 "gone")] ∧ s.isolate.blocks = (fun _ => none) := by
  obtain ⟨s, ran⟩ : ∃ s, run (step id 1) (init true 1) lastPoll = some s := Option.isSome_iff_exists.mp (by decide +kernel)
  have seen : (run (step id 1) (init true 1) lastPoll).map (fun s => (s.isolate.posted, s.poller matches .left)) =
      some ([toJson (.sessionClosed 7 "gone")], true) := by
    decide +kernel
  rw [ran] at seen
  obtain ⟨posted, over_⟩ := Prod.mk.inj (Option.some.inj seen)
  have ended : s.poller = .left := by
    cases at_ : s.poller <;> rw [at_] at over_ <;> first | rfl | cases over_
  exact ⟨s, ran, posted, ((pollerLeavesNothing ran).left ended).1⟩

theorem lastPollEnds : ∃ s t, run (step id 1) (init true 1) (lastPoll.take 4) = some s ∧
    run (step id 1) s (lastPoll.drop 4) = some t ∧ t.isolate.taken.length ≤ s.isolate.taken.length + 1 := by
  obtain ⟨t, ran⟩ : ∃ t, run (step id 1) (init true 1) lastPoll = some t := Option.isSome_iff_exists.mp (by decide +kernel)
  rw [← List.take_append_drop 4 lastPoll] at ran
  obtain ⟨s, first, rest⟩ := runAppend.mp ran
  have removed : (run (step id 1) (init true 1) (lastPoll.take 4)).map (fun s => s.registered) = some false := by
    decide +kernel
  rw [first] at removed
  exact ⟨s, t, first, rest, (stoppedPollerEnds first (Option.some.inj removed) rest).2.1⟩

end RkQuic.Hearing
