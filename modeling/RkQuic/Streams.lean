import RkQuic.Sessions

/-! The registered streams: what a key leads to, what a task or a call may do with the
stream it holds, and who is yet to spawn a reader. A stream keeps its key for good, so
what is known of it when it is looked up is still known when its lock is taken. -/
namespace RkQuic.Endpoint
open Runs Naming

def Phase.holds : Phase → Option (Nat × SessionId)
  | .serving se (.announcing _ x) | .serving se (.spawning x) => some (x, se.id)
  | _ => none

def Call.holds (k : Call) : Option (Nat × (SessionId × StreamId)) :=
  match k.method, k.progress with
  | .streamSend id t _, .waiting x | .streamSend id t _, .writing x _ => some (x, (id, t))
  | .streamClose id t, .waiting x | .streamClose id t, .finishing x
  | .streamClose id t, .finished x => some (x, (id, t))
  | .openStream id, .spawning t x => some (x, (id, t))
  | _, _ => none

def Effect.on (x : Nat) (e : Effect) (ex : Exchange) : Exchange :=
  match e with
  | .take _ _ y c => if x = y then {ex with taken := some c} else ex
  | .spawn y => if x = y then {ex with reader := .reading []} else ex
  | .acquire y c writes =>
    if x = y then {ex with locked := some c, turns := if writes then ex.turns ++ [c] else ex.turns}
    else ex
  | .put y chunk => if x = y then {ex with bytes := ex.bytes ++ chunk} else ex
  | .finish y => if x = y then {ex with fin := ex.fin || !ex.broken} else ex
  | .release y failed => if x = y then {ex with locked := Option.none, broken := ex.broken || failed} else ex
  | _ => ex

theorem editExchange (s : State) (x y : Nat) (f : Exchange → Exchange) :
    (s.edit y f).exchanges x = if x = y then f (s.exchanges x) else s.exchanges x := by
  by_cases same : x = y
  · subst same; simp
  · rw [editOther _ _ _ same, if_neg same]

theorem exchangeAfter (s : State) (e : Effect) (x : Nat) :
    (∃ id t, e = .register id t ∧ x = s.fresh ∧ (s.apply e).exchanges x = .opened id t) ∨
      (s.apply e).exchanges x = e.on x (s.exchanges x) := by
  cases e with
  | register id t =>
    by_cases newest : x = s.fresh
    · exact .inl ⟨id, t, rfl, newest, by simp [State.apply, newest]⟩
    · exact .inr (by simp [State.apply, Effect.on, newest])
  | _ => exact .inr (by simp only [State.apply, Effect.on, editExchange])

theorem applyExchange (s : State) (e : Effect) {x : Nat}
    (other : x < s.fresh ∨ (s.apply e).fresh ≤ x) :
    (s.apply e).exchanges x = e.on x (s.exchanges x) := by
  rcases exchangeAfter s e x with ⟨id, t, rfl, newest, -⟩ | after
  · rcases other with less | more
    · omega
    · have : s.fresh + 1 ≤ x := more
      omega
  · exact after

@[simp] theorem onKey (x : Nat) (e : Effect) (ex : Exchange) : (e.on x ex).key = ex.key := by
  cases e <;> simp only [Effect.on] <;> split_ifs <;> rfl

def Effect.target : Effect → Option Nat
  | .take _ _ x _ | .spawn x | .acquire x _ _ | .put x _ | .finish x | .release x _ => some x
  | _ => Option.none

theorem onElse {x : Nat} {e : Effect} (other : e.target ≠ some x) (ex : Exchange) : e.on x ex = ex := by
  cases e <;> simp_all [Effect.on, Effect.target, eq_comm]

theorem taskTarget {role next fresh r p input p' e} (move : TaskMove role next fresh r p input p' e)
    {x} (h : e.target = some x) : e = .spawn x ∧ ∃ id, p.holds = some (x, id) := by
  cases move with
  | serve move =>
    cases move with
    | spawn y => cases h; exact ⟨rfl, _, rfl⟩
    | _ => cases h
  | _ => cases h

theorem callTarget {s c k reply k' e} (move : CallMove s c k reply k' e) {x} (h : e.target = some x) :
    ∃ key, k.holds = some (x, key) ∨ s.streams key = some x := by
  cases move with
  | closeTake found => cases h; exact ⟨_, .inr found⟩
  | writeLock => cases h; exact ⟨_, .inl rfl⟩
  | wrote => cases h; exact ⟨_, .inl rfl⟩
  | writeDone => cases h; exact ⟨_, .inl rfl⟩
  | writeFailed => cases h; exact ⟨_, .inl rfl⟩
  | closeLock => cases h; exact ⟨_, .inl rfl⟩
  | closeFinish => cases h; exact ⟨_, .inl rfl⟩
  | closeDone => cases h; exact ⟨_, .inl rfl⟩
  | closeFailed => cases h; exact ⟨_, .inl rfl⟩
  | openSpawn => cases h; exact ⟨_, .inl rfl⟩
  | _ => cases h

theorem returnedStays {s c k reply k' e a} (move : CallMove s c k reply k' e) :
    k.progress ≠ .returned a := by
  cases move <;> simp

theorem readerTarget {id t reader input reader' e} (move : ReaderMove id t reader input reader' e) :
    e.target = none := by
  cases move <;> rfl

theorem readerExchanges (s : State) {id t reader input reader' e}
    (move : ReaderMove id t reader input reader' e) : (s.apply e).exchanges = s.exchanges := by
  cases move <;> rfl

theorem applyFresh (s : State) (e : Effect) : s.fresh ≤ (s.apply e).fresh := by
  cases e <;> simp [State.apply]

theorem applyKeys (s : State) (e : Effect) :
    s.fresh ≤ (s.apply e).fresh ∧ ∀ x, x < s.fresh → ((s.apply e).exchanges x).key = (s.exchanges x).key :=
  ⟨applyFresh s e, fun _ h => (congrArg Exchange.key (applyExchange s e (.inl h))).trans (onKey ..)⟩

theorem moveKeys {role s a t} (move : Move role s a t) :
    s.fresh ≤ t.fresh ∧ ∀ x, x < s.fresh → (t.exchanges x).key = (s.exchanges x).key := by
  cases move with
  | incoming server free => exact ⟨le_rfl, fun _ _ => rfl⟩
  | @task r input p p' e here step => exact applyKeys s e
  | @reader y input reader' e step =>
    refine ⟨applyFresh (s.edit y _) e, fun x h => ?_⟩
    rw [applyExchange (s.edit y _) e (.inl h), onKey, editExchange]
    split_ifs <;> rfl
  | enter free => exact ⟨le_rfl, fun _ _ => rfl⟩
  | @call c reply k k' e here step => exact applyKeys s e

structure Keyed (s : State) : Prop where
  beyond : ∀ x, s.fresh ≤ x → s.exchanges x = .opened 0 0
  streams : ∀ key x, s.streams key = some x → x < s.fresh ∧ (s.exchanges x).key = key
  tasks : ∀ r p x id, s.tasks r = some p → p.holds = some (x, id) →
    x < s.fresh ∧ (s.exchanges x).session = id
  calls : ∀ c k x key, s.calls c = some k → k.holds = some (x, key) →
    x < s.fresh ∧ (s.exchanges x).key = key

theorem registered (s : State) (id : SessionId) (t : StreamId) :
    s.fresh < (s.apply (.register id t)).fresh ∧
      (s.apply (.register id t)).exchanges s.fresh = .opened id t := by
  simp [State.apply]

theorem applyStreams {s : State} {e : Effect} {key x} (h : (s.apply e).streams key = some x) :
    s.streams key = some x ∨ (e = .register key.1 key.2 ∧ x = s.fresh) := by
  cases e with
  | register id t =>
    rcases updateSome h with ⟨rfl, rfl⟩ | ⟨-, old⟩
    · exact .inr ⟨rfl, rfl⟩
    · exact .inl old
  | take id t y c =>
    refine .inl ?_
    by_cases same : key = (id, t)
    · subst same; simp [State.apply] at h
    · simpa [State.apply, same] using h
  | retain id =>
    simp only [State.apply] at h
    split at h
    · exact .inl h
    · cases h
  | _ => exact .inl h

theorem taskHolds {role next fresh r p input p' e} (move : TaskMove role next fresh r p input p' e)
    {x id} (h : p'.holds = some (x, id)) :
    p.holds = some (x, id) ∨ ∃ t, e = .register id t ∧ x = fresh := by
  cases move with
  | serve move =>
    cases move with
    | register t => cases h; exact .inr ⟨t, rfl, rfl⟩
    | announce t x => cases h; exact .inl rfl
    | _ => cases h
  | _ => cases h

theorem callHolds {s c k reply k' e} (move : CallMove s c k reply k' e) {x key}
    (h : k'.holds = some (x, key)) :
    k.holds = some (x, key) ∨ s.streams key = some x ∨ (e = .register key.1 key.2 ∧ x = s.fresh) := by
  cases move with
  | writeFound found => cases h; exact .inr (.inl found)
  | closeTake found => cases h; exact .inr (.inl found)
  | openRegister => cases h; exact .inr (.inr ⟨rfl, rfl⟩)
  | writeLock => cases h; exact .inl rfl
  | wrote => cases h; exact .inl rfl
  | closeLock => cases h; exact .inl rfl
  | closeFinish => cases h; exact .inl rfl
  | _ => cases h

theorem applyBeyond {s : State} {e : Effect} (beyond : ∀ x, s.fresh ≤ x → s.exchanges x = .opened 0 0)
    (inside : ∀ x, e.target = some x → x < s.fresh) {x : Nat} (h : (s.apply e).fresh ≤ x) :
    (s.apply e).exchanges x = .opened 0 0 := by
  have more : s.fresh ≤ x := (applyFresh s e).trans h
  have other : e.target ≠ some x := fun same => absurd (inside x same) (by omega)
  rw [applyExchange s e (.inr h), onElse other, beyond x more]

theorem readerInside {s : State} (beyond : ∀ x, s.fresh ≤ x → s.exchanges x = .opened 0 0)
    {x id t input reader' e} (move : ReaderMove id t (s.exchanges x).reader input reader' e) :
    x < s.fresh := by
  by_contra more
  rw [beyond x (by omega)] at move
  cases move

theorem taskInside {role s r input p p' e} (keyed : Keyed s) (here : s.tasks r = some p)
    (move : TaskMove role s.next s.fresh r p input p' e) {x} (h : e.target = some x) : x < s.fresh := by
  obtain ⟨-, id, holds⟩ := taskTarget move h
  exact (keyed.tasks r p x id here holds).1

theorem callInside {s c reply k k' e} (keyed : Keyed s) (here : s.calls c = some k)
    (move : CallMove s c k reply k' e) {x} (h : e.target = some x) : x < s.fresh := by
  rcases callTarget move h with ⟨key, holds | found⟩
  · exact (keyed.calls c k x key here holds).1
  · exact (keyed.streams key x found).1

theorem keyedStep {role s a t} (move : Move role s a t) (keyed : Keyed s) : Keyed t := by
  obtain ⟨grows, keys⟩ := moveKeys move
  have streams : ∀ key x, s.streams key = some x → x < t.fresh ∧ (t.exchanges x).key = key := by
    intro key x h
    obtain ⟨less, same⟩ := keyed.streams key x h
    exact ⟨by omega, (keys x less).trans same⟩
  have tasks : ∀ r p x id, s.tasks r = some p → p.holds = some (x, id) →
      x < t.fresh ∧ (t.exchanges x).session = id := by
    intro r p x id h holds
    obtain ⟨less, same⟩ := keyed.tasks r p x id h holds
    exact ⟨by omega, (congrArg Prod.fst (keys x less)).trans same⟩
  have calls : ∀ c k x key, s.calls c = some k → k.holds = some (x, key) →
      x < t.fresh ∧ (t.exchanges x).key = key := by
    intro c k x key h holds
    obtain ⟨less, same⟩ := keyed.calls c k x key h holds
    exact ⟨by omega, (keys x less).trans same⟩
  cases move with
  | incoming server free =>
    refine ⟨keyed.beyond, streams, fun q p x id h holds => ?_, calls⟩
    rcases updateSome h with ⟨-, rfl⟩ | ⟨-, old⟩
    · cases holds
    · exact tasks q p x id old holds
  | @task r input p p' e here step =>
    refine ⟨fun x => applyBeyond keyed.beyond (fun x => taskInside keyed here step), fun key x h => ?_,
      fun q p1 x id h holds => ?_, fun c k x key h => calls c k x key (by simpa using h)⟩
    · rcases applyStreams h with old | ⟨rfl, rfl⟩
      · exact streams key x old
      · exact ⟨(registered s key.1 key.2).1, congrArg Exchange.key (registered s key.1 key.2).2⟩
    · rcases updateSome h with ⟨rfl, rfl⟩ | ⟨-, old⟩
      · rcases taskHolds step holds with before | ⟨u, rfl, rfl⟩
        · exact tasks q p x id here before
        · exact ⟨(registered s id u).1, congrArg Exchange.session (registered s id u).2⟩
      · exact tasks q p1 x id (by simpa using old) holds
  | @reader y input reader' e step =>
    obtain ⟨sameTasks, -, sameStreams, -, -, sameCalls⟩ := readerKeeps (s := s) step
    have edited : ∀ x, (s.edit y (fun ex => {ex with reader := reader'})).fresh ≤ x →
        (s.edit y (fun ex => {ex with reader := reader'})).exchanges x = .opened 0 0 := by
      intro x h
      have inside := readerInside keyed.beyond step
      have other : x ≠ y := by rintro rfl; exact absurd inside (by simpa using h)
      rw [editOther _ _ _ other, keyed.beyond x h]
    have aims := readerTarget step
    exact ⟨fun x => applyBeyond edited (fun x h => by rw [aims] at h; cases h), fun key x h => streams key x (sameStreams ▸ h),
      fun r p x id h => tasks r p x id (sameTasks ▸ h), fun c k x key h => calls c k x key (sameCalls ▸ h)⟩
  | enter free =>
    refine ⟨keyed.beyond, streams, tasks, fun c k x key h holds => ?_⟩
    rcases updateSome h with ⟨-, rfl⟩ | ⟨-, old⟩
    · simp [Call.holds] at holds
    · exact calls c k x key old holds
  | @call c reply k k' e here step =>
    refine ⟨fun x => applyBeyond keyed.beyond (fun x => callInside keyed here step), fun key x h => ?_,
      fun r p x id h => tasks r p x id (by simpa using h), fun d k1 x key h holds => ?_⟩
    · rcases applyStreams h with old | ⟨rfl, rfl⟩
      · exact streams key x old
      · exact ⟨(registered s key.1 key.2).1, congrArg Exchange.key (registered s key.1 key.2).2⟩
    · rcases updateSome h with ⟨rfl, rfl⟩ | ⟨-, old⟩
      · rcases callHolds step holds with before | found | ⟨rfl, rfl⟩
        · exact calls d k x key here before
        · exact streams key x found
        · exact ⟨(registered s key.1 key.2).1, congrArg Exchange.key (registered s key.1 key.2).2⟩
      · exact calls d k1 x key (by simpa using old) holds

theorem initKeyed (role : Role) : Keyed (init role) := by
  cases role with
  | server expected =>
    exact ⟨fun _ _ => rfl, fun key x h => by simp [init] at h, fun r p x id h => by simp [init] at h,
      fun c k x key h => by simp [init] at h⟩
  | client id url =>
    refine ⟨fun _ _ => rfl, fun key x h => by simp [init] at h, fun r p x id h holds => ?_,
      fun c k x key h => by simp [init] at h⟩
    by_cases zero : r = 0
    · simp only [init, zero, if_true, Option.some.injEq] at h
      subst h
      cases holds
    · simp [init, zero] at h

theorem keyedRun {role labels s} (ran : run (step role) (init role) labels = some s) : Keyed s :=
  runKeeps (fun _ _ _ old one => keyedStep (moves one) old) (initKeyed role) ran

end RkQuic.Endpoint
