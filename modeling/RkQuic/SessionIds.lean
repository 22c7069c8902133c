import RkQuic.Event
import RkQuic.Naming
import RkQuic.Runs

/-! Where session ids come from. An accept loop draws them from a counter of its own, and
`connect` draws from the counter of the handles, one for the session and one for the
endpoint. Every draw is one step, of any thread; what is refused has drawn nothing, and
stopping an endpoint gives no number back. -/
namespace RkQuic.SessionIds
open Runs Naming

structure Counter where
  value : UInt64
  -- history: how often it was drawn from
  given : Nat
  numbered : value = UInt64.ofNat (1 + given)
  deriving DecidableEq

namespace Counter

def new : Counter := ⟨1, 0, rfl⟩

def fetchAdd (c : Counter) : Counter := ⟨c.value + 1, c.given + 1, nextNumber c.numbered⟩

end Counter

inductive Owner where
  | server (e : Nat)
  | client
  deriving DecidableEq, Repr

/-- `next` is the counter of `next_handle`, and `servers` has the `next_session` of every accept
loop. A call is in `unnamed` while it has a handle to draw. `sessions` is history. -/
structure State where
  next : Counter
  servers : List Counter
  unnamed : List Nat
  sessions : List (Owner × SessionId)

def init : State := ⟨.new, [], [], []⟩

inductive Label where
  | start (call : Nat)
  | connect (call : Nat)
  | nameIt (call : Nat)
  | accept (e : Nat)
  deriving DecidableEq, Repr

def step (s : State) : Label → Option State
  | .start call =>
    if call ∈ s.unnamed then none
    else some {s with servers := s.servers ++ [.new], unnamed := call :: s.unnamed}
  | .connect call =>
    if call ∈ s.unnamed then none
    else some {s with next := s.next.fetchAdd, unnamed := call :: s.unnamed,
                      sessions := s.sessions ++ [(.client, s.next.value)]}
  | .nameIt call =>
    if call ∈ s.unnamed then some {s with next := s.next.fetchAdd, unnamed := s.unnamed.erase call}
    else none
  | .accept e =>
    match s.servers[e]? with
    | none => none
    | some c => some {s with servers := s.servers.set e c.fetchAdd,
                             sessions := s.sessions ++ [(.server e, c.value)]}

def State.allocations (s : State) : Nat := s.next.given + (s.servers.map Counter.given).sum

def Unique (s : State) : Prop := (s.sessions.map Prod.snd).Nodup

/-- The next id is no other session's: a server accepts while no other server has, and where
its counter is not at a client's session; a client connects while no server has accepted
more sessions than the process has drawn numbers. -/
def Apart (s : State) : Label → Prop
  | .accept e => (∀ e' c, e' ≠ e → s.servers[e']? = some c → c.given = 0) ∧
      ∀ c, s.servers[e]? = some c → (.client, c.value) ∉ s.sessions
  | .connect _ => ∀ c ∈ s.servers, c.given ≤ s.next.given
  | _ => True

inductive Move (s : State) : Label → State → Prop where
  | start {call} : Move s (.start call) {s with servers := s.servers ++ [.new], unnamed := call :: s.unnamed}
  | connect {call} : Move s (.connect call)
      {s with next := s.next.fetchAdd, unnamed := call :: s.unnamed,
              sessions := s.sessions ++ [(.client, s.next.value)]}
  | nameIt {call} : Move s (.nameIt call) {s with next := s.next.fetchAdd, unnamed := s.unnamed.erase call}
  | accept {e c} (here : s.servers[e]? = some c) : Move s (.accept e)
      {s with servers := s.servers.set e c.fetchAdd, sessions := s.sessions ++ [(.server e, c.value)]}

theorem moves {s a t} (one : step s a = some t) : Move s a t := by
  cases a with
  | start call => simp only [step] at one; split at one <;> cases one; exact .start
  | connect call => simp only [step] at one; split at one <;> cases one; exact .connect
  | nameIt call => simp only [step] at one; split at one <;> cases one; exact .nameIt
  | accept e => simp only [step] at one; split at one <;> cases one; exact .accept ‹_›

def accepted (servers : List Counter) (e : Nat) : Nat := (servers[e]?.map Counter.given).getD 0

theorem acceptedHere {servers : List Counter} {e : Nat} {c : Counter} (here : servers[e]? = some c) :
    accepted servers e = c.given := by
  rw [accepted, here]
  rfl

theorem acceptedNew (servers : List Counter) (e : Nat) : accepted (servers ++ [.new]) e = accepted servers e := by
  rw [accepted, accepted, List.getElem?_append]
  split
  · rfl
  · rw [List.getElem?_eq_none (by omega : servers.length ≤ e)]
    rcases e - servers.length with _ | k <;> rfl

theorem acceptedMore {servers : List Counter} {e : Nat} {c : Counter} (here : servers[e]? = some c) (e' : Nat) :
    accepted (servers.set e c.fetchAdd) e' = if e' = e then c.given + 1 else accepted servers e' := by
  have inside : e < servers.length := (List.getElem?_eq_some_iff.mp here).1
  rw [accepted, List.getElem?_set]
  split_ifs with one two
  · rfl
  · exact absurd one.symm two
  · omega
  · rfl

structure Given (s : State) : Prop where
  server : ∀ e id, (Owner.server e, id) ∈ s.sessions ↔ ∃ k < accepted s.servers e, id = UInt64.ofNat (1 + k)
  client : ∀ id, (Owner.client, id) ∈ s.sessions → ∃ k < s.next.given, id = UInt64.ofNat (1 + k)

theorem givenStep {s a t} (move : Move s a t) (old : Given s) : Given t := by
  cases move with
  | start => exact ⟨fun e id => by rw [acceptedNew]; exact old.server e id, old.client⟩
  | connect =>
    refine ⟨fun e id => ?_, fun id member => ?_⟩
    · rw [List.mem_append, List.mem_singleton]
      simpa using old.server e id
    · rcases List.mem_append.mp member with before | now
      · obtain ⟨k, early, name⟩ := old.client id before
        exact ⟨k, Nat.lt_succ_of_lt early, name⟩
      · cases List.mem_singleton.mp now
        exact ⟨s.next.given, Nat.lt_succ_self _, s.next.numbered⟩
  | nameIt =>
    refine ⟨old.server, fun id member => ?_⟩
    obtain ⟨k, early, name⟩ := old.client id member
    exact ⟨k, Nat.lt_succ_of_lt early, name⟩
  | @accept e c here =>
    refine ⟨fun e' id => ?_, fun id member => old.client id (by simpa using member)⟩
    rw [acceptedMore here, List.mem_append, List.mem_singleton, old.server e' id]
    by_cases same : e' = e
    · subst same
      rw [acceptedHere here, if_pos rfl, Prod.mk.injEq, c.numbered]
      constructor
      · rintro (⟨k, early, name⟩ | ⟨-, name⟩)
        · exact ⟨k, Nat.lt_succ_of_lt early, name⟩
        · exact ⟨c.given, Nat.lt_succ_self _, name⟩
      · rintro ⟨k, early, name⟩
        rcases Nat.lt_succ_iff_lt_or_eq.mp early with before | rfl
        · exact .inl ⟨k, before, name⟩
        · exact .inr ⟨rfl, name⟩
    · rw [if_neg same]
      simp [same]

theorem givenRun {labels s} (ran : run step init labels = some s) : Given s :=
  runKeeps (P := Given) (fun _ _ _ old one => givenStep (moves one) old)
    ⟨by simp [init, accepted], by simp [init]⟩ ran

/-! The counters have not gone round. -/

theorem givenWithin {s : State} {c : Counter} (member : c ∈ s.servers) : c.given ≤ s.allocations := by
  have : c.given ≤ (s.servers.map Counter.given).sum := List.le_sum_of_mem (List.mem_map_of_mem member)
  rw [State.allocations]
  omega

theorem sumSet {servers : List Counter} {e : Nat} {c : Counter} (here : servers[e]? = some c) :
    (servers.map Counter.given).sum ≤ ((servers.set e c.fetchAdd).map Counter.given).sum := by
  induction servers generalizing e with
  | nil => simp
  | cons first rest ih =>
    cases e with
    | zero =>
      cases Option.some.inj here
      simp [Counter.fetchAdd]
    | succ e => simpa using ih here

theorem allocationsGrow {s a t} (move : Move s a t) : s.allocations ≤ t.allocations := by
  cases move with
  | start => simp [State.allocations, Counter.new]
  | connect | nameIt => simp only [State.allocations, Counter.fetchAdd]; omega
  | accept here => exact Nat.add_le_add_left (sumSet here) _

/-! A step is apart exactly if it keeps the ids unique. -/

theorem uniqueMore {s : State} {o : Owner} {id : SessionId} {sessions} (more : sessions = s.sessions ++ [(o, id)]) :
    (sessions.map Prod.snd).Nodup ↔ Unique s ∧ ∀ p, (p, id) ∉ s.sessions := by
  rw [more, Unique, List.map_append, List.map_singleton, ← List.concat_eq_append, List.nodup_concat, and_comm]
  simp

theorem onlyOwner {s : State} (unique : Unique s) {o p : Owner} {id : SessionId} (one : (o, id) ∈ s.sessions)
    (two : (p, id) ∈ s.sessions) : o = p :=
  congrArg Prod.fst (List.inj_on_of_nodup_map unique one two rfl)

theorem acceptApart {s : State} (given : Given s) {e : Nat} {c : Counter} (here : s.servers[e]? = some c)
    (few : c.given + 1 < 2 ^ 64) (unique : Unique s) : (∀ p, (p, c.value) ∉ s.sessions) ↔ Apart s (.accept e) := by
  constructor
  · intro free
    refine ⟨fun e' c' other there => ?_, fun c' there => ?_⟩
    · by_contra some
      have first : (Owner.server e', UInt64.ofNat (1 + 0)) ∈ s.sessions :=
        (given.server _ _).mpr ⟨0, by rw [acceptedHere there]; omega, rfl⟩
      rcases Nat.eq_zero_or_pos c.given with zero | positive
      · rw [c.numbered, zero] at free
        exact free _ first
      · have mine : (Owner.server e, UInt64.ofNat (1 + 0)) ∈ s.sessions :=
          (given.server _ _).mpr ⟨0, by rw [acceptedHere here]; exact positive, rfl⟩
        cases onlyOwner unique first mine
        exact other rfl
    · cases here.symm.trans there
      exact free _
  · rintro ⟨others, clients⟩ (e' | _) member
    · obtain ⟨k, early, name⟩ := (given.server _ _).mp member
      by_cases same : e' = e
      · rw [same, acceptedHere here] at early
        have := numbersOnce (by omega) (by omega) (c.numbered.symm.trans name)
        omega
      · rw [accepted] at early
        cases there : s.servers[e']? with
        | none => simp [there] at early
        | some c' => simp [there, others e' c' same there] at early
    · exact clients c here member

theorem connectApart {s : State} (given : Given s) (few : s.allocations + 1 < 2 ^ 64) :
    (∀ p, (p, s.next.value) ∉ s.sessions) ↔ ∀ c ∈ s.servers, c.given ≤ s.next.given := by
  have bound : s.next.given ≤ s.allocations := Nat.le_add_right ..
  constructor
  · intro free c member
    by_contra more
    obtain ⟨e, here⟩ := List.mem_iff_getElem?.mp member
    exact free (.server e) ((given.server _ _).mpr ⟨s.next.given, by rw [acceptedHere here]; omega, s.next.numbered⟩)
  · rintro within (e | _) member
    · obtain ⟨k, early, name⟩ := (given.server _ _).mp member
      rw [accepted] at early
      cases there : s.servers[e]? with
      | none => simp [there] at early
      | some c =>
        have inside := List.mem_of_getElem? there
        have small := within c inside
        simp only [there, Option.map_some, Option.getD_some] at early
        have := numbersOnce (by omega) (by omega) (s.next.numbered.symm.trans name)
        omega
    · obtain ⟨k, early, name⟩ := given.client _ member
      have := numbersOnce (by omega) (by omega) (s.next.numbered.symm.trans name)
      omega

theorem apartStep {s a t} (move : Move s a t) (given : Given s) (few : t.allocations < 2 ^ 64) :
    Unique t ↔ Unique s ∧ Apart s a := by
  cases move with
  | start | nameIt => exact (and_iff_left trivial).symm
  | connect =>
    rw [Unique, uniqueMore rfl]
    have grown : s.allocations + 1 < 2 ^ 64 := by
      simp only [State.allocations, Counter.fetchAdd] at few ⊢
      omega
    exact and_congr_right fun _ => connectApart given grown
  | @accept e c here =>
    rw [Unique, uniqueMore rfl]
    refine and_congr_right fun unique => acceptApart given here ?_ unique
    have inside : c.fetchAdd ∈ s.servers.set e c.fetchAdd :=
      List.mem_set (List.getElem?_eq_some_iff.mp here).1 _
    exact Nat.lt_of_le_of_lt (givenWithin (s := {s with servers := s.servers.set e c.fetchAdd}) inside) few

theorem sessionIdsUnique {labels s} (ran : run step init labels = some s) (few : s.allocations < 2 ^ 64) :
    Unique s ↔ Along step Apart init labels := by
  induction labels using List.reverseRecOn generalizing s with
  | nil =>
    cases Option.some.inj ran
    simp [Along, Unique, init]
  | append_singleton labels a ih =>
    obtain ⟨u, before, last⟩ := runSnoc.mp ran
    have within := Nat.lt_of_le_of_lt (allocationsGrow (moves last)) few
    rw [apartStep (moves last) (givenRun before) few, ih before within, alongAppend before]
    simp [Along]

theorem sessionsRan {labels sessions allocations}
    (ran : (run step init labels).map (fun s => (s.sessions, s.allocations)) = some (sessions, allocations)) :
    ∃ s, run step init labels = some s ∧ s.sessions = sessions ∧ s.allocations = allocations := by
  obtain ⟨s, here, same⟩ := Option.map_eq_some_iff.mp ran
  exact ⟨s, here, (Prod.mk.inj same).1, (Prod.mk.inj same).2⟩

theorem sessionIdsUniqueServed : Along step Apart init [.start 0, .nameIt 0, .accept 0, .connect 1, .nameIt 1] := by
  obtain ⟨s, ran, sessions, allocations⟩ := @sessionsRan
    [.start 0, .nameIt 0, .accept 0, .connect 1, .nameIt 1] [(.server 0, 1), (.client, 2)] 4 (by decide +kernel)
  refine (sessionIdsUnique ran (by rw [allocations]; decide)).mp ?_
  rw [Unique, sessions]
  decide

theorem serversShareIds : ∃ s, run step init [.start 0, .nameIt 0, .start 1, .nameIt 1, .accept 0, .accept 1] = some s ∧
    s.sessions = [(.server 0, 1), (.server 1, 1)] ∧ s.allocations < 2 ^ 64 ∧ ¬ Unique s := by
  obtain ⟨s, ran, sessions, allocations⟩ := @sessionsRan
    [.start 0, .nameIt 0, .start 1, .nameIt 1, .accept 0, .accept 1] [(.server 0, 1), (.server 1, 1)] 4
    (by decide +kernel)
  refine ⟨s, ran, sessions, by rw [allocations]; decide, ?_⟩
  rw [Unique, sessions]
  decide

end RkQuic.SessionIds
