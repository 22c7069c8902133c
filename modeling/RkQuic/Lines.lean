import RkQuic.Sessions

/-! The connections under the sessions of an endpoint. What has arrived on one waits there for
`session_loop`: each of its three sources gives what is queued before it gives the error that
ends the connection, bytes that have arrived stay readable, and the select takes any branch
that is ready. What the endpoint does with what it is given is `Endpoint.step`. -/
namespace RkQuic.Endpoint
open Runs Naming

inductive Tail where
  | pending
  | fin
  | reset
  deriving DecidableEq, Repr

structure Arriving where
  bytes : Bytes
  tail : Tail
  deriving DecidableEq, Repr

/-- One connection. `unis` holds every stream there has been, in order, and `accept_uni` has given
the first `taken` of them; the other two queues hold what has not been taken. -/
structure Line where
  datagrams : List Bytes
  unis : List Arriving
  taken : Nat
  bis : List StreamId
  ended : Option String
  deriving DecidableEq, Repr

def Line.quiet : Line := ⟨[], [], 0, [], none⟩

inductive News where
  | datagram (bytes : Bytes)
  | uni
  | chunk (k : Nat) (bytes : Bytes)
  | fin (k : Nat)
  | reset (k : Nat)
  | bi (stream_id : StreamId)
  | close (reason : String)
  deriving DecidableEq, Repr

/- A stream that has arrived to its end, or has been reset, stays as it is. -/
def Line.amend (l : Line) (k : Nat) (f : Arriving → Arriving) : Option Line :=
  match l.unis[k]? with
  | some a => if a.tail = .pending then some {l with unis := l.unis.set k (f a)} else none
  | none => none

def Line.receive (l : Line) (news : News) : Option Line :=
  if l.ended = none then
    match news with
    | .datagram bytes => some {l with datagrams := l.datagrams ++ [bytes]}
    | .uni => some {l with unis := l.unis ++ [⟨[], .pending⟩]}
    | .chunk k bytes => l.amend k fun a => {a with bytes := a.bytes ++ bytes}
    | .fin k => l.amend k fun a => {a with tail := .fin}
    | .reset k => l.amend k fun a => {a with tail := .reset}
    | .bi stream_id => some {l with bis := l.bis ++ [stream_id]}
    | .close reason => some {l with ended := some reason}
  else none

inductive Branch where
  | datagram
  | uni
  | bi
  | read (n : Nat)
  | finish
  | fail
  | go
  deriving DecidableEq, Repr

def Line.error (l : Line) : Option (Input × Line) := l.ended.map fun reason => (.ended reason, l)

def Line.select (l : Line) : Branch → Option (Input × Line)
  | .datagram =>
    match l.datagrams with
    | bytes :: rest => some (.datagram bytes, {l with datagrams := rest})
    | [] => l.error
  | .uni => if l.taken < l.unis.length then some (.uni, {l with taken := l.taken + 1}) else l.error
  | .bi =>
    match l.bis with
    | stream_id :: rest => some (.bi stream_id, {l with bis := rest})
    | [] => l.error
  | _ => none

def Line.read (l : Line) (buffer : Bytes) (turn : Branch) : Option Input :=
  match l.unis[l.taken - 1]? with
  | none => none
  | some a =>
    match turn with
    | .read n =>
      if a.tail ≠ .reset ∧ 0 < n ∧ buffer.length + n ≤ a.bytes.length then
        some (.chunk ((a.bytes.drop buffer.length).take n))
      else none
    | .finish => if a.tail = .fin ∧ buffer.length = a.bytes.length then some .finished else none
    | .fail =>
      if a.tail = .reset ∨ (a.tail = .pending ∧ l.ended ≠ none ∧ buffer.length = a.bytes.length) then some .failed
      else none
    | _ => none

def Line.gives (l : Line) : Loop → Branch → Option (Input × Line)
  | .selecting, turn => l.select turn
  | .readingUni buffer, turn => (l.read buffer turn).map fun input => (input, l)
  | _, .go => some (.go, l)
  | _, _ => none

structure Wired where
  endpoint : State
  lines : Nat → Line

inductive Signal where
  | arrives (r : Nat) (news : News)
  | serves (r : Nat) (turn : Branch)
  | moves (a : Label)
  deriving DecidableEq, Repr

def State.loops (s : State) : Label → Bool
  | .task r _ =>
    match s.tasks r with
    | some (.serving _ _) => true
    | _ => false
  | _ => false

def Wired.step (role : Role) (w : Wired) : Signal → Option Wired
  | .arrives r news => ((w.lines r).receive news).map fun l => {w with lines := Function.update w.lines r l}
  | .serves r turn =>
    match w.endpoint.tasks r with
    | some (.serving _ loop) => do
      let (input, l) ← (w.lines r).gives loop turn
      let s ← Endpoint.step role w.endpoint (.task r input)
      some ⟨s, Function.update w.lines r l⟩
    | _ => none
  | .moves a =>
    if w.endpoint.loops a then none else (Endpoint.step role w.endpoint a).map fun s => {w with endpoint := s}

def Wired.init (role : Role) : Wired := ⟨Endpoint.init role, fun _ => .quiet⟩

inductive WiredMove (role : Role) (w : Wired) : Signal → Wired → Prop where
  | arrives {r news l} (got : (w.lines r).receive news = some l) :
      WiredMove role w (.arrives r news) {w with lines := Function.update w.lines r l}
  | turns {r turn se loop input loop' e l} (here : w.endpoint.tasks r = some (.serving se loop))
      (gives : (w.lines r).gives loop turn = some (input, l))
      (ran : sessionLoop se.id w.endpoint.fresh loop input = some (loop', e)) :
      WiredMove role w (.serves r turn)
        ⟨{w.endpoint.apply e with tasks := Function.update w.endpoint.tasks r (some (.serving se loop'))},
          Function.update w.lines r l⟩
  | ends {r turn se reason l} (here : w.endpoint.tasks r = some (.serving se .selecting))
      (gives : (w.lines r).gives .selecting turn = some (.ended reason, l)) :
      WiredMove role w (.serves r turn)
        ⟨{w.endpoint with tasks := Function.update w.endpoint.tasks r (some (.forgetting se reason))},
          Function.update w.lines r l⟩
  | moves {a s} (aside : w.endpoint.loops a = false) (move : Move role w.endpoint a s) :
      WiredMove role w (.moves a) {w with endpoint := s}

theorem servingTask {role next fresh r se loop input} (aside : ∀ reason, loop = .selecting → input ≠ .ended reason) :
    sessionTask role next fresh r (.serving se loop) input =
      (sessionLoop se.id fresh loop input).map fun out => (.serving se out.1, out.2) := by
  cases loop <;> cases input <;> first | rfl | exact absurd rfl (aside _ rfl)

theorem servingMoves {role next fresh r se loop input p' e}
    (h : sessionTask role next fresh r (.serving se loop) input = some (p', e)) :
    (∃ reason, loop = .selecting ∧ input = .ended reason ∧ p' = .forgetting se reason ∧ e = .none) ∨
      ∃ loop', sessionLoop se.id fresh loop input = some (loop', e) ∧ p' = .serving se loop' := by
  by_cases ends : ∃ reason, loop = .selecting ∧ input = .ended reason
  · obtain ⟨reason, rfl, rfl⟩ := ends
    cases h
    exact .inl ⟨reason, rfl, rfl, rfl, rfl⟩
  · rw [servingTask fun reason same ended => ends ⟨reason, same, ended⟩] at h
    obtain ⟨⟨loop', e⟩, ran, same⟩ := Option.map_eq_some_iff.mp h
    cases same
    exact .inr ⟨loop', ran, rfl⟩

theorem wiredMoves {role w a v} (h : Wired.step role w a = some v) : WiredMove role w a v := by
  cases a with
  | arrives r news =>
    obtain ⟨l, got, rfl⟩ := Option.map_eq_some_iff.mp h
    exact .arrives got
  | serves r turn =>
    simp only [Wired.step] at h
    split at h
    · rename_i se loop here
      simp only [bind, Option.bind_eq_some_iff] at h
      obtain ⟨⟨input, l⟩, gives, s, one, last⟩ := h
      cases Option.some.inj last
      simp only [step, bind, Option.bind_eq_some_iff] at one
      obtain ⟨p, here', ⟨p', e⟩, ran, last⟩ := one
      cases Option.some.inj last
      cases here.symm.trans here'
      rcases servingMoves ran with ⟨reason, rfl, rfl, rfl, rfl⟩ | ⟨loop', looped, rfl⟩
      · exact .ends here gives
      · exact .turns here gives looped
    · cases h
  | moves a =>
    simp only [Wired.step] at h
    split at h
    · cases h
    · rename_i aside
      obtain ⟨s, one, rfl⟩ := Option.map_eq_some_iff.mp h
      exact .moves (by simpa using aside) (moves one)

/-! What a line keeps. -/

structure Grown (us vs : List Arriving) : Prop where
  longer : us.length ≤ vs.length
  each : ∀ (k : Nat) a, us[k]? = some a → ∃ b, vs[k]? = some b ∧ a.bytes <+: b.bytes ∧ (a.tail ≠ .pending → b = a)

theorem grownSame (us : List Arriving) : Grown us us :=
  ⟨le_rfl, fun _ a here => ⟨a, here, List.prefix_refl _, fun _ => rfl⟩⟩

theorem amendGrows {l l' : Line} {k : Nat} {f : Arriving → Arriving} (more : ∀ a, a.bytes <+: (f a).bytes)
    (got : l.amend k f = some l') :
    Grown l.unis l'.unis ∧ l'.taken = l.taken := by
  unfold Line.amend at got
  split at got
  · rename_i a here
    split at got
    · rename_i open_
      cases got
      refine ⟨⟨by simp, fun j b there => ?_⟩, rfl⟩
      by_cases same : j = k
      · subst same
        cases here.symm.trans there
        have inside := (List.getElem?_eq_some_iff.mp here).1
        exact ⟨f a, by simp [inside], more a, fun done => absurd open_ done⟩
      · exact ⟨b, by simp [Ne.symm same, there], List.prefix_refl _, fun _ => rfl⟩
    · cases got
  · cases got

theorem receiveGrows {l l' : Line} {news : News} (got : l.receive news = some l') :
    l.ended = none ∧ Grown l.unis l'.unis ∧ l'.taken = l.taken := by
  unfold Line.receive at got
  split at got
  · rename_i open_
    refine ⟨open_, ?_⟩
    cases news with
    | uni =>
      cases got
      refine ⟨⟨by simp, fun k a here => ⟨a, ?_, List.prefix_refl _, fun _ => rfl⟩⟩, rfl⟩
      have inside := (List.getElem?_eq_some_iff.mp here).1
      exact (List.getElem?_append_left inside).trans here
    | chunk k bytes => exact amendGrows (fun a => List.prefix_append _ _) got
    | fin k => exact amendGrows (f := fun a => {a with tail := .fin}) (fun a => List.prefix_refl _) got
    | reset k => exact amendGrows (f := fun a => {a with tail := .reset}) (fun a => List.prefix_refl _) got
    | _ => cases got; exact ⟨grownSame _, rfl⟩
  · cases got

theorem selectGives {l l' : Line} {turn : Branch} {input : Input} (gives : l.select turn = some (input, l')) :
    l'.unis = l.unis ∧ l'.ended = l.ended ∧ ((input = .uni ∧ l'.taken = l.taken + 1 ∧ l.taken < l.unis.length) ∨
      (input ≠ .uni ∧ l'.taken = l.taken ∧ ∀ reason, input = .ended reason → l' = l ∧ l.ended = some reason)) := by
  have error : l.error = some (input, l') → l'.unis = l.unis ∧ l'.ended = l.ended ∧
      ((input = .uni ∧ l'.taken = l.taken + 1 ∧ l.taken < l.unis.length) ∨
      (input ≠ .uni ∧ l'.taken = l.taken ∧ ∀ reason, input = .ended reason → l' = l ∧ l.ended = some reason)) := by
    intro h
    obtain ⟨reason, done, same⟩ := Option.map_eq_some_iff.mp h
    cases same
    exact ⟨rfl, rfl, .inr ⟨by simp, rfl, fun _ same => ⟨rfl, by cases same; exact done⟩⟩⟩
  cases turn with
  | datagram =>
    simp only [Line.select] at gives
    split at gives
    · cases gives; exact ⟨rfl, rfl, .inr ⟨by simp, rfl, by simp⟩⟩
    · exact error gives
  | uni =>
    simp only [Line.select] at gives
    split at gives
    · rename_i less
      cases gives; exact ⟨rfl, rfl, .inl ⟨rfl, rfl, less⟩⟩
    · exact error gives
  | bi =>
    simp only [Line.select] at gives
    split at gives
    · cases gives; exact ⟨rfl, rfl, .inr ⟨by simp, rfl, by simp⟩⟩
    · exact error gives
  | _ => cases gives

theorem readGives {l : Line} {buffer : Bytes} {turn : Branch} {input : Input} (gives : l.read buffer turn = some input) :
    ∃ a, l.unis[l.taken - 1]? = some a ∧ ((∃ n, input = .chunk ((a.bytes.drop buffer.length).take n)) ∨
      (input = .finished ∧ a.tail = .fin ∧ buffer.length = a.bytes.length) ∨
      (input = .failed ∧ (a.tail = .reset ∨ (a.tail = .pending ∧ l.ended ≠ none)))) := by
  unfold Line.read at gives
  split at gives
  · cases gives
  · rename_i a here
    refine ⟨a, here, ?_⟩
    cases turn with
    | read n =>
      dsimp only at gives
      split at gives <;> cases gives
      exact .inl ⟨n, rfl⟩
    | finish =>
      dsimp only at gives
      split at gives <;> cases gives
      rename_i done
      exact .inr (.inl ⟨rfl, done⟩)
    | fail =>
      dsimp only at gives
      split at gives <;> cases gives
      rename_i why
      exact .inr (.inr ⟨rfl, why.imp id fun h => ⟨h.1, h.2.1⟩⟩)
    | _ => cases gives

end RkQuic.Endpoint
