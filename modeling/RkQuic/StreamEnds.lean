import RkQuic.Readers

/-! How a stream ends when the connection stays up. It is finished by the one call that
took it out of the map, and by then every writer that had its turn has either put its
whole payload or nothing: what the peer reads to the end are whole payloads. -/
namespace RkQuic.Endpoint
open Runs Naming

def Call.closes : Call → Option Nat
  | ⟨.streamClose _ _, .waiting x, _⟩ | ⟨.streamClose _ _, .finishing x, _⟩
  | ⟨.streamClose _ _, .finished x, _⟩ => some x
  | _ => none

def Call.past (x : Nat) (k : Call) : Prop := k.progress = .finished x ∨ ∃ a, k.progress = .returned a

structure Finishing (s : State) : Prop where
  owner : ∀ c k x, s.calls c = some k → k.closes = some x → (s.exchanges x).taken = some c
  done : ∀ x, (s.exchanges x).fin = true →
    ∃ c k, (s.exchanges x).taken = some c ∧ s.calls c = some k ∧ k.past x

theorem onFinish (x : Nat) (e : Effect) (ex : Exchange) : (e.on x ex).fin = ex.fin ∨ e = .finish x := by
  cases e with
  | finish y =>
    by_cases same : x = y
    · exact .inr (by rw [same])
    · exact .inl (by simp [Effect.on, same])
  | _ => refine .inl ?_; simp only [Effect.on] <;> split_ifs <;> rfl

theorem callFinishes {s c k reply k' x} (move : CallMove s c k reply k' (.finish x)) :
    k.closes = some x ∧ k.owns = some x ∧ k'.progress = .finished x := by
  cases move with
  | closeFinish => exact ⟨rfl, rfl, rfl⟩

theorem callCloses {s c k reply k' e x} (move : CallMove s c k reply k' e) (closes : k'.closes = some x) :
    (∃ id t, e = .take id t x c) ∨ k.closes = some x := by
  cases move with
  | closeTake found => cases closes; exact .inl ⟨_, _, rfl⟩
  | closeLock => cases closes; exact .inr rfl
  | closeFinish => cases closes; exact .inr rfl
  | _ => cases closes

theorem pastMove {s c k reply k' e x} (move : CallMove s c k reply k' e) (past : k.past x) : k'.past x := by
  rcases past with finished | ⟨a, returned⟩
  · cases move with
    | closeDone => exact .inr ⟨_, rfl⟩
    | closeFailed => exact .inr ⟨_, rfl⟩
    | _ => cases finished
  · exact absurd returned (returnedStays move)

theorem finishingCall {s c reply k k' e} (keyed : Keyed s) (taking : Taking s) (old : Finishing s)
    (here : s.calls c = some k) (step : CallMove s c k reply k' e) :
    Finishing {s.apply e with calls := Function.update s.calls c (some k')} := by
  have half : ∀ x, ((s.apply e).exchanges x).fin = (e.on x (s.exchanges x)).fin ∧
      ((s.apply e).exchanges x).taken = (e.on x (s.exchanges x)).taken := by
    intro x
    obtain ⟨-, fin, -, -, taken, -⟩ := halfFields (halfAfter keyed.beyond e x)
    exact ⟨fin, taken⟩
  have stays : ∀ x d, (s.exchanges x).taken = some d → (e.on x (s.exchanges x)).taken = some d := by
    intro x d taken
    rcases onTakes x e (s.exchanges x) with same | ⟨id, t, d', rfl, -⟩
    · rw [same, taken]
    · obtain ⟨-, found, -⟩ := callTakes step rfl
      rw [taking.mapped _ x found] at taken
      cases taken
  refine ⟨fun d k1 x h closes => ?_, fun x h => ?_⟩
  · show ((s.apply e).exchanges x).taken = some d
    rw [(half x).2]
    rcases updateSome h with ⟨rfl, rfl⟩ | ⟨-, before⟩
    · rcases callCloses step closes with ⟨id, t, rfl⟩ | was
      · simp [Effect.on]
      · exact stays x d (old.owner d k x here was)
    · exact stays x d (old.owner d k1 x (by simpa using before) closes)
  · have fin : ((s.apply e).exchanges x).fin = true := h
    show ∃ d k1, ((s.apply e).exchanges x).taken = some d ∧
      Function.update s.calls c (some k') d = some k1 ∧ k1.past x
    rw [(half x).1] at fin
    rw [(half x).2]
    rcases onFinish x e (s.exchanges x) with same | rfl
    · obtain ⟨d, k1, taken, there, past⟩ := old.done x (same.symm.trans fin)
      by_cases self : d = c
      · subst self
        cases Option.some.inj (here.symm.trans there)
        exact ⟨d, k', stays x d taken, Function.update_self .., pastMove step past⟩
      · exact ⟨d, k1, stays x d taken, (Function.update_of_ne self ..).trans there, past⟩
    · obtain ⟨closes, -, finished⟩ := callFinishes step
      exact ⟨c, k', stays x c (old.owner c k x here closes), Function.update_self .., .inl finished⟩

theorem finishingStep {role s a t} (move : Move role s a t) (keyed : Keyed s) (taking : Taking s)
    (old : Finishing s) : Finishing t := by
  by_cases calls : ∃ c reply, a = .call c reply
  · obtain ⟨c, reply, rfl⟩ := calls
    cases move with
    | call here step => exact finishingCall keyed taking old here step
  · obtain ⟨half, same⟩ := asideHalf move keyed fun c reply h => calls ⟨c, reply, h⟩
    refine ⟨fun c k x h closes => ?_, fun x fin => ?_⟩
    · rw [(halfFields (half x)).2.2.2.2.1]
      rcases same c with stays | ⟨-, method, new⟩
      · exact old.owner c k x (stays ▸ h) closes
      · cases Option.some.inj (new.symm.trans h)
        simp [Call.closes] at closes
    · obtain ⟨-, finSame, -, -, taken, -⟩ := halfFields (half x)
      obtain ⟨c, k, mine, here, past⟩ := old.done x (finSame.symm.trans fin)
      refine ⟨c, k, taken.trans mine, ?_, past⟩
      rcases same c with stays | ⟨none_, -⟩
      · exact stays.trans here
      · rw [none_] at here; cases here

theorem finishingRun {role labels s} (ran : run (step role) (init role) labels = some s) : Finishing s := by
  have initial : Finishing (init role) := by
    refine ⟨fun c k x h => ?_, fun x h => ?_⟩
    · cases role <;> simp [init] at h
    · cases role <;> simp [init, Exchange.opened] at h
  exact runHistory (P := fun _ s => Finishing s) initial
    (fun _ _ _ _ before old one => finishingStep (moves one) (keyedRun before) (takingRun before) old) ran

def Upright (s : State) (a : Label) : Prop :=
  ∀ c k x, a = .call c .failed → s.calls c = some k → k.writes = some x → (s.exchanges x).fin = true

def Clear (s : State) : Prop :=
  ∀ x c, c ∈ (s.exchanges x).turns → s.wrote c ∨ s.sent c = [] ∨
    ((s.exchanges x).fin = false ∧ (s.exchanges x).locked = some c)

theorem clearMine {s c reply k k' e x} (writing : Writing s) (old : Clear s)
    (upright : Upright s (.call c reply)) (here : s.calls c = some k) (step : CallMove s c k reply k' e)
    (turn : c ∈ (s.exchanges x).turns ∨ e = .acquire x c true) :
    k'.wrote = true ∨ k'.sent = [] ∨ ((e.on x (s.exchanges x)).fin = false ∧ k'.owns = some x) := by
  have was : c ∈ (s.exchanges x).turns → k.writes = some x := by
    intro member
    obtain ⟨k1, there, turn⟩ := (writing.framed x).turns c member
    cases Option.some.inj (here.symm.trans there)
    rcases turnGoes turn with writes | ⟨answer, done⟩
    · exact writes
    · exact absurd done (returnedStays step)
  cases step with
  | writeLock free =>
    have nothing := writing.unsent c _ here (.inr ⟨_, rfl⟩)
    exact .inr (.inl nothing)
  | wrote some_ left open_ sound =>
    rcases turn with member | acquire
    · cases was member
      exact .inr (.inr ⟨by simp [Effect.on, open_], rfl⟩)
    · cases acquire
  | writeDone => exact .inl rfl
  | writeFailed left =>
    rcases turn with member | acquire
    · cases was member
      have fin := upright c _ x rfl here rfl
      rcases old x c member with ⟨k1, there, wrote⟩ | nothing | ⟨open_, -⟩
      · cases Option.some.inj (here.symm.trans there)
        cases wrote
      · exact .inr (.inl (by simpa [State.sent, here] using nothing))
      · rw [fin] at open_; cases open_
    · cases acquire
  | closeLock free =>
    rcases turn with member | acquire
    · cases was member
    · cases acquire
  | _ =>
    rcases turn with member | acquire
    · have := was member
      simp [Call.writes] at this
    · cases acquire

theorem clearCall {role s c reply t} (move : Move role s (.call c reply) t) (keyed : Keyed s)
    (writing : Writing s) (upright : Upright s (.call c reply)) (old : Clear s) : Clear t := by
  have locks := locksStep move keyed writing.locks
  cases move with
  | @call _ _ k k' e here step =>
    intro x d member
    obtain ⟨-, fin, -, -, -, turns⟩ := halfFields (halfAfter keyed.beyond e x)
    have before : d ∈ (s.exchanges x).turns ∨ (d = c ∧ e = .acquire x c true) := by
      have now : d ∈ ((s.apply e).exchanges x).turns := member
      rw [turns] at now
      rcases onTurns x e (s.exchanges x) with same | ⟨d', acquire, more⟩
      · exact .inl (same ▸ now)
      · rw [more] at now
        rcases List.mem_append.mp now with inside | last
        · exact .inl inside
        · cases List.mem_singleton.mp last
          obtain ⟨rfl, -⟩ := (callTurn step).1 x d acquire
          exact .inr ⟨rfl, acquire⟩
    have holds := locks x d
    by_cases self : d = c
    · subst self
      have mine := clearMine writing old upright here step (before.imp_right And.right)
      have now : Function.update s.calls d (some k') d = some k' := Function.update_self ..
      rcases mine with wrote | nothing | ⟨open_, owns⟩
      · exact .inl ⟨k', now, wrote⟩
      · exact .inr (.inl (by rw [State.sent]; exact (congrArg (Option.elim · [] Call.sent) now).trans nothing))
      · refine .inr (.inr ⟨fin.trans open_, holds.mpr ?_⟩)
        exact (congrArg (Option.bind · Call.owns) now).trans owns
    · have same : Function.update s.calls c (some k') d = s.calls d := Function.update_of_ne self ..
      have inside : d ∈ (s.exchanges x).turns := before.resolve_right fun new => self new.1
      rcases old x d inside with ⟨k1, there, wrote⟩ | nothing | ⟨open_, locked⟩
      · exact .inl ⟨k1, same.trans there, wrote⟩
      · exact .inr (.inl (by rw [State.sent]; exact (congrArg (Option.elim · [] Call.sent) same).trans nothing))
      · refine .inr (.inr ⟨fin.trans ?_, holds.mpr ?_⟩)
        · rcases onFinish x e (s.exchanges x) with kept | rfl
          · exact kept.trans open_
          · obtain ⟨-, owns, -⟩ := callFinishes step
            have mine := (writing.locks x c).mpr ((congrArg (Option.bind · Call.owns) here).trans owns)
            exact absurd (Option.some.inj (locked.symm.trans mine)) self
        · exact (congrArg (Option.bind · Call.owns) same).trans ((writing.locks x d).mp locked)

theorem clearStep {role s a t} (move : Move role s a t) (keyed : Keyed s) (writing : Writing s)
    (upright : Upright s a) (old : Clear s) : Clear t := by
  by_cases calls : ∃ c reply, a = .call c reply
  · obtain ⟨c, reply, rfl⟩ := calls
    exact clearCall move keyed writing upright old
  · obtain ⟨half, same⟩ := asideHalf move keyed fun c reply h => calls ⟨c, reply, h⟩
    intro x c member
    obtain ⟨-, fin, -, locked, -, turns⟩ := halfFields (half x)
    rw [turns] at member
    obtain ⟨k, here, -⟩ := (writing.framed x).turns c member
    have stays : t.calls c = s.calls c := by
      rcases same c with stays | ⟨none_, -⟩
      · exact stays
      · rw [none_] at here; cases here
    rw [fin, locked, State.sent, State.wrote, stays]
    exact old x c member

def State.payload (s : State) (c : Nat) : String :=
  match s.calls c with
  | some ⟨.streamSend _ _ payload, .returned (.status .ok), _⟩ => payload
  | _ => ""

def State.spoken (s : State) (x : Nat) : String :=
  ((s.exchanges x).turns.map s.payload).foldr (· ++ ·) ""

theorem wholePayload (s : State) (c : Nat) : s.whole c = Utf8.encode (s.payload c) := by
  unfold State.whole State.payload
  rcases s.calls c with _ | ⟨method, progress, sent⟩
  · rfl
  · split <;> simp_all [Utf8.encode]

theorem finishedBytes {s : State} {x : Nat} (framed : Framed x s) (clear : Clear s)
    (fin : (s.exchanges x).fin = true) : (s.exchanges x).bytes = Utf8.encode (s.spoken x) := by
  have each : ∀ c ∈ (s.exchanges x).turns, s.sent c = Utf8.encode (s.payload c) := by
    intro c member
    obtain ⟨k, here, turn⟩ := framed.turns c member
    rw [← wholePayload]
    rcases turnWhole here turn with ⟨-, same⟩ | ⟨unwrote, none_, -⟩
    · exact same
    · rcases clear x c member with wrote | nothing | ⟨open_, -⟩
      · exact absurd wrote unwrote
      · rw [nothing, none_]
      · rw [fin] at open_; cases open_
  have parts := Utf8.decodeConcat ((s.exchanges x).turns.map s.payload)
  calc (s.exchanges x).bytes = (s.exchanges x).turns.flatMap s.sent := framed.bytes
    _ = (s.exchanges x).turns.flatMap fun c => Utf8.encode (s.payload c) := List.flatMap_congr each
    _ = ((s.exchanges x).turns.map s.payload).flatMap Utf8.encode := (List.flatMap_map ..).symm
    _ = Utf8.encode (s.spoken x) := (Utf8.decodeSound parts).symm

end RkQuic.Endpoint
