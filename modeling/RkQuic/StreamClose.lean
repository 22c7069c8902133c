import RkQuic.StreamFrames

/-! Closing a stream. The map gives a stream to one `stream_close`, which finishes it when
its turn comes; every other one finds nothing. -/
namespace RkQuic.Endpoint
open Runs Naming

inductive Closing (x : Nat) (ex : Exchange) : Call → Prop where
  | waiting {sent} : Closing x ex ⟨.streamClose ex.session ex.stream, .waiting x, sent⟩
  | finishing {sent} : Closing x ex ⟨.streamClose ex.session ex.stream, .finishing x, sent⟩
  | finished {sent} (settled : ex.fin = true ∨ ex.broken = true) :
      Closing x ex ⟨.streamClose ex.session ex.stream, .finished x, sent⟩
  | returned {status sent} (settled : ex.fin = true ∨ ex.broken = true) :
      Closing x ex ⟨.streamClose ex.session ex.stream, .returned (.status status), sent⟩

structure Taking (s : State) : Prop where
  mapped : ∀ key x, s.streams key = some x → (s.exchanges x).taken = none
  closing : ∀ x c, (s.exchanges x).taken = some c → ∃ k, s.calls c = some k ∧ Closing x (s.exchanges x) k

theorem closingTaken {x : Nat} {ex : Exchange} {id t sent} (key : ex.key = (id, t)) :
    Closing x ex ⟨.streamClose id t, .waiting x, sent⟩ := by
  obtain ⟨rfl, rfl⟩ := Prod.mk.inj key
  exact .waiting

theorem onTakes (x : Nat) (e : Effect) (ex : Exchange) :
    (e.on x ex).taken = ex.taken ∨ ∃ id t c, e = .take id t x c ∧ (e.on x ex).taken = some c := by
  cases e with
  | take id t y c =>
    by_cases same : x = y
    · subst same
      exact .inr ⟨id, t, c, rfl, by simp [Effect.on]⟩
    · exact .inl (by simp [Effect.on, same])
  | _ => refine .inl ?_; simp only [Effect.on] <;> split_ifs <;> rfl

theorem onBroken (x : Nat) (e : Effect) (ex : Exchange) (broken : ex.broken = true) :
    (e.on x ex).broken = true := by
  cases e <;> simp only [Effect.on] <;> repeat' split
  all_goals simp [broken]

theorem closingMono {x : Nat} {ex ex' : Exchange} {k} (key : ex'.key = ex.key)
    (fin : ex.fin = true → ex'.fin = true) (broken : ex.broken = true → ex'.broken = true)
    (closing : Closing x ex k) : Closing x ex' k := by
  obtain ⟨session, stream⟩ := Prod.mk.inj key
  have settled : ex.fin = true ∨ ex.broken = true → ex'.fin = true ∨ ex'.broken = true := Or.imp fin broken
  cases closing with
  | waiting => rw [← session, ← stream]; exact .waiting
  | finishing => rw [← session, ← stream]; exact .finishing
  | finished done => rw [← session, ← stream]; exact .finished (settled done)
  | returned done => rw [← session, ← stream]; exact .returned (settled done)

theorem closingMove {s c k reply k' e x} (move : CallMove s c k reply k' e) {ex : Exchange}
    (closing : Closing x ex k) : Closing x (e.on x ex) k' := by
  have key := onKey x e ex
  cases closing with
  | waiting =>
    cases move with
    | closeLock => exact closingMono key (onFin x _ ex) (onBroken x _ ex) .finishing
  | finishing =>
    cases move with
    | closeFinish =>
      have settled : ((Effect.finish x).on x ex).fin = true ∨ ((Effect.finish x).on x ex).broken = true := by
        cases broken : ex.broken <;> simp [Effect.on, broken]
      obtain ⟨session, stream⟩ := Prod.mk.inj key
      rw [← session, ← stream]
      exact .finished settled
  | finished settled =>
    cases move with
    | closeDone => exact closingMono key (onFin x _ ex) (onBroken x _ ex) (.returned settled)
    | closeFailed => exact closingMono key (onFin x _ ex) (onBroken x _ ex) (.returned settled)
  | returned settled => exact absurd rfl (returnedStays move)

theorem callTakes {s c k reply k' e} (move : CallMove s c k reply k' e) {id t x d}
    (h : e = .take id t x d) :
    d = c ∧ s.streams (id, t) = some x ∧ ∃ sent, k = ⟨.streamClose id t, .entered, sent⟩ ∧
      k' = ⟨.streamClose id t, .waiting x, sent⟩ := by
  cases move with
  | closeTake found => cases h; exact ⟨rfl, found, _, rfl, rfl⟩
  | _ => cases h

theorem takingCall {s c reply k k' e} (keyed : Keyed s) (taking : Taking s) (here : s.calls c = some k)
    (step : CallMove s c k reply k' e) :
    Taking {s.apply e with calls := Function.update s.calls c (some k')} := by
  have half : ∀ x, ((s.apply e).exchanges x).taken = (e.on x (s.exchanges x)).taken :=
    fun x => (halfFields (halfAfter keyed.beyond e x)).2.2.2.2.1
  refine ⟨fun key x h => ?_, fun x d h => ?_⟩
  · show ((s.apply e).exchanges x).taken = none
    rw [half]
    rcases applyStreams h with old | ⟨rfl, rfl⟩
    · rcases onTakes x e (s.exchanges x) with same | ⟨id, t, d, rfl, -⟩
      · rw [same, taking.mapped key x old]
      · obtain ⟨-, found, -⟩ := callTakes step rfl
        have mine := (keyed.streams key x old).2.symm.trans (keyed.streams (id, t) x found).2
        subst mine
        simp [State.apply] at h
    · rw [onElse (by simp [Effect.target]), keyed.beyond _ le_rfl]
      rfl
  · have taken : ((s.apply e).exchanges x).taken = some d := h
    have less : x < s.fresh := by
      by_contra more
      rw [half] at taken
      rcases onTakes x e (s.exchanges x) with same | ⟨id, t, d', rfl, -⟩
      · rw [same, keyed.beyond x (by omega)] at taken
        cases taken
      · exact more (callInside keyed here step rfl)
    show ∃ k1, Function.update s.calls c (some k') d = some k1 ∧ Closing x ((s.apply e).exchanges x) k1
    rw [applyExchange s e (.inl less)] at taken ⊢
    rcases onTakes x e (s.exchanges x) with same | ⟨id, t, d', rfl, now⟩
    · rw [same] at taken
      obtain ⟨k1, there, closing⟩ := taking.closing x d taken
      by_cases self : d = c
      · subst self
        cases Option.some.inj (here.symm.trans there)
        exact ⟨k', Function.update_self .., closingMove step closing⟩
      · refine ⟨k1, (Function.update_of_ne self ..).trans there, ?_⟩
        exact closingMono (onKey x e _) (onFin x e _) (onBroken x e _) closing
    · rw [now] at taken
      cases Option.some.inj taken
      obtain ⟨rfl, found, sent, rfl, rfl⟩ := callTakes step rfl
      refine ⟨_, Function.update_self .., ?_⟩
      exact closingTaken ((onKey ..).trans (keyed.streams (id, t) x found).2)

theorem takingStep {role s a t} (move : Move role s a t) (keyed : Keyed s) (taking : Taking s) :
    Taking t := by
  by_cases calls : ∃ c reply, a = .call c reply
  · obtain ⟨c, reply, rfl⟩ := calls
    cases move with
    | call here step => exact takingCall keyed taking here step
  · have aside : ∀ c reply, a ≠ .call c reply := fun c reply h => calls ⟨c, reply, h⟩
    obtain ⟨half, same⟩ := asideHalf move keyed aside
    obtain ⟨-, keys⟩ := moveKeys move
    refine ⟨fun key x h => ?_, fun x c h => ?_⟩
    · rw [(halfFields (half x)).2.2.2.2.1]
      have known : s.streams key = some x ∨ x = s.fresh := by
        cases move with
        | incoming server free => exact .inl h
        | task here step => exact (applyStreams h).imp_right And.right
        | reader step => exact .inl ((readerKeeps (s := s) step).2.2.1 ▸ h)
        | enter free => exact .inl h
        | call here step => exact absurd rfl (aside _ _)
      rcases known with old | rfl
      · exact taking.mapped key x old
      · rw [keyed.beyond _ le_rfl]; rfl
    · obtain ⟨-, fin, broken, -, taken, -⟩ := halfFields (half x)
      rw [taken] at h
      obtain ⟨k, here, closing⟩ := taking.closing x c h
      have less : x < s.fresh := by
        by_contra more
        rw [keyed.beyond x (by omega)] at h
        cases h
      refine ⟨k, ?_, closingMono (keys x less) (fun old => fin.trans old) (fun old => broken.trans old) closing⟩
      rcases same c with stays | ⟨none_, -⟩
      · rw [stays, here]
      · rw [none_] at here; cases here

theorem takingRun {role labels s} (ran : run (step role) (init role) labels = some s) : Taking s := by
  refine runHistory (P := fun _ s => Taking s) ⟨fun key x h => ?_, fun x c h => ?_⟩
    (fun _ _ _ _ before old one => takingStep (moves one) (keyedRun before) old) ran
  · cases role <;> simp [init] at h
  · cases role <;> simp [init, Exchange.opened] at h

/-! One stream in the map, and the calls that come to close it. -/

def Disturbs (key : SessionId × StreamId) (s : State) : Label → Prop
  | .task r _ => ∃ se, se.id = key.1 ∧
      (s.tasks r = some (.serving se (.registering key.2)) ∨ ∃ reason, s.tasks r = some (.purging se reason))
  | .call c _ => ∃ sent, s.calls c = some ⟨.openStream key.1, .registering key.2, sent⟩
  | _ => False

def Closer (key : SessionId × StreamId) (s t : State) (c : Nat) : Prop :=
  (∀ k, s.calls c = some k → k.progress = .entered) ∧
    ∃ k, t.calls c = some k ∧ k.method = .streamClose key.1 key.2 ∧ k.progress ≠ .entered

def FoundNothing (key : SessionId × StreamId) (t : State) (c : Nat) : Prop :=
  ∃ sent, t.calls c = some ⟨.streamClose key.1 key.2, .returned (.status .unknownHandle), sent⟩

structure Closers (key : SessionId × StreamId) (x : Nat) (s t : State) : Prop where
  going : ∀ c k, s.calls c = some k → k.progress ≠ .entered →
    ∃ k', t.calls c = some k' ∧ k'.progress ≠ .entered
  won : (t.streams key = some x ∧ ∀ c, ¬ Closer key s t c) ∨
    (t.streams key = none ∧ ∃ c, Closer key s t c ∧ (t.exchanges x).taken = some c ∧
      ∀ d, Closer key s t d → d ≠ c → FoundNothing key t d)

theorem movedOn {s c k reply k' e} (move : CallMove s c k reply k' e) : k'.progress ≠ .entered := by
  cases move <;> simp

theorem taskLeavesKey {role s r input p p' e key} (here : s.tasks r = some p)
    (move : TaskMove role s.next s.fresh r p input p' e) (calm : ¬ Disturbs key s (.task r input)) :
    (s.apply e).streams key = s.streams key := by
  cases move with
  | @serve se loop loop' input e move =>
    cases move with
    | register t =>
      have other : key ≠ (se.id, t) := by
        rintro rfl
        exact calm ⟨se, rfl, .inl here⟩
      exact Function.update_of_ne other ..
    | _ => rfl
  | purge se reason =>
    have other : key.1 ≠ se.id := fun same => calm ⟨se, same.symm, .inr ⟨reason, here⟩⟩
    simp [State.apply, other]
  | _ => rfl

theorem callLeavesKey {s c k reply k' e key} (here : s.calls c = some k)
    (move : CallMove s c k reply k' e) (calm : ¬ Disturbs key s (.call c reply))
    (other : ¬ (k.method = .streamClose key.1 key.2 ∧ k.progress = .entered)) :
    (s.apply e).streams key = s.streams key := by
  cases move with
  | @closeTake id t sent x found =>
    have apart : key ≠ (id, t) := by
      rintro rfl
      exact other ⟨rfl, rfl⟩
    exact Function.update_of_ne apart ..
  | @openRegister id sent t =>
    have apart : key ≠ (id, t) := by
      rintro rfl
      exact calm ⟨sent, here⟩
    exact Function.update_of_ne apart ..
  | _ => rfl

theorem closersAside {key x s u v} (closers : Closers key x s u) (streams : v.streams key = u.streams key)
    (taken : (v.exchanges x).taken = (u.exchanges x).taken)
    (going : ∀ c k, u.calls c = some k → k.progress ≠ .entered →
      ∃ k', v.calls c = some k' ∧ k'.progress ≠ .entered)
    (same : ∀ c, Closer key s v c ↔ Closer key s u c)
    (lasts : ∀ c, FoundNothing key u c → FoundNothing key v c) : Closers key x s v := by
  refine ⟨fun c k h past => ?_, ?_⟩
  · obtain ⟨k1, here, past1⟩ := closers.going c k h past
    exact going c k1 here past1
  · rw [streams, taken]
    rcases closers.won with ⟨mapped, nobody⟩ | ⟨gone, c, closer, mine, others⟩
    · exact .inl ⟨mapped, fun c h => nobody c ((same c).mp h)⟩
    · exact .inr ⟨gone, c, (same c).mpr closer, mine,
        fun d h apart => lasts d (others d ((same d).mp h) apart)⟩

theorem goingOn {u : State} {c reply k k' e} (here : u.calls c = some k) (step : CallMove u c k reply k' e) {d : Nat}
    {k1 : Call} (there : u.calls d = some k1) (past : k1.progress ≠ .entered) :
    ∃ k2, Function.update u.calls c (some k') d = some k2 ∧ k2.progress ≠ .entered := by
  by_cases self : d = c
  · subst self
    exact ⟨k', Function.update_self .., movedOn step⟩
  · exact ⟨k1, (Function.update_of_ne self ..).trans there, past⟩

theorem closerElsewhere {key s} {u v : State} {c k'} (calls : v.calls = Function.update u.calls c (some k')) {d : Nat}
    (self : d ≠ c) : Closer key s v d ↔ Closer key s u d := by
  simp only [Closer, calls, Function.update_of_ne self]

theorem nothingLasts {key} {u v : State} {c reply k k' e} (here : u.calls c = some k) (step : CallMove u c k reply k' e)
    (calls : v.calls = Function.update u.calls c (some k')) {d : Nat} (nothing : FoundNothing key u d) :
    FoundNothing key v d := by
  obtain ⟨sent, there⟩ := nothing
  refine ⟨sent, (congrFun calls d).trans ((Function.update_of_ne ?_ ..).trans there)⟩
  rintro rfl
  cases Option.some.inj (here.symm.trans there)
  exact returnedStays step rfl

theorem closersCome {key x s u c reply k k' e} (keyed : Keyed u) (closers : Closers key x s u)
    (here : u.calls c = some k) (step : CallMove u c k reply k' e)
    (closes : k.method = .streamClose key.1 key.2) (early : k.progress = .entered) :
    Closers key x s {u.apply e with calls := Function.update u.calls c (some k')} := by
  have taken : ((u.apply e).exchanges x).taken = (e.on x (u.exchanges x)).taken :=
    (halfFields (halfAfter keyed.beyond e x)).2.2.2.2.1
  have new : Closer key s {u.apply e with calls := Function.update u.calls c (some k')} c := by
    refine ⟨fun k1 h => ?_, k', Function.update_self .., (callKeeps step).2.2.2.2.trans closes, movedOn step⟩
    by_contra past
    obtain ⟨k2, there, moved⟩ := closers.going c k1 h past
    cases Option.some.inj (here.symm.trans there)
    exact moved early
  refine ⟨fun d k1 h past => ?_, .inr ?_⟩
  · obtain ⟨k2, there, past2⟩ := closers.going d k1 h past
    exact goingOn here step there past2
  cases step with
  | @closeUnknown id t sent absent =>
    obtain ⟨rfl, rfl⟩ : id = key.1 ∧ t = key.2 := by simpa using closes
    rcases closers.won with ⟨mapped, -⟩ | ⟨gone, d, closer, mine, others⟩
    · rw [absent] at mapped; cases mapped
    · have apart : d ≠ c := by
        rintro rfl
        obtain ⟨-, k1, there, -, past⟩ := closer
        cases Option.some.inj (here.symm.trans there)
        exact past rfl
      refine ⟨gone, d, (closerElsewhere rfl apart).mpr closer, taken.trans mine, fun d' h other => ?_⟩
      by_cases self : d' = c
      · subst self
        exact ⟨sent, Function.update_self ..⟩
      · exact nothingLasts here (.closeUnknown absent) rfl (others d' ((closerElsewhere rfl self).mp h) other)
  | @closeTake id t sent y found =>
    obtain ⟨rfl, rfl⟩ : id = key.1 ∧ t = key.2 := by simpa using closes
    rcases closers.won with ⟨mapped, nobody⟩ | ⟨gone, -⟩
    · cases Option.some.inj (found.symm.trans mapped)
      refine ⟨Function.update_self .., c, new, taken.trans (by simp [Effect.on]), fun d h other => ?_⟩
      exact absurd ((closerElsewhere rfl other).mp h) (nobody d)
    · rw [gone] at found; cases found
  | _ => first | (simp at early; done) | simp at closes

theorem closersCall {key x s u c reply k k' e} (keyed : Keyed u) (own : (u.exchanges x).key = key)
    (closers : Closers key x s u) (here : u.calls c = some k) (step : CallMove u c k reply k' e)
    (calm : ¬ Disturbs key u (.call c reply)) :
    Closers key x s {u.apply e with calls := Function.update u.calls c (some k')} := by
  by_cases comes : k.method = .streamClose key.1 key.2 ∧ k.progress = .entered
  · exact closersCome keyed closers here step comes.1 comes.2
  have method := (callKeeps step).2.2.2.2
  have taken : ((u.apply e).exchanges x).taken = (e.on x (u.exchanges x)).taken :=
    (halfFields (halfAfter keyed.beyond e x)).2.2.2.2.1
  refine closersAside closers (callLeavesKey here step calm comes) (taken.trans ?_)
    (fun d k1 there past => goingOn here step there past) (fun d => ?_) (fun d => nothingLasts here step rfl)
  · rcases onTakes x e (u.exchanges x) with same | ⟨id, t, d, rfl, -⟩
    · exact same
    · obtain ⟨-, found, sent, rfl, -⟩ := callTakes step rfl
      have key := own.symm.trans (keyed.streams (id, t) x found).2
      subst key
      exact absurd ⟨rfl, rfl⟩ comes
  · by_cases self : d = c
    · subst self
      refine and_congr_right fun _ => ⟨?_, ?_⟩
      · rintro ⟨k1, there, closes, -⟩
        have now : Function.update u.calls d (some k') d = some k1 := there
        rw [Function.update_self] at now
        cases Option.some.inj now
        have closes := method.symm.trans closes
        exact ⟨k, here, closes, fun early => comes ⟨closes, early⟩⟩
      · rintro ⟨k1, there, closes, -⟩
        cases Option.some.inj (here.symm.trans there)
        exact ⟨k', Function.update_self .., method.trans closes, movedOn step⟩
    · exact closerElsewhere rfl self

theorem closersStep {role key x s u a v} (move : Move role u a v) (keyed : Keyed u)
    (own : (u.exchanges x).key = key) (calm : ¬ Disturbs key u a) (closers : Closers key x s u) :
    Closers key x s v := by
  by_cases calls : ∃ c reply, a = .call c reply
  · obtain ⟨c, reply, rfl⟩ := calls
    cases move with
    | call here step => exact closersCall keyed own closers here step calm
  · have aside : ∀ c reply, a ≠ .call c reply := fun c reply h => calls ⟨c, reply, h⟩
    obtain ⟨half, same⟩ := asideHalf move keyed aside
    have streams : v.streams key = u.streams key := by
      cases move with
      | incoming server free => rfl
      | task here step => exact taskLeavesKey here step calm
      | reader step => rw [(readerKeeps (s := u) step).2.2.1]
      | enter free => rfl
      | call here step => exact absurd rfl (aside _ _)
    refine closersAside closers streams (halfFields (half x)).2.2.2.2.1 (fun c k h past => ?_) (fun c => ?_)
      fun c found => ?_
    · rcases same c with stays | ⟨none_, -⟩
      · exact ⟨k, stays.trans h, past⟩
      · rw [none_] at h; cases h
    · refine and_congr_right fun _ => ?_
      rcases same c with stays | ⟨none_, method, new⟩
      · rw [stays]
      · rw [none_, new]
        simp
    · obtain ⟨sent, there⟩ := found
      rcases same c with stays | ⟨none_, -⟩
      · exact ⟨sent, stays.trans there⟩
      · rw [none_] at there; cases there

theorem closersRun {role before s key x labels t}
    (reached : run (step role) (init role) before = some s) (mapped : s.streams key = some x)
    (ran : run (step role) s labels = some t)
    (calm : Along (step role) (fun u a => ¬ Disturbs key u a) s labels) : Closers key x s t := by
  obtain ⟨less, own⟩ := (keyedRun reached).streams key x mapped
  have start : Closers key x s s := by
    refine ⟨fun c k h past => ⟨k, h, past⟩, .inl ⟨mapped, ?_⟩⟩
    rintro c ⟨early, k, here, -, past⟩
    exact past (early k here)
  have all := alongKeeps (P := fun u => (∃ as, run (step role) (init role) as = some u) ∧
      x < u.fresh ∧ (u.exchanges x).key = key ∧ Closers key x s u)
    (fun u a v old calm one => ?_) ⟨⟨before, reached⟩, less, own, start⟩ calm ran
  · exact all.2.2.2
  · obtain ⟨⟨as, sofar⟩, less, own, closers⟩ := old
    obtain ⟨grows, keys⟩ := moveKeys (moves one)
    exact ⟨⟨as ++ [a], runSnoc.mpr ⟨u, sofar, one⟩⟩, less.trans_le grows, (keys x less).trans own,
      closersStep (moves one) (keyedRun sofar) own calm closers⟩

structure Untorn (role : Role) (s : State) : Prop where
  frames : ∀ x, ∃ rest,
    (s.exchanges x).bytes = (s.exchanges x).turns.flatMap s.whole ++ rest ∧
      (rest = [] ∨ TornBy s (s.exchanges x).turns rest)
  once : ∀ x, (s.exchanges x).turns.Nodup
  writers : ∀ x c, c ∈ (s.exchanges x).turns →
    ∃ k, s.calls c = some k ∧ k.method.target = some (s.exchanges x).key
  served : ∀ c id t payload sent,
    s.calls c = some ⟨.streamSend id t payload, .returned (.status .ok), sent⟩ →
      ∃ x, (s.exchanges x).key = (id, t) ∧ c ∈ (s.exchanges x).turns
  sealed : ∀ x labels t, (s.exchanges x).fin = true → run (step role) s labels = some t →
    (t.exchanges x).bytes = (s.exchanges x).bytes
  closers : ∀ key x labels t, s.streams key = some x → run (step role) s labels = some t →
    Along (step role) (fun u a => ¬ Disturbs key u a) s labels → (∃ c, Closer key s t c) →
    ∃ c k, Closer key s t c ∧ (t.exchanges x).taken = some c ∧ t.calls c = some k ∧
      Closing x (t.exchanges x) k ∧ ∀ d, Closer key s t d → d ≠ c → FoundNothing key t d

theorem framesUntorn {role labels s} (ran : run (step role) (init role) labels = some s) :
    Untorn role s := by
  have writing := writingRun ran
  have turns := turnsRun ran
  refine ⟨fun x => ?_, fun x => (writing.framed x).once, fun x c h => (turns.own x c h).2,
    fun c id t payload sent here => ?_, fun x more t fin next => ?_,
    fun key x more t mapped next calm someone => ?_⟩
  · rw [(writing.framed x).bytes]
    exact turnsWhole _ (writing.framed x).turns (writing.framed x).torn
  · obtain ⟨x, member⟩ := turns.served c _ here trivial
    obtain ⟨-, k, there, target⟩ := turns.own x c member
    cases Option.some.inj (here.symm.trans there)
    exact ⟨x, (Option.some.inj target).symm, member⟩
  · have kept := runKeeps (P := fun u => (∃ as, run (step role) (init role) as = some u) ∧
        (u.exchanges x).fin = true ∧ (u.exchanges x).bytes = (s.exchanges x).bytes)
      (fun u a v old one => ?_) ⟨⟨labels, ran⟩, fin, rfl⟩ next
    · exact kept.2.2
    · obtain ⟨⟨as, sofar⟩, fin, same⟩ := old
      obtain ⟨finNow, bytes⟩ := finStep (moves one) (keyedRun sofar) fin
      exact ⟨⟨as ++ [a], runSnoc.mpr ⟨u, sofar, one⟩⟩, finNow, bytes.trans same⟩
  · have later : run (step role) (init role) (labels ++ more) = some t := runAppend.mpr ⟨s, ran, next⟩
    rcases (closersRun ran mapped next calm).won with ⟨-, nobody⟩ | ⟨-, c, closer, mine, others⟩
    · obtain ⟨c, closer⟩ := someone
      exact absurd closer (nobody c)
    · obtain ⟨k, here, closing⟩ := (takingRun later).closing x c mine
      exact ⟨c, k, closer, mine, here, closing, others⟩

def meeting : List Label :=
  [.enter 0 (.openStream 7), .call 0 .go, .call 0 (.opened 0), .call 0 .go, .call 0 .go,
   .enter 1 (.streamSend 7 0 "ab"), .enter 2 (.streamSend 7 0 "c"), .enter 3 (.streamClose 7 0),
   .enter 4 (.streamClose 7 0), .call 1 .go, .call 2 .go, .call 1 .go, .call 1 (.wrote 1), .call 3 .go,
   .call 4 .go, .call 1 (.wrote 1), .call 1 .go, .call 2 .go, .call 2 (.wrote 1), .call 2 .go, .call 3 .go,
   .call 3 .go, .call 3 .done]

theorem meetingUntorn :
    ∃ s, run (step (.client 7 "https://till")) (init (.client 7 "https://till")) meeting = some s ∧
      (s.exchanges 0).fin = true ∧ Untorn (.client 7 "https://till") s := by
  have fin : (run (step (.client 7 "https://till")) (init (.client 7 "https://till")) meeting).map
      (fun s => (s.exchanges 0).fin) = some true := by decide +kernel
  obtain ⟨s, ran, fin⟩ := Option.map_eq_some_iff.mp fin
  exact ⟨s, ran, fin, framesUntorn ran⟩

end RkQuic.Endpoint
