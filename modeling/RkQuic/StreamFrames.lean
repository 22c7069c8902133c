import RkQuic.Streams

/-! The send half of one stream under any number of writers and closers. A call holds the
inner lock from its turn to its answer, so what the stream has received is, turn by turn,
what each call has put on it; and once a write has failed later turns put nothing. -/
namespace RkQuic.Endpoint
open Runs Naming

def Exchange.sendHalf (ex : Exchange) : Exchange := {ex with session := 0, stream := 0, reader := .unspawned}

theorem halfFields {a b : Exchange} (same : a.sendHalf = b.sendHalf) :
    a.bytes = b.bytes ∧ a.fin = b.fin ∧ a.broken = b.broken ∧ a.locked = b.locked ∧ a.taken = b.taken ∧
      a.turns = b.turns := by
  simpa [Exchange.sendHalf] using same

theorem halfAfter {s : State} (beyond : ∀ x, s.fresh ≤ x → s.exchanges x = .opened 0 0) (e : Effect)
    (x : Nat) : ((s.apply e).exchanges x).sendHalf = (e.on x (s.exchanges x)).sendHalf := by
  rcases exchangeAfter s e x with ⟨id, t, rfl, rfl, after⟩ | after
  · rw [after, onElse (by simp [Effect.target]), beyond s.fresh le_rfl]
    rfl
  · rw [after]

theorem halfElse {s : State} (beyond : ∀ x, s.fresh ≤ x → s.exchanges x = .opened 0 0) {e : Effect}
    {x : Nat} (other : e.target = some x → e = .spawn x) :
    ((s.apply e).exchanges x).sendHalf = (s.exchanges x).sendHalf := by
  rw [halfAfter beyond]
  by_cases aims : e.target = some x
  · rw [other aims]
    simp [Effect.on, Exchange.sendHalf]
  · rw [onElse aims]

def Call.owns : Call → Option Nat
  | ⟨.streamSend _ _ _, .writing x _, _⟩ | ⟨.streamClose _ _, .finishing x, _⟩
  | ⟨.streamClose _ _, .finished x, _⟩ => some x
  | _ => none

theorem onLocked (x : Nat) (ex : Exchange) {e : Effect} (noAcquire : ∀ y c writes, e ≠ .acquire y c writes)
    (noRelease : ∀ y failed, e ≠ .release y failed) : (e.on x ex).locked = ex.locked := by
  cases e with
  | acquire y c writes => exact absurd rfl (noAcquire y c writes)
  | release y failed => exact absurd rfl (noRelease y failed)
  | _ => simp only [Effect.on] <;> split_ifs <;> rfl

theorem callOwns {s c k reply k' e} (move : CallMove s c k reply k' e) :
    (∃ x holder, (∀ y ex, (e.on y ex).locked = if y = x then holder else ex.locked) ∧
      (∀ d, holder = some d ↔ d = c ∧ k'.owns = some x) ∧
      ((s.exchanges x).locked = none ∨ k.owns = some x) ∧
      ∀ y, y ≠ x → k.owns ≠ some y ∧ k'.owns ≠ some y) ∨
    (k'.owns = k.owns ∧ ∀ y ex, (e.on y ex).locked = ex.locked) := by
  have acquired : ∀ x writes y ex, ((Effect.acquire x c writes).on y ex).locked =
      if y = x then some c else ex.locked := by
    intro x writes y ex
    simp only [Effect.on]
    split_ifs <;> rfl
  have released : ∀ x failed y ex, ((Effect.release x failed).on y ex).locked =
      if y = x then none else ex.locked := by
    intro x failed y ex
    simp only [Effect.on]
    split_ifs <;> rfl
  cases move with
  | writeLock free | closeLock free =>
    refine .inl ⟨_, some c, acquired _ _, fun d => ?_, .inl free, fun y other => ?_⟩
    · simp [Call.owns, eq_comm]
    · simp [Call.owns, Ne.symm other]
  | writeDone | writeFailed | closeDone | closeFailed =>
    refine .inl ⟨_, none, released _ _, fun d => ?_, .inr rfl, fun y other => ?_⟩
    · simp [Call.owns]
    · simp [Call.owns, Ne.symm other]
  | _ => exact .inr ⟨rfl, fun y ex => onLocked y ex (by simp) (by simp)⟩

theorem asideHalf {role s a t} (move : Move role s a t) (keyed : Keyed s)
    (aside : ∀ c reply, a ≠ .call c reply) :
    (∀ x, (t.exchanges x).sendHalf = (s.exchanges x).sendHalf) ∧
      ∀ c, t.calls c = s.calls c ∨
        (s.calls c = none ∧ ∃ method, t.calls c = some ⟨method, .entered, []⟩) := by
  cases move with
  | incoming server free => exact ⟨fun _ => rfl, fun _ => .inl rfl⟩
  | @task r input p p' e here step =>
    refine ⟨fun x => halfElse keyed.beyond fun aims => (taskTarget step aims).1, fun c => .inl ?_⟩
    simp
  | @reader y input reader' e step =>
    obtain ⟨-, -, -, -, -, calls⟩ := readerKeeps (s := s) step
    refine ⟨fun x => ?_, fun c => .inl (by rw [calls])⟩
    rw [readerExchanges _ step, editExchange]
    split_ifs <;> rfl
  | @enter c method free =>
    refine ⟨fun _ => rfl, fun d => ?_⟩
    by_cases same : d = c
    · subst same
      exact .inr ⟨free, method, Function.update_self ..⟩
    · exact .inl (Function.update_of_ne same ..)
  | call here step => exact absurd rfl (aside _ _)

def Locks (s : State) : Prop :=
  ∀ x c, (s.exchanges x).locked = some c ↔ (s.calls c).bind Call.owns = some x

theorem locksStep {role s a t} (move : Move role s a t) (keyed : Keyed s) (locks : Locks s) : Locks t := by
  by_cases calls : ∃ c reply, a = .call c reply
  · obtain ⟨c, reply, rfl⟩ := calls
    cases move with
    | @call _ _ k k' e here step =>
      intro x d
      have after := (halfFields (halfAfter keyed.beyond e x)).2.2.2.1
      have old := locks x d
      show ((s.apply e).exchanges x).locked = some d ↔
        (Function.update s.calls c (some k') d).bind Call.owns = some x
      rw [show ((s.apply e).exchanges x).locked = (e.on x (s.exchanges x)).locked from after]
      rcases callOwns step with ⟨y, holder, locked, exact_, before, others⟩ | ⟨kept, locked⟩
      · rw [locked]
        by_cases same : x = y
        · subst same
          rw [if_pos rfl, exact_]
          by_cases self : d = c
          · subst self; simp
          · have unheld : (s.calls d).bind Call.owns ≠ some x := by
              rw [Ne, ← old]
              rcases before with free | mine
              · simp [free]
              · have held := (locks x c).mpr (by simp [here, mine])
                simp [held, Ne.symm self]
            simp [self, unheld]
        · rw [if_neg same]
          by_cases self : d = c
          · subst self
            simpa [here, (others x same).1, (others x same).2] using old
          · simpa [self] using old
      · rw [locked]
        by_cases self : d = c
        · subst self
          simpa [kept, here] using old
        · simpa [self] using old
  · obtain ⟨half, same⟩ := asideHalf move keyed fun c reply h => calls ⟨c, reply, h⟩
    intro x d
    rw [(halfFields (half x)).2.2.2.1, locks x d]
    rcases same d with kept | ⟨none_, method, new⟩
    · rw [kept]
    · rw [none_, new]
      simp [Call.owns]

def State.sent (s : State) (c : Nat) : Bytes := (s.calls c).elim [] Call.sent

def Call.wrote : Call → Bool
  | ⟨.streamSend _ _ _, .returned (.status .ok), _⟩ => true
  | _ => false

def State.wrote (s : State) (c : Nat) : Prop := ∃ k, s.calls c = some k ∧ k.wrote = true

def Call.writes : Call → Option Nat
  | ⟨.streamSend _ _ _, .writing x _, _⟩ => some x
  | _ => none

inductive Turn (x : Nat) (broken : Bool) : Call → Prop where
  | writing {id t payload rest sent} (split : sent ++ rest = Utf8.encode payload) :
      Turn x broken ⟨.streamSend id t payload, .writing x rest, sent⟩
  | whole {id t payload} :
      Turn x broken ⟨.streamSend id t payload, .returned (.status .ok), Utf8.encode payload⟩
  | cut {id t payload rest sent} (split : sent ++ rest = Utf8.encode payload) (left : rest ≠ [])
      (after : broken = true) :
      Turn x broken ⟨.streamSend id t payload, .returned (.status .peerGone), sent⟩

structure Framed (x : Nat) (s : State) : Prop where
  bytes : (s.exchanges x).bytes = (s.exchanges x).turns.flatMap s.sent
  once : (s.exchanges x).turns.Nodup
  turns : ∀ c ∈ (s.exchanges x).turns, ∃ k, s.calls c = some k ∧ Turn x (s.exchanges x).broken k
  writers : ∀ c k, s.calls c = some k → k.writes = some x → c ∈ (s.exchanges x).turns
  torn : (s.exchanges x).turns.Pairwise fun a b => s.wrote a ∨ s.sent b = []

def Unsent (s : State) : Prop :=
  ∀ c k, s.calls c = some k → (k.progress = .entered ∨ ∃ y, k.progress = .waiting y) → k.sent = []

theorem unsentStep {role s a t} (move : Move role s a t) (unsent : Unsent s) : Unsent t := by
  intro d k1 h early
  cases move with
  | incoming server free => exact unsent d k1 h early
  | task here step => exact unsent d k1 (by simpa using h) early
  | reader step =>
    rw [(readerKeeps (s := s) step).2.2.2.2.2] at h
    exact unsent d k1 h early
  | enter free =>
    rcases updateSome h with ⟨-, rfl⟩ | ⟨-, old⟩
    · rfl
    · exact unsent d k1 old early
  | @call c reply k k' e here step =>
    rcases updateSome h with ⟨rfl, rfl⟩ | ⟨-, old⟩
    · have before := unsent d k here
      cases step with
      | writeFound => exact before (.inl rfl)
      | closeTake => exact before (.inl rfl)
      | _ => simp at early
    · exact unsent d k1 (by simpa using old) early

theorem turnGoes {x broken k} (turn : Turn x broken k) :
    k.writes = some x ∨ ∃ answer, k.progress = .returned answer := by
  cases turn with
  | writing => exact .inl rfl
  | whole => exact .inr ⟨_, rfl⟩
  | cut => exact .inr ⟨_, rfl⟩

theorem framedAside {s t : State} {x : Nat} (framed : Framed x s)
    (bytes : (t.exchanges x).bytes = (s.exchanges x).bytes)
    (broken : (t.exchanges x).broken = (s.exchanges x).broken)
    (turns : (t.exchanges x).turns = (s.exchanges x).turns)
    (calls : ∀ c ∈ (s.exchanges x).turns, t.calls c = s.calls c)
    (writers : ∀ c k, t.calls c = some k → k.writes = some x → s.calls c = some k) : Framed x t := by
  have sent : ∀ c ∈ (s.exchanges x).turns, t.sent c = s.sent c :=
    fun c h => by rw [State.sent, State.sent, calls c h]
  refine ⟨?_, turns ▸ framed.once, fun c h => ?_, fun c k h writes => ?_, ?_⟩
  · rw [bytes, turns, framed.bytes]
    exact List.flatMap_congr fun c h => (sent c h).symm
  · rw [turns] at h
    rw [broken, calls c h]
    exact framed.turns c h
  · rw [turns]
    exact framed.writers c k (writers c k h writes) writes
  · rw [turns]
    refine framed.torn.imp_of_mem fun {a b} ha hb pair => ?_
    rw [sent b hb]
    refine pair.imp_left fun ⟨k, h, wrote⟩ => ⟨k, ?_, wrote⟩
    rw [calls a ha, h]

theorem framedTurn {s t : State} {x c : Nat} {k k' : Call} (chunk : Bytes) (framed : Framed x s)
    (mine : c ∈ (s.exchanges x).turns) (here : s.calls c = some k) (going : k.wrote = false)
    (calls : t.calls = Function.update s.calls c (some k'))
    (bytes : (t.exchanges x).bytes = (s.exchanges x).bytes ++ chunk) (sent : k'.sent = k.sent ++ chunk)
    (turns : (t.exchanges x).turns = (s.exchanges x).turns)
    (broken : (s.exchanges x).broken = true → (t.exchanges x).broken = true)
    (turn : Turn x (t.exchanges x).broken k')
    (others : chunk ≠ [] → ∀ a ∈ (s.exchanges x).turns, a ≠ c → s.wrote a) : Framed x t := by
  have other : ∀ a, a ≠ c → t.calls a = s.calls a := fun a h => by rw [calls, Function.update_of_ne h]
  have now : t.calls c = some k' := by rw [calls, Function.update_self]
  have sentOther : ∀ a, a ≠ c → t.sent a = s.sent a := fun a h => by rw [State.sent, State.sent, other a h]
  have sentWas : s.sent c = k.sent := by rw [State.sent, here]; rfl
  have sentNow : t.sent c = k.sent ++ chunk := by rw [State.sent, now]; exact sent
  have unwrote : ¬ s.wrote c := by
    rintro ⟨k1, h, wrote⟩
    cases Option.some.inj (here.symm.trans h)
    rw [going] at wrote
    cases wrote
  refine ⟨?_, turns ▸ framed.once, fun a h => ?_, fun a k1 h writes => ?_, ?_⟩
  · obtain ⟨before, after, split⟩ := List.append_of_mem mine
    have once := framed.once
    have torn := framed.torn
    rw [split] at once torn
    obtain ⟨-, later, apart⟩ := List.pairwise_append.mp once
    obtain ⟨-, tail, -⟩ := List.pairwise_append.mp torn
    have notBefore : ∀ a ∈ before, a ≠ c := fun a h => apart a h c List.mem_cons_self
    have notAfter : ∀ b ∈ after, b ≠ c := fun b h => ((List.pairwise_cons.mp later).1 b h).symm
    have silent : ∀ b ∈ after, s.sent b = [] :=
      fun b h => ((List.pairwise_cons.mp tail).1 b h).resolve_left unwrote
    have nothing : after.flatMap s.sent = [] := List.flatMap_eq_nil_iff.mpr silent
    have nothing' : after.flatMap t.sent = [] :=
      List.flatMap_eq_nil_iff.mpr fun b h => (sentOther b (notAfter b h)).trans (silent b h)
    have same : before.flatMap t.sent = before.flatMap s.sent :=
      List.flatMap_congr fun a h => sentOther a (notBefore a h)
    rw [bytes, framed.bytes, turns, split]
    simp [sentWas, sentNow, nothing, nothing', same]
  · rw [turns] at h
    by_cases self : a = c
    · subst self
      exact ⟨k', now, turn⟩
    · obtain ⟨k1, there, old⟩ := framed.turns a h
      refine ⟨k1, (other a self).trans there, ?_⟩
      cases old with
      | writing split => exact .writing split
      | whole => exact .whole
      | cut split left after => exact .cut split left (broken after)
  · rw [turns]
    by_cases self : a = c
    · exact self ▸ mine
    · exact framed.writers a k1 ((other a self).symm.trans h) writes
  · rw [turns]
    refine (framed.once.and framed.torn).imp_of_mem fun {a b} ha hb pair => ?_
    obtain ⟨apart, old⟩ := pair
    have stays : s.wrote a → t.wrote a := by
      intro wrote
      have self : a ≠ c := fun same => unwrote (same ▸ wrote)
      obtain ⟨k1, h, done⟩ := wrote
      exact ⟨k1, (other a self).trans h, done⟩
    by_cases self : b = c
    · subst self
      rw [sentNow]
      by_cases none_ : chunk = []
      · rw [none_, List.append_nil, ← sentWas]
        exact old.imp_left stays
      · exact .inl (stays (others none_ a ha apart))
    · rw [sentOther b self]
      exact old.imp_left stays

theorem framedAcquire {s t : State} {x c : Nat} {k' : Call} (framed : Framed x s)
    (fresh : c ∉ (s.exchanges x).turns) (unsent : k'.sent = [])
    (calls : t.calls = Function.update s.calls c (some k'))
    (bytes : (t.exchanges x).bytes = (s.exchanges x).bytes)
    (broken : (t.exchanges x).broken = (s.exchanges x).broken)
    (turns : (t.exchanges x).turns = (s.exchanges x).turns ++ [c])
    (turn : Turn x (s.exchanges x).broken k') : Framed x t := by
  have other : ∀ a, a ≠ c → t.calls a = s.calls a := fun a h => by rw [calls, Function.update_of_ne h]
  have now : t.calls c = some k' := by rw [calls, Function.update_self]
  have apart : ∀ a ∈ (s.exchanges x).turns, a ≠ c := fun a h same => fresh (same ▸ h)
  have nothing : t.sent c = [] := by rw [State.sent, now]; exact unsent
  have sent : ∀ a ∈ (s.exchanges x).turns, t.sent a = s.sent a :=
    fun a h => by rw [State.sent, State.sent, other a (apart a h)]
  refine ⟨?_, ?_, fun a h => ?_, fun a k1 h writes => ?_, ?_⟩
  · rw [bytes, turns, framed.bytes, List.flatMap_append, List.flatMap_singleton, nothing, List.append_nil]
    exact List.flatMap_congr fun a h => (sent a h).symm
  · rw [turns]
    refine List.nodup_append.mpr ⟨framed.once, List.nodup_singleton c, fun a ha b hb => ?_⟩
    rw [List.mem_singleton.mp hb]
    exact apart a ha
  · rw [turns] at h
    rw [broken]
    rcases List.mem_append.mp h with old | last
    · obtain ⟨k1, there, was⟩ := framed.turns a old
      exact ⟨k1, (other a (apart a old)).trans there, was⟩
    · cases List.mem_singleton.mp last
      exact ⟨k', now, turn⟩
  · rw [turns]
    by_cases self : a = c
    · exact List.mem_append_right _ (List.mem_singleton.mpr self)
    · exact List.mem_append_left _ (framed.writers a k1 ((other a self).symm.trans h) writes)
  · rw [turns]
    refine List.pairwise_append.mpr ⟨framed.torn.imp_of_mem fun {a b} ha hb pair => ?_,
      List.pairwise_singleton _ _, fun a ha b hb => ?_⟩
    · rw [sent b hb]
      exact pair.imp_left fun ⟨k1, h, wrote⟩ => ⟨k1, (other a (apart a ha)).trans h, wrote⟩
    · rw [List.mem_singleton.mp hb]
      exact .inr nothing

theorem onFrames (x : Nat) (ex : Exchange) {e : Effect} (noPut : ∀ y chunk, e ≠ .put y chunk)
    (noTurn : ∀ y c, e ≠ .acquire y c true) (noCut : ∀ y, e ≠ .release y true) :
    (e.on x ex).bytes = ex.bytes ∧ (e.on x ex).broken = ex.broken ∧ (e.on x ex).turns = ex.turns := by
  cases e with
  | put y chunk => exact absurd rfl (noPut y chunk)
  | acquire y c writes =>
    cases writes with
    | true => exact absurd rfl (noTurn y c)
    | false => by_cases same : x = y <;> simp [Effect.on, same]
  | release y failed =>
    cases failed with
    | true => exact absurd rfl (noCut y)
    | false => simp only [Effect.on]; split_ifs <;> simp
  | take id t y c => simp only [Effect.on]; split_ifs <;> exact ⟨rfl, rfl, rfl⟩
  | spawn y => simp only [Effect.on]; split_ifs <;> exact ⟨rfl, rfl, rfl⟩
  | finish y => simp only [Effect.on]; split_ifs <;> exact ⟨rfl, rfl, rfl⟩
  | _ => exact ⟨rfl, rfl, rfl⟩

theorem atItsTurn {s : State} {c x id t payload rest sent} (framed : Framed x s)
    (here : s.calls c = some ⟨.streamSend id t payload, .writing x rest, sent⟩) :
    c ∈ (s.exchanges x).turns ∧ sent ++ rest = Utf8.encode payload := by
  have turn := framed.writers c _ here rfl
  obtain ⟨k, there, was⟩ := framed.turns c turn
  cases Option.some.inj (here.symm.trans there)
  cases was with
  | writing split => exact ⟨turn, split⟩

theorem framedCall {s c reply k k' e x} (keyed : Keyed s) (locks : Locks s) (unsent : Unsent s)
    (framed : Framed x s) (here : s.calls c = some k) (step : CallMove s c k reply k' e) :
    Framed x {s.apply e with calls := Function.update s.calls c (some k')} := by
  obtain ⟨bytes, -, broken, -, -, turns⟩ := halfFields (halfAfter keyed.beyond e x)
  have mine : k.writes ≠ some x → c ∉ (s.exchanges x).turns := by
    intro other h
    obtain ⟨k1, there, turn⟩ := framed.turns c h
    cases Option.some.inj (here.symm.trans there)
    rcases turnGoes turn with writes | ⟨answer, done⟩
    · exact other writes
    · exact returnedStays step done
  -- a call that does not write to `x` before its step or after it
  have aside : (e.on x (s.exchanges x)).bytes = (s.exchanges x).bytes ∧
      (e.on x (s.exchanges x)).broken = (s.exchanges x).broken ∧
      (e.on x (s.exchanges x)).turns = (s.exchanges x).turns → k.writes ≠ some x → k'.writes ≠ some x →
      Framed x {s.apply e with calls := Function.update s.calls c (some k')} := by
    rintro ⟨sameBytes, sameBroken, sameTurns⟩ was now
    refine framedAside framed (bytes.trans sameBytes) (broken.trans sameBroken) (turns.trans sameTurns)
      (fun a h => ?_) (fun a k1 h writes => ?_)
    · have other : a ≠ c := by
        rintro rfl
        exact mine was h
      exact Function.update_of_ne other ..
    · rcases updateSome h with ⟨rfl, rfl⟩ | ⟨-, old⟩
      · exact absurd writes now
      · exact old
  cases step with
  | @writeLock id t payload sent y free =>
    by_cases same : x = y
    · subst same
      have nothing : sent = [] := unsent c _ here (.inr ⟨x, rfl⟩)
      subst nothing
      exact framedAcquire framed (mine (by simp [Call.writes])) rfl rfl
        (bytes.trans (by simp [Effect.on])) (broken.trans (by simp [Effect.on]))
        (turns.trans (by simp [Effect.on])) (.writing rfl)
    · exact aside (by simp [Effect.on, same]) (by simp [Call.writes]) (by simp [Call.writes, Ne.symm same])
  | @wrote id t payload sent y rest n some_ left open_ sound =>
    by_cases same : x = y
    · subst same
      obtain ⟨turn, split⟩ := atItsTurn framed here
      refine framedTurn (rest.take n) framed turn here rfl rfl
        (bytes.trans (by simp [Effect.on])) rfl (turns.trans (by simp [Effect.on]))
        (fun h => broken.trans (by simpa [Effect.on] using h)) (.writing ?_) (fun _ a h apart => ?_)
      · rw [List.append_assoc, List.take_append_drop, split]
      · obtain ⟨k2, other, theirs⟩ := framed.turns a h
        cases theirs with
        | writing =>
          have held := (locks x a).mpr (by rw [other]; rfl)
          rw [(locks x c).mpr (by rw [here]; rfl)] at held
          exact absurd (Option.some.inj held).symm apart
        | whole => exact ⟨_, other, rfl⟩
        | cut _ _ after => rw [sound] at after; cases after
    · exact aside (by simp [Effect.on, same]) (by simp [Call.writes, Ne.symm same])
        (by simp [Call.writes, Ne.symm same])
  | @writeDone id t payload sent y =>
    by_cases same : x = y
    · subst same
      obtain ⟨turn, split⟩ := atItsTurn framed here
      rw [List.append_nil] at split
      subst split
      exact framedTurn [] framed turn here rfl rfl (bytes.trans (by simp [Effect.on]))
        (List.append_nil _).symm (turns.trans (by simp [Effect.on]))
        (fun h => broken.trans (by simpa [Effect.on] using h)) .whole (fun h => absurd rfl h)
    · exact aside (by simp [Effect.on, same]) (by simp [Call.writes, Ne.symm same]) (by simp [Call.writes])
  | @writeFailed id t payload sent y rest left =>
    by_cases same : x = y
    · subst same
      obtain ⟨turn, split⟩ := atItsTurn framed here
      have broke : ((s.apply (.release x true)).exchanges x).broken = true :=
        broken.trans (by simp [Effect.on])
      exact framedTurn [] framed turn here rfl rfl (bytes.trans (by simp [Effect.on]))
        (List.append_nil _).symm (turns.trans (by simp [Effect.on])) (fun _ => broke)
        (.cut split left broke) (fun h => absurd rfl h)
    · exact aside (by simp [Effect.on, same]) (by simp [Call.writes, Ne.symm same]) (by simp [Call.writes])
  | _ =>
    exact aside (onFrames x _ (by simp) (by simp) (by simp)) (by simp [Call.writes])
      (by simp [Call.writes])

structure Writing (s : State) : Prop where
  locks : Locks s
  unsent : Unsent s
  framed : ∀ x, Framed x s

theorem writingStep {role s a t} (move : Move role s a t) (keyed : Keyed s) (writing : Writing s) :
    Writing t := by
  refine ⟨locksStep move keyed writing.locks, unsentStep move writing.unsent, fun x => ?_⟩
  by_cases calls : ∃ c reply, a = .call c reply
  · obtain ⟨c, reply, rfl⟩ := calls
    cases move with
    | call here step => exact framedCall keyed writing.locks writing.unsent (writing.framed x) here step
  · obtain ⟨half, same⟩ := asideHalf move keyed fun c reply h => calls ⟨c, reply, h⟩
    obtain ⟨bytes, -, broken, -, -, turns⟩ := halfFields (half x)
    refine framedAside (writing.framed x) bytes broken turns (fun c h => ?_) (fun c k h writes => ?_)
    · rcases same c with kept | ⟨none_, -⟩
      · exact kept
      · obtain ⟨k, here, -⟩ := (writing.framed x).turns c h
        rw [none_] at here
        cases here
    · rcases same c with kept | ⟨-, method, new⟩
      · exact kept ▸ h
      · cases Option.some.inj (new.symm.trans h)
        simp [Call.writes] at writes

theorem initWriting (role : Role) : Writing (init role) := by
  have blank : (∀ x, (init role).exchanges x = .opened 0 0) ∧ ∀ c, (init role).calls c = none := by
    cases role <;> exact ⟨fun _ => rfl, fun _ => rfl⟩
  refine ⟨fun x c => ?_, fun c k h => ?_, fun x => ⟨?_, ?_, ?_, fun c k h => ?_, ?_⟩⟩
  · rw [blank.1, blank.2]; simp [Exchange.opened]
  · rw [blank.2] at h; cases h
  · rw [blank.1]; rfl
  · rw [blank.1]; exact List.nodup_nil
  · rw [blank.1]; simp [Exchange.opened]
  · rw [blank.2] at h; cases h
  · rw [blank.1]; exact List.Pairwise.nil

theorem writingRun {role labels s} (ran : run (step role) (init role) labels = some s) : Writing s :=
  runHistory (P := fun _ s => Writing s) (initWriting role)
    (fun _ _ _ _ before old one => writingStep (moves one) (keyedRun before) old) ran

/-! Which calls have had a turn, and on which stream. -/

def Call.tookTurn : Call → Prop
  | ⟨.streamSend _ _ _, .writing _ _, _⟩ | ⟨.streamSend _ _ _, .returned (.status .ok), _⟩
  | ⟨.streamSend _ _ _, .returned (.status .peerGone), _⟩ => True
  | _ => False

def Method.target : Method → Option (SessionId × StreamId)
  | .streamSend id t _ => some (id, t)
  | _ => none

structure Turns (s : State) : Prop where
  own : ∀ x c, c ∈ (s.exchanges x).turns →
    x < s.fresh ∧ ∃ k, s.calls c = some k ∧ k.method.target = some (s.exchanges x).key
  served : ∀ c k, s.calls c = some k → k.tookTurn → ∃ x, c ∈ (s.exchanges x).turns

theorem onTurns (x : Nat) (e : Effect) (ex : Exchange) :
    (e.on x ex).turns = ex.turns ∨ ∃ c, e = .acquire x c true ∧ (e.on x ex).turns = ex.turns ++ [c] := by
  cases e with
  | acquire y c writes =>
    by_cases same : x = y
    · subst same
      cases writes with
      | true => exact .inr ⟨c, rfl, by simp [Effect.on]⟩
      | false => exact .inl (by simp [Effect.on])
    · exact .inl (by simp [Effect.on, same])
  | _ => refine .inl ?_; simp only [Effect.on] <;> split_ifs <;> rfl

theorem callTurn {s c k reply k' e} (move : CallMove s c k reply k' e) :
    (∀ x d, e = .acquire x d true → d = c ∧ ∃ key, k.holds = some (x, key) ∧ k.method.target = some key) ∧
    (k'.tookTurn → k.tookTurn ∨ ∃ x, e = .acquire x c true) := by
  cases move with
  | writeLock =>
    refine ⟨fun x d h => ?_, fun _ => .inr ⟨_, rfl⟩⟩
    cases h
    exact ⟨rfl, _, rfl, rfl⟩
  | wrote | writeDone | writeFailed => exact ⟨fun x d h => by simp at h, fun _ => .inl trivial⟩
  | _ => exact ⟨fun x d h => by simp at h, fun took => absurd took not_false⟩

theorem turnsCall {s c k reply k' e} (keyed : Keyed s) (turns : Turns s) (here : s.calls c = some k)
    (step : CallMove s c k reply k' e) : Turns {s.apply e with calls := Function.update s.calls c (some k')} := by
  have turnsNow : ∀ x, ((s.apply e).exchanges x).turns = (e.on x (s.exchanges x)).turns :=
    fun x => (halfFields (halfAfter keyed.beyond e x)).2.2.2.2.2
  obtain ⟨grows, keys⟩ := applyKeys s e
  have method := (callKeeps step).2.2.2.2
  obtain ⟨acquires, took⟩ := callTurn step
  have stays : ∀ x d, d ∈ (s.exchanges x).turns → d ∈ ((s.apply e).exchanges x).turns := by
    intro x d h
    rw [turnsNow]
    rcases onTurns x e (s.exchanges x) with same | ⟨c', -, more⟩
    · rw [same]; exact h
    · rw [more]; exact List.mem_append_left _ h
  have mover : ∀ key, k.method.target = some key → ∀ d, d = c →
      ∃ k1, Function.update s.calls c (some k') d = some k1 ∧ k1.method.target = some key := by
    rintro key h d rfl
    exact ⟨k', Function.update_self .., method ▸ h⟩
  refine ⟨fun x d h => ?_, fun d k1 h tookTurn => ?_⟩
  · have old : d ∈ (s.exchanges x).turns → x < (s.apply e).fresh ∧
        ∃ k1, Function.update s.calls c (some k') d = some k1 ∧
          k1.method.target = some ((s.apply e).exchanges x).key := by
      intro before
      obtain ⟨less, k1, there, target⟩ := turns.own x d before
      refine ⟨less.trans_le grows, ?_⟩
      rw [keys x less]
      by_cases self : d = c
      · subst self
        cases Option.some.inj (here.symm.trans there)
        exact mover _ target d rfl
      · exact ⟨k1, (Function.update_of_ne self ..).trans there, target⟩
    have member : d ∈ ((s.apply e).exchanges x).turns := h
    rw [turnsNow] at member
    rcases onTurns x e (s.exchanges x) with same | ⟨d', acquire, more⟩
    · exact old (same ▸ member)
    · rw [more] at member
      rcases List.mem_append.mp member with before | last
      · exact old before
      · cases List.mem_singleton.mp last
        obtain ⟨rfl, key, holds, target⟩ := acquires x d acquire
        obtain ⟨less, same⟩ := keyed.calls d k x key here holds
        refine ⟨less.trans_le grows, ?_⟩
        rw [show _ = (s.exchanges x).key from keys x less, same]
        exact mover key target d rfl
  · rcases updateSome h with ⟨rfl, rfl⟩ | ⟨-, before⟩
    · rcases took tookTurn with was | ⟨x, acquire⟩
      · obtain ⟨x, member⟩ := turns.served d k here was
        exact ⟨x, stays x d member⟩
      · refine ⟨x, ?_⟩
        show d ∈ ((s.apply e).exchanges x).turns
        rw [turnsNow, acquire]
        simp [Effect.on]
    · obtain ⟨x, member⟩ := turns.served d k1 before tookTurn
      exact ⟨x, stays x d member⟩

theorem turnsAside {role s a t} (move : Move role s a t) (keyed : Keyed s) (aside : ∀ c reply, a ≠ .call c reply)
    (turns : Turns s) : Turns t := by
  obtain ⟨grows, keys⟩ := moveKeys move
  obtain ⟨half, same⟩ := asideHalf move keyed aside
  have kept : ∀ x, (t.exchanges x).turns = (s.exchanges x).turns := fun x => (halfFields (half x)).2.2.2.2.2
  refine ⟨fun x c h => ?_, fun c k h took => ?_⟩
  · rw [kept] at h
    obtain ⟨less, k, here, target⟩ := turns.own x c h
    refine ⟨less.trans_le grows, k, ?_, (keys x less).symm ▸ target⟩
    rcases same c with stays | ⟨none_, -⟩
    · rw [stays, here]
    · rw [none_] at here; cases here
  · rcases same c with stays | ⟨-, method, new⟩
    · obtain ⟨x, member⟩ := turns.served c k (stays ▸ h) took
      exact ⟨x, (kept x).symm ▸ member⟩
    · cases Option.some.inj (new.symm.trans h)
      simp [Call.tookTurn] at took

theorem turnsStep {role s a t} (move : Move role s a t) (keyed : Keyed s) (turns : Turns s) : Turns t := by
  by_cases calls : ∃ c reply, a = .call c reply
  · obtain ⟨c, reply, rfl⟩ := calls
    cases move with
    | call here step => exact turnsCall keyed turns here step
  · exact turnsAside move keyed (fun c reply h => calls ⟨c, reply, h⟩) turns

theorem turnsRun {role labels s} (ran : run (step role) (init role) labels = some s) : Turns s := by
  refine runHistory (P := fun _ s => Turns s) ?_
    (fun _ _ _ _ before old one => turnsStep (moves one) (keyedRun before) old) ran
  refine ⟨fun x c h => ?_, fun c k h => ?_⟩
  · cases role <;> simp [init, Exchange.opened] at h
  · cases role <;> simp [init] at h

/-! The stream as the peer reads it. -/

def State.whole (s : State) (c : Nat) : Bytes :=
  match s.calls c with
  | some ⟨.streamSend _ _ payload, .returned (.status .ok), _⟩ => Utf8.encode payload
  | _ => []

inductive Torn (torn : Bytes) : Call → Prop where
  | going {id t payload x rest} (split : torn ++ rest = Utf8.encode payload) :
      Torn torn ⟨.streamSend id t payload, .writing x rest, torn⟩
  | failed {id t payload rest} (split : torn ++ rest = Utf8.encode payload) (left : rest ≠ []) :
      Torn torn ⟨.streamSend id t payload, .returned (.status .peerGone), torn⟩

def TornBy (s : State) (turns : List Nat) (torn : Bytes) : Prop :=
  ∃ before c after k, turns = before ++ c :: after ∧ (∀ b ∈ before, s.wrote b) ∧
    s.calls c = some k ∧ Torn torn k

theorem turnWhole {s : State} {x broken c k} (here : s.calls c = some k) (turn : Turn x broken k) :
    (s.wrote c ∧ s.sent c = s.whole c) ∨
      (¬ s.wrote c ∧ s.whole c = [] ∧ Torn (s.sent c) k) := by
  cases turn with
  | writing split =>
    refine .inr ⟨?_, by simp [State.whole, here], ?_⟩
    · rintro ⟨k1, there, wrote⟩
      cases Option.some.inj (here.symm.trans there)
      cases wrote
    · simpa [State.sent, here] using Torn.going split
  | whole => exact .inl ⟨⟨_, here, rfl⟩, by simp [State.sent, State.whole, here]⟩
  | cut split left after =>
    refine .inr ⟨?_, by simp [State.whole, here], ?_⟩
    · rintro ⟨k1, there, wrote⟩
      cases Option.some.inj (here.symm.trans there)
      cases wrote
    · simpa [State.sent, here] using Torn.failed split left

theorem turnsWhole {s : State} {x broken} (turns : List Nat)
    (each : ∀ c ∈ turns, ∃ k, s.calls c = some k ∧ Turn x broken k)
    (torn : turns.Pairwise fun a b => s.wrote a ∨ s.sent b = []) :
    ∃ rest, turns.flatMap s.sent = turns.flatMap s.whole ++ rest ∧ (rest = [] ∨ TornBy s turns rest) := by
  induction turns with
  | nil => exact ⟨[], rfl, .inl rfl⟩
  | cons c later ih =>
    obtain ⟨k, here, turn⟩ := each c List.mem_cons_self
    have eachLater : ∀ a ∈ later, ∃ k, s.calls a = some k ∧ Turn x broken k :=
      fun a h => each a (List.mem_cons_of_mem _ h)
    obtain ⟨first, tornLater⟩ := List.pairwise_cons.mp torn
    rcases turnWhole here turn with ⟨wrote, same⟩ | ⟨unwrote, none_, cut⟩
    · obtain ⟨rest, split, by_⟩ := ih eachLater tornLater
      refine ⟨rest, by simp [List.flatMap_cons, split, same], by_.imp_right ?_⟩
      rintro ⟨before, d, after, k1, rfl, wrotes, there, cut⟩
      refine ⟨c :: before, d, after, k1, rfl, fun b h => ?_, there, cut⟩
      rcases List.mem_cons.mp h with rfl | old
      · exact wrote
      · exact wrotes b old
    · have silent : ∀ a ∈ later, s.sent a = [] := fun a h => (first a h).resolve_left unwrote
      have noWhole : ∀ a ∈ later, s.whole a = [] := by
        intro a h
        obtain ⟨k1, there, turn1⟩ := eachLater a h
        rcases turnWhole there turn1 with ⟨-, same⟩ | ⟨-, none1, -⟩
        · rw [← same, silent a h]
        · exact none1
      refine ⟨s.sent c, ?_, .inr ⟨[], c, later, k, rfl, fun b h => absurd h List.not_mem_nil, here, cut⟩⟩
      rw [List.flatMap_cons, List.flatMap_cons, none_, List.flatMap_eq_nil_iff.mpr silent,
        List.flatMap_eq_nil_iff.mpr noWhole]
      simp

theorem onFin (x : Nat) (e : Effect) (ex : Exchange) (fin : ex.fin = true) : (e.on x ex).fin = true := by
  cases e <;> simp only [Effect.on] <;> repeat' split
  all_goals simp [fin]

theorem onBytes (x : Nat) (e : Effect) (ex : Exchange) :
    (e.on x ex).bytes = ex.bytes ∨ ∃ chunk, e = .put x chunk := by
  cases e with
  | put y chunk =>
    by_cases same : x = y
    · exact .inr ⟨chunk, by rw [same]⟩
    · exact .inl (by simp [Effect.on, same])
  | _ => refine .inl ?_; simp only [Effect.on] <;> split_ifs <;> rfl

theorem putOpen {s c k reply k' x chunk} (move : CallMove s c k reply k' (.put x chunk)) :
    (s.exchanges x).fin = false := by
  cases move with
  | wrote some_ left open_ sound => exact open_

theorem finStep {role s a t} (move : Move role s a t) (keyed : Keyed s) {x : Nat}
    (fin : (s.exchanges x).fin = true) :
    (t.exchanges x).fin = true ∧ (t.exchanges x).bytes = (s.exchanges x).bytes := by
  by_cases calls : ∃ c reply, a = .call c reply
  · obtain ⟨c, reply, rfl⟩ := calls
    cases move with
    | @call _ _ k k' e here step =>
      obtain ⟨bytes, finNow, -⟩ := halfFields (halfAfter keyed.beyond e x)
      refine ⟨finNow.trans (onFin x e _ fin), bytes.trans ?_⟩
      rcases onBytes x e (s.exchanges x) with same | ⟨chunk, rfl⟩
      · exact same
      · rw [putOpen step] at fin
        cases fin
  · obtain ⟨bytes, finNow, -⟩ :=
      halfFields ((asideHalf move keyed fun c reply h => calls ⟨c, reply, h⟩).1 x)
    exact ⟨finNow.trans fin, bytes⟩

end RkQuic.Endpoint
