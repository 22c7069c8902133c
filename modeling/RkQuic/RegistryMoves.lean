import RkQuic.Registry

/-! What one step of a call can be, listed once, and who has a reference to what. -/
namespace RkQuic.Registry
open Runs Naming

def Method.handle : Method → Option Handle
  | .start | .connect => none
  | .stop h | .localPort h | .poll h | .sessionSend h _ _ | .streamSend h _ _ _ | .streamClose h _ _
  | .openStream h _ => some h

def Method.makes : Method → Bool
  | .start | .connect => true
  | _ => false

def Method.valid : Method → Bool
  | .sessionSend _ _ none | .streamSend _ _ _ none => false
  | _ => true

def Method.refusal : Method → Status
  | .stop _ => .notRunning
  | _ => .unknownHandle

inductive CallMove (s : State) (k : Call) : Call → Effect → Prop where
  | begin {p : Progress} (at_ : k.progress = .entered) (makes : k.method.makes = true)
      (first : p = .identifying ∨ p = .numbering none ∨ ∃ status, p = .returning (.status status)) :
      CallMove s k (k.to p) .none
  | invalid {h} (at_ : k.progress = .entered) (method : k.method.handle = some h)
      (bad : k.method.valid = false) : CallMove s k (k.answer .invalidArgument) .none
  | unknown {h} (at_ : k.progress = .entered) (method : k.method.handle = some h)
      (good : k.method.valid = true) (absent : s.registry h = none) :
      CallMove s k (k.answer k.method.refusal) .none
  | found {h o} (at_ : k.progress = .entered) (method : k.method.handle = some h)
      (looks : ∀ h, k.method ≠ .stop h) (present : s.registry h = some o) :
      CallMove s k ⟨k.method, .holding o, some o⟩ (.clone o)
  | removed {h o} (at_ : k.progress = .entered) (stops : k.method = .stop h)
      (present : s.registry h = some o) :
      CallMove s k ⟨k.method, .releasing o (.status .ok), some o⟩ (.remove h)
  | identify (at_ : k.progress = .identifying) :
      CallMove s k (k.to (.numbering (some s.next))) .nextHandle
  | number {session} (at_ : k.progress = .numbering session) :
      CallMove s k (k.to (.registering session s.next)) .nextHandle
  | register {session h} (at_ : k.progress = .registering session h) (absent : s.registry h = none) :
      CallMove s k (k.to (.returning (registered session h))) (.insert h session.toList)
  | displace {session h old} (at_ : k.progress = .registering session h) (present : s.registry h = some old) :
      CallMove s k (k.to (.releasing old (registered session h))) (.insert h session.toList)
  | look {o} (at_ : k.progress = .holding o) : CallMove s k (k.to (.checking o)) .none
  | ready {o} (at_ : k.progress = .checking o) (up : (s.objects o).runtime = true) :
      CallMove s k (k.to (.awaiting o)) .none
  | late {o} (at_ : k.progress = .checking o) (down : (s.objects o).runtime = false) :
      CallMove s k (k.leave o .notRunning) .none
  | settle {o a} (at_ : k.progress = .holding o ∨ k.progress = .awaiting o)
      (running : a ≠ .status .notRunning) (unnamed : ∀ session h, a ≠ registered session h) :
      CallMove s k (k.to (.releasing o a)) .none
  | last {o a} (at_ : k.progress = .releasing o a) (only : (s.objects o).count = 1) :
      CallMove s k (k.to (.draining o a)) (.release o)
  | shared {o a} (at_ : k.progress = .releasing o a) (others : (s.objects o).count ≠ 1) :
      CallMove s k (k.to (.returning a)) (.release o)
  | drain {o a} (at_ : k.progress = .draining o a) : CallMove s k (k.to (.shutting o a)) (.drain o)
  | shut {o a} (at_ : k.progress = .shutting o a) : CallMove s k (k.to (.returning a)) (.shut o)
  | finish {a} (at_ : k.progress = .returning a) : CallMove s k (k.to (.returned a)) .none

theorem statusUnnamed (status : Status) (session : Option SessionId) (h : Handle) :
    Answer.status status ≠ registered session h := by
  cases session <;> simp [registered]

theorem lookupMoves {s k h k' e} (at_ : k.progress = .entered) (method : k.method.handle = some h)
    (looks : ∀ h, k.method ≠ .stop h) (good : k.method.valid = true)
    (refusal : k.method.refusal = .unknownHandle) (ran : lookup s k h = (k', e)) : CallMove s k k' e := by
  unfold lookup at ran
  split at ran
  · cases ran
    exact refusal ▸ .unknown at_ method good (by assumption)
  · cases ran
    exact .found at_ method looks (by assumption)

theorem enterMoves {s method resolved reply k' e}
    (ran : enterStep s ⟨method, .entered, resolved⟩ method reply = some (k', e)) :
    CallMove s ⟨method, .entered, resolved⟩ k' e := by
  unfold enterStep at ran
  split at ran
  · cases ran; exact .begin rfl rfl (.inr (.inl rfl))
  · cases ran; exact .begin rfl rfl (.inl rfl)
  · cases ran; exact .begin rfl rfl (.inr (.inr ⟨_, rfl⟩))
  · cases ran; exact .begin rfl rfl (.inr (.inr ⟨_, rfl⟩))
  · unfold remove at ran
    split at ran <;> cases ran
    · exact .unknown rfl rfl rfl (by assumption)
    · exact .removed rfl rfl (by assumption)
  · exact lookupMoves rfl rfl (by simp) rfl rfl (Option.some.inj ran)
  · exact lookupMoves rfl rfl (by simp) rfl rfl (Option.some.inj ran)
  · exact lookupMoves rfl rfl (by simp) rfl rfl (Option.some.inj ran)
  · exact lookupMoves rfl rfl (by simp) rfl rfl (Option.some.inj ran)
  · split at ran
    · cases ran; exact .invalid rfl rfl rfl
    · exact lookupMoves rfl rfl (by simp) rfl rfl (Option.some.inj ran)
  · split at ran
    · cases ran; exact .invalid rfl rfl rfl
    · exact lookupMoves rfl rfl (by simp) rfl rfl (Option.some.inj ran)
  · cases ran

theorem holdMoves {s k o reply k'} (at_ : k.progress = .holding o)
    (ran : holdStep k o k.method reply = some k') : CallMove s k k' .none := by
  unfold holdStep at ran
  split at ran <;> cases ran <;>
    first
    | exact .look at_
    | exact .settle (.inl at_) (by simp) (statusUnnamed _)

theorem awaitMoves {s k o reply k'} (at_ : k.progress = .awaiting o)
    (ran : awaitStep k o k.method reply = some k') : CallMove s k k' .none := by
  unfold awaitStep at ran
  split at ran <;> cases ran
  · refine .settle (.inr at_) (by simp) fun session h => ?_
    cases session <;> simp [registered]
  · exact .settle (.inr at_) (by simp) (statusUnnamed _)
  · exact .settle (.inr at_) (by simp) (statusUnnamed _)

theorem callMoves {s k reply k' e} (ran : callStep s k reply = some (k', e)) : CallMove s k k' e := by
  unfold callStep at ran
  split at ran
  · obtain ⟨method, progress, resolved⟩ := k
    cases ‹_ = Progress.entered›
    exact enterMoves ran
  · cases ran; exact .identify (by assumption)
  · cases ran; exact .number (by assumption)
  · split at ran <;> cases ran
    · exact .register (by assumption) (by assumption)
    · exact .displace (by assumption) (by assumption)
  · obtain ⟨k1, held, same⟩ := Option.map_eq_some_iff.mp ran
    cases same
    exact holdMoves (by assumption) held
  · split at ran <;> cases ran
    · exact .ready (by assumption) (by assumption)
    · exact .late (by assumption) (Bool.eq_false_iff.mpr (by assumption))
  · obtain ⟨k1, held, same⟩ := Option.map_eq_some_iff.mp ran
    cases same
    exact awaitMoves (by assumption) held
  · split at ran <;> cases ran
    · exact .last (by assumption) (by assumption)
    · exact .shared (by assumption) (by assumption)
  · cases ran; exact .drain (by assumption)
  · cases ran; exact .shut (by assumption)
  · cases ran; exact .finish (by assumption)
  · cases ran

inductive Move (s : State) : Label → State → Prop where
  | enter {c : Nat} {method : Method} (free : s.calls c = none) :
      Move s (.enter c method) {s with calls := Function.update s.calls c (some ⟨method, .entered, none⟩), entered := s.entered ++ [c]}
  | call {c : Nat} {reply : Reply} {k k' : Call} {e : Effect} (here : s.calls c = some k)
      (move : CallMove s k k' e) :
      Move s (.call c reply) {s.apply e with calls := Function.update s.calls c (some k')}
  | session {a : Label} {o : Nat} {f : List SessionId → List SessionId} (aside : ∀ c reply, a ≠ .call c reply)
      (up : (s.objects o).runtime = true) : Move s a (s.edit o fun l => {l with sessions := f l.sessions})

theorem moves {s a t} (ran : step s a = some t) : Move s a t := by
  cases a with
  | enter c method =>
    simp only [step] at ran
    split at ran <;> cases ran
    exact .enter (by assumption)
  | call c reply =>
    simp only [step, bind, Option.bind_eq_some_iff] at ran
    obtain ⟨k, here, ⟨k', e⟩, one, last⟩ := ran
    cases Option.some.inj last
    exact .call here (callMoves one)
  | joined o id =>
    simp only [step] at ran
    split at ran <;> cases ran
    exact .session (a := .joined o id) (f := (id :: ·)) (fun _ _ => Label.noConfusion) (by assumption)
  | left o id =>
    simp only [step] at ran
    split at ran <;> cases ran
    exact .session (a := .left o id) (f := (·.erase id)) (fun _ _ => Label.noConfusion) (by assumption)

def Progress.has : Progress → Option Nat
  | .holding o | .checking o | .awaiting o | .releasing o _ => some o
  | _ => none

def Progress.destroys : Progress → Option Nat
  | .draining o _ | .shutting o _ => some o
  | _ => none

def State.progress (s : State) (c : Nat) : Option Progress := (s.calls c).map Call.progress

def State.has (s : State) (c : Nat) : Option Nat := (s.progress c).bind Progress.has

def State.destroys (s : State) (c : Nat) : Option Nat := (s.progress c).bind Progress.destroys

@[simp] theorem editCalls (s : State) (o : Nat) (f : Live → Live) : (s.edit o f).calls = s.calls := rfl

@[simp] theorem editRegistry (s : State) (o : Nat) (f : Live → Live) :
    (s.edit o f).registry = s.registry := rfl

@[simp] theorem editFresh (s : State) (o : Nat) (f : Live → Live) : (s.edit o f).fresh = s.fresh := rfl

theorem editObject (s : State) (o p : Nat) (f : Live → Live) :
    (s.edit o f).objects p = if p = o then f (s.objects p) else s.objects p := by
  by_cases same : p = o
  · subst same; simp [State.edit]
  · simp [State.edit, same]

theorem cloneObject (s : State) (o : Nat) :
    (s.apply (.clone o)).objects o = {s.objects o with count := (s.objects o).count + 1} := by
  simp [State.apply, editObject]

theorem releaseObject (s : State) (o : Nat) :
    (s.apply (.release o)).objects o = {s.objects o with count := (s.objects o).count - 1} := by
  simp [State.apply, editObject]

theorem drainObject (s : State) (o : Nat) :
    (s.apply (.drain o)).objects o = {s.objects o with sessions := [], drained := true} := by
  simp [State.apply, editObject]

theorem shutObject (s : State) (o : Nat) :
    (s.apply (.shut o)).objects o = {s.objects o with runtime := false} := by
  simp [State.apply, editObject]

@[simp] theorem applyCalls (s : State) (e : Effect) : (s.apply e).calls = s.calls := by
  cases e <;> rfl

@[simp] theorem applyEntered (s : State) (e : Effect) : (s.apply e).entered = s.entered := by
  cases e <;> rfl

theorem progressAfter {s t : State} {c : Nat} {k' : Call}
    (calls : t.calls = Function.update s.calls c (some k')) :
    t.progress = Function.update s.progress c (some k'.progress) := by
  funext d
  by_cases same : d = c <;> simp [State.progress, calls, same]

theorem hasAfter {s t : State} {c : Nat} {k' : Call}
    (calls : t.calls = Function.update s.calls c (some k')) :
    t.has = Function.update s.has c k'.progress.has := by
  funext d
  by_cases same : d = c <;> simp [State.has, progressAfter calls, same]

theorem destroysAfter {s t : State} {c : Nat} {k' : Call}
    (calls : t.calls = Function.update s.calls c (some k')) :
    t.destroys = Function.update s.destroys c k'.progress.destroys := by
  funext d
  by_cases same : d = c <;> simp [State.destroys, progressAfter calls, same]

theorem progressNow {s : State} {c k} (here : s.calls c = some k) : s.progress c = some k.progress := by
  rw [State.progress, here]; rfl

theorem hasNow {s : State} {c k} (here : s.calls c = some k) : s.has c = k.progress.has := by
  rw [State.has, progressNow here]; rfl

theorem destroysNow {s : State} {c k} (here : s.calls c = some k) : s.destroys c = k.progress.destroys := by
  rw [State.destroys, progressNow here]; rfl

end RkQuic.Registry
