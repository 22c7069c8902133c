import RkQuic.Arrivals

/-! The reliable road of `Endpoint::send`, from the calls of one endpoint to the events of the other:
any number of calls at once, a unidirectional stream for each. The layer below delivers the bytes
of a stream in order and in any chunks, its end after them, and acknowledges it when all has
arrived; a stream whose call has given up may be reset. What comes first is of any stream. -/
namespace RkQuic.Messages
open Endpoint Runs

inductive Progress where
  | entered
  | opening
  | negotiating
  | writing (rest : Bytes)
  | finishing
  | waiting
  | returned (status : Status)
  deriving DecidableEq, Repr

/-- A call and the stream it has opened. `put` is history: what has been written. -/
structure Sending where
  payload : String
  progress : Progress
  put : Bytes
  fin : Bool
  deriving DecidableEq, Repr

inductive Reply where
  | go
  | done
  | failed
  | wrote (n : Nat)
  deriving DecidableEq, Repr

def Sending.to (k : Sending) (progress : Progress) : Sending := {k with progress := progress}

/- `session` is whether the map has the session. Both awaits of the opening fail like the others;
`finish` shuts the stream down and waits until the peer has it all. -/
def send (session : Bool) (k : Sending) : Progress → Reply → Option Sending
  | .entered, .go => some (k.to (if session then .opening else .returned .unknownHandle))
  | .opening, .done => some (k.to .negotiating)
  | .negotiating, .done => some (k.to (.writing (Utf8.encode k.payload)))
  | .writing rest, .wrote n =>
    if 0 < n ∧ n ≤ rest.length then some {k with progress := .writing (rest.drop n), put := k.put ++ rest.take n} else none
  | .writing [], .go => some (k.to .finishing)
  | .finishing, .go => some {k with progress := .waiting, fin := true}
  | .waiting, .done => some (k.to (.returned .ok))
  | .opening, .failed | .negotiating, .failed | .writing (_ :: _), .failed | .waiting, .failed =>
    some (k.to (.returned .peerGone))
  | _, _ => none

def Sending.opened (k : Sending) : Bool :=
  match k.progress with
  | .entered | .opening => false
  | _ => true

/-- `places` are the calls whose streams have come to the peer, as they came, which is history. -/
structure Net extends FarEnd where
  session : Bool
  sends : Nat → Option Sending
  places : List Nat

inductive Label where
  | enter (c : Nat) (payload : String)
  | call (c : Nat) (reply : Reply)
  | forget
  | comes (c : Nat)
  | carries (c : Nat) (bytes : Bytes)
  | ends (c : Nat)
  | breaks (c : Nat)
  | peer (a : Signal)

def Net.arrived (r : Nat) (n : Net) (c : Nat) : Option Arriving := (n.peer.lines r).unis[n.places.idxOf c]?

def Net.hears (role : Role) (n : Net) (a : Signal) : Option Net :=
  (n.toFarEnd.hears role a).map fun f => {n with toFarEnd := f}

def Signal.aside (r : Nat) : Signal → Bool
  | .arrives q news =>
    q ≠ r ||
      match news with
      | .datagram _ | .bi _ | .close _ => true
      | .uni | .chunk _ _ | .fin _ | .reset _ => false
  | .serves _ _ | .moves _ => true

def Net.acknowledged (r : Nat) (n : Net) (c : Nat) (k : Sending) : Prop :=
  c ∈ n.places ∧ n.arrived r c = some ⟨k.put, .fin⟩

instance (r : Nat) (n : Net) (c : Nat) (k : Sending) : Decidable (n.acknowledged r c k) :=
  inferInstanceAs (Decidable (_ ∧ _))

def step (role : Role) (r : Nat) (n : Net) : Label → Option Net
  | .enter c payload =>
    if n.sends c = none then some {n with sends := Function.update n.sends c (some ⟨payload, .entered, [], false⟩)} else none
  | .call c reply => do
    let k ← n.sends c
    if k.progress = .waiting ∧ reply = .done ∧ ¬ n.acknowledged r c k then none
    else (send n.session k k.progress reply).map fun k' => {n with sends := Function.update n.sends c (some k')}
  | .forget => some {n with session := false}
  | .comes c => do
    let k ← n.sends c
    if k.opened ∧ c ∉ n.places then ({n with places := n.places ++ [c]} : Net).hears role (.arrives r .uni) else none
  | .carries c bytes => do
    let k ← n.sends c
    let a ← n.arrived r c
    if c ∈ n.places ∧ a.bytes ++ bytes <+: k.put then n.hears role (.arrives r (.chunk (n.places.idxOf c) bytes)) else none
  | .ends c => do
    let k ← n.sends c
    let a ← n.arrived r c
    if c ∈ n.places ∧ k.fin = true ∧ a.bytes = k.put then n.hears role (.arrives r (.fin (n.places.idxOf c))) else none
  | .breaks c => do
    let k ← n.sends c
    if c ∈ n.places ∧ k.progress = .returned .peerGone ∧ k.fin = false then
      n.hears role (.arrives r (.reset (n.places.idxOf c)))
    else none
  | .peer a => if Signal.aside r a then n.hears role a else none

def init (role : Role) : Net := ⟨FarEnd.init role, true, fun _ => none, []⟩

def Sending.Written (k : Sending) : Prop :=
  match k.progress with
  | .entered | .opening | .negotiating => k.put = [] ∧ k.fin = false
  | .writing rest => k.put ++ rest = Utf8.encode k.payload ∧ k.fin = false
  | .finishing => k.put = Utf8.encode k.payload ∧ k.fin = false
  | .waiting => k.put = Utf8.encode k.payload ∧ k.fin = true
  | .returned status => (k.fin = true → k.put = Utf8.encode k.payload) ∧ (status = .ok → k.fin = true)

structure Fits (k : Sending) (a : Arriving) : Prop where
  opened : k.opened = true
  bytes : a.bytes <+: k.put
  fin : a.tail = .fin → k.fin = true ∧ a.bytes = k.put

structure Carried (role : Role) (r : Nat) (n : Net) : Prop where
  ran : n.Ran role
  nodup : n.places.Nodup
  level : (n.peer.lines r).unis.length = n.places.length
  written : ∀ c k, n.sends c = some k → k.Written
  fits : ∀ (i c : Nat) (a : Arriving), n.places[i]? = some c → (n.peer.lines r).unis[i]? = some a →
    ∃ k, n.sends c = some k ∧ Fits k a
  acked : ∀ (c : Nat) (k : Sending), n.sends c = some k → k.progress = .returned .ok →
    ∃ i : Nat, n.places[i]? = some c ∧ (n.peer.lines r).unis[i]? = some ⟨Utf8.encode k.payload, .fin⟩

structure Goes (k k' : Sending) (reply : Reply) : Prop where
  written : k'.Written
  payload : k'.payload = k.payload
  opened : k.opened = true → k'.opened = true
  put : k.put <+: k'.put
  fin : k.fin = true → k'.fin = true ∧ k'.put = k.put
  answers : k'.progress = .returned .ok → k.progress = .waiting ∧ reply = .done ∧ k'.put = k.put

theorem sendGoes {session : Bool} {k k' : Sending} {reply : Reply} (old : k.Written)
    (one : send session k k.progress reply = some k') : Goes k k' reply := by
  obtain ⟨payload, progress, put, fin⟩ := k
  unfold Sending.Written at old
  cases progress with
  | entered =>
    cases reply <;> cases one
    refine ⟨?_, rfl, nofun, List.prefix_refl _, fun was => absurd (old.2.symm.trans was) (by simp), ?_⟩
    · cases session
      · exact ⟨fun was => absurd (old.2.symm.trans was) (by simp), by simp⟩
      · exact old
    · cases session <;> simp [Sending.to]
  | opening =>
    cases reply <;> cases one
    · exact ⟨old, rfl, nofun, List.prefix_refl _, fun was => ⟨was, rfl⟩, by simp [Sending.to]⟩
    · refine ⟨⟨fun was => absurd (old.2.symm.trans was) (by simp), by simp⟩, rfl, nofun, List.prefix_refl _,
        fun was => ⟨was, rfl⟩, by simp [Sending.to]⟩
  | negotiating =>
    cases reply <;> cases one
    · refine ⟨⟨?_, old.2⟩, rfl, fun _ => rfl, List.prefix_refl _, fun was => ⟨was, rfl⟩, by simp [Sending.to]⟩
      show put ++ Utf8.encode payload = Utf8.encode payload
      rw [show put = [] from old.1, List.nil_append]
    · refine ⟨⟨fun was => absurd (old.2.symm.trans was) (by simp), by simp⟩, rfl, fun _ => rfl, List.prefix_refl _,
        fun was => ⟨was, rfl⟩, by simp [Sending.to]⟩
  | writing rest =>
    obtain ⟨whole, open_⟩ := old
    cases reply with
    | go =>
      cases rest <;> cases one
      rw [List.append_nil] at whole
      exact ⟨⟨whole, open_⟩, rfl, fun _ => rfl, List.prefix_refl _, fun was => ⟨was, rfl⟩, by simp [Sending.to]⟩
    | done => cases rest <;> cases one
    | failed =>
      cases rest <;> cases one
      refine ⟨⟨fun was => absurd (open_.symm.trans was) (by simp), by simp⟩, rfl, fun _ => rfl, List.prefix_refl _,
        fun was => ⟨was, rfl⟩, by simp [Sending.to]⟩
    | wrote n =>
      simp only [send] at one
      split at one <;> cases one
      refine ⟨⟨?_, open_⟩, rfl, fun _ => rfl, List.prefix_append _ _, fun was => absurd (open_.symm.trans was) (by simp),
        by simp⟩
      show put ++ rest.take n ++ rest.drop n = _
      rw [List.append_assoc, List.take_append_drop]
      exact whole
  | finishing =>
    cases reply <;> cases one
    exact ⟨⟨old.1, rfl⟩, rfl, fun _ => rfl, List.prefix_refl _, fun _ => ⟨rfl, rfl⟩, by simp⟩
  | waiting =>
    cases reply <;> cases one
    · exact ⟨⟨fun _ => old.1, fun _ => old.2⟩, rfl, fun _ => rfl, List.prefix_refl _, fun was => ⟨was, rfl⟩,
        fun _ => ⟨rfl, rfl, rfl⟩⟩
    · exact ⟨⟨fun _ => old.1, fun bad => by cases bad⟩, rfl, fun _ => rfl, List.prefix_refl _, fun was => ⟨was, rfl⟩,
        by simp [Sending.to]⟩
  | returned status => cases reply <;> cases one

/-! What happens at the peer. -/

theorem amendUnis {l l' : Line} {k : Nat} {f : Arriving → Arriving} (got : l.amend k f = some l') :
    ∃ a, l.unis[k]? = some a ∧ a.tail = .pending ∧ l'.unis = l.unis.set k (f a) := by
  unfold Line.amend at got
  split at got
  · rename_i a here
    split at got <;> cases got
    exact ⟨a, here, by assumption, rfl⟩
  · cases got

theorem receiveOf {l l' : Line} {news : News} {after : Option Line} (got : l.receive news = some l')
    (same : l.receive news = if l.ended = none then after else none) : after = some l' := by
  rw [same] at got
  split at got
  · exact got
  · cases got

section Steps
variable {role : Role} {r : Nat} {n m : Net}

theorem arrivesLine {w v : Wired} {news : News} (one : w.step role (.arrives r news) = some v) :
    (w.lines r).receive news = some (v.lines r) := by
  obtain ⟨l, got, rfl⟩ := Option.map_eq_some_iff.mp one
  rw [got]
  simp

theorem asideUnis {w v : Wired} {a : Signal} (aside : Signal.aside r a = true) (one : w.step role a = some v) :
    (v.lines r).unis = (w.lines r).unis := by
  cases wiredMoves one with
  | @arrives q news l got =>
    by_cases same : q = r
    · subst same
      simp only [Function.update_self]
      unfold Line.receive at got
      split at got
      · cases news <;> first | (cases got; rfl) | simp [Signal.aside] at aside
      · cases got
    · simp only [Function.update_of_ne (Ne.symm same)]
  | @turns q turn se loop input loop' e l here gives ran =>
    by_cases same : q = r
    · subst same
      simp only [Function.update_self]
      cases loop with
      | selecting => exact (selectGives gives).1
      | readingUni buffer =>
        obtain ⟨x, -, done⟩ := Option.map_eq_some_iff.mp gives
        cases done
        rfl
      | registering | announcing | spawning => cases turn <;> cases gives; rfl
    · simp only [Function.update_of_ne (Ne.symm same)]
  | @ends q turn se reason l here gives =>
    by_cases same : q = r
    · subst same
      simp only [Function.update_self]
      exact (selectGives gives).1
    · simp only [Function.update_of_ne (Ne.symm same)]
  | moves => rfl

theorem carriedInit (role : Role) (r : Nat) : Carried role r (init role) where
  ran := rfl
  nodup := List.nodup_nil
  level := rfl
  written := by simp [init]
  fits := by simp [init]
  acked := by simp [init]

theorem carriedAmend {c : Nat} {k : Sending} {news : News} {f : Arriving → Arriving} (old : Carried role r n)
    (sent : n.sends c = some k) (place : c ∈ n.places) (one : n.hears role (.arrives r news) = some m)
    (amends : ∀ l l' : Line, l.receive news = some l' → l.amend (n.places.idxOf c) f = some l')
    (fits : ∀ a, n.arrived r c = some a → a.tail = .pending → Fits k a → Fits k (f a)) : Carried role r m := by
  obtain ⟨f, heard, rfl⟩ := Option.map_eq_some_iff.mp one
  obtain ⟨ran, step⟩ := hearsRun old.ran heard
  obtain ⟨a, here, pending, unis⟩ := amendUnis (amends _ _ (arrivesLine step))
  refine ⟨ran, old.nodup, by rw [unis, List.length_set, old.level], old.written, fun i d b there arrived => ?_,
    fun d k' sent' answered => ?_⟩
  · rw [unis] at arrived
    by_cases same : i = n.places.idxOf c
    · subst same
      have inside := (List.getElem?_eq_some_iff.mp here).1
      rw [List.getElem?_set_self inside] at arrived
      cases arrived
      have mine : n.places[n.places.idxOf c]? = some c := List.getElem?_idxOf place
      cases mine.symm.trans there
      obtain ⟨k', sent', before⟩ := old.fits _ _ _ mine here
      cases sent.symm.trans sent'
      exact ⟨k, sent, fits a here pending before⟩
    · rw [List.getElem?_set_ne (Ne.symm same)] at arrived
      exact old.fits i d b there arrived
  · obtain ⟨i, there, arrived⟩ := old.acked d k' sent' answered
    refine ⟨i, there, ?_⟩
    have apart : n.places.idxOf c ≠ i := by
      rintro rfl
      cases here.symm.trans arrived
      cases pending
    rw [unis, List.getElem?_set_ne apart]
    exact arrived

theorem carriedCall {c : Nat} {k k' : Sending} {reply : Reply} (old : Carried role r n) (sent : n.sends c = some k)
    (acknowledged : k.progress = .waiting → reply = .done → n.acknowledged r c k)
    (one : send n.session k k.progress reply = some k') :
    Carried role r {n with sends := Function.update n.sends c (some k')} := by
  have goes := sendGoes (old.written c k sent) one
  refine ⟨old.ran, old.nodup, old.level, fun d j there => ?_, fun i d a place arrived => ?_, fun d j there answered => ?_⟩
  · dsimp only at there
    by_cases same : d = c
    · subst same
      rw [Function.update_self] at there
      cases there
      exact goes.written
    · rw [Function.update_of_ne same] at there
      exact old.written d j there
  · obtain ⟨j, there, opened, bytes, fin⟩ := old.fits i d a place arrived
    dsimp only
    by_cases same : d = c
    · subst same
      cases sent.symm.trans there
      refine ⟨k', Function.update_self .., goes.opened opened, bytes.trans goes.put, fun whole => ?_⟩
      obtain ⟨finished, all⟩ := fin whole
      obtain ⟨still, same⟩ := goes.fin finished
      exact ⟨still, all.trans same.symm⟩
    · exact ⟨j, (Function.update_of_ne same ..).trans there, opened, bytes, fin⟩
  · dsimp only at there ⊢
    by_cases same : d = c
    · subst same
      rw [Function.update_self] at there
      cases there
      obtain ⟨waiting, done, put⟩ := goes.answers answered
      obtain ⟨place, arrived⟩ := acknowledged waiting done
      have whole := old.written d k sent
      rw [Sending.Written, waiting] at whole
      refine ⟨n.places.idxOf d, List.getElem?_idxOf place, ?_⟩
      rw [goes.payload, ← whole.1]
      exact arrived
    · rw [Function.update_of_ne same] at there
      exact old.acked d j there answered

theorem carriedComes {c : Nat} {k : Sending} (old : Carried role r n) (sent : n.sends c = some k) (opened : k.opened = true)
    (new : c ∉ n.places) (one : ({n with places := n.places ++ [c]} : Net).hears role (.arrives r .uni) = some m) :
    Carried role r m := by
  obtain ⟨f, heard, rfl⟩ := Option.map_eq_some_iff.mp one
  obtain ⟨ran, step⟩ := hearsRun old.ran heard
  have unis : (f.peer.lines r).unis = (n.peer.lines r).unis ++ [⟨[], .pending⟩] := by
    rw [← Option.some.inj (receiveOf (arrivesLine step) rfl)]
  refine ⟨ran, ?_, by rw [unis, List.length_append, List.length_append, old.level]; rfl, old.written,
    fun i d a there arrived => ?_, fun d j sent' answered => ?_⟩
  · exact List.nodup_append.mpr ⟨old.nodup, by simp, fun a before b last => by
      cases List.mem_singleton.mp last
      rintro rfl
      exact new before⟩
  · rw [unis] at arrived
    by_cases before : i < n.places.length
    · rw [List.getElem?_append_left before] at there
      rw [List.getElem?_append_left (old.level.symm ▸ before)] at arrived
      exact old.fits i d a there arrived
    · rw [List.getElem?_append_right (by omega)] at there
      rw [List.getElem?_append_right (by rw [old.level]; omega), old.level] at arrived
      cases last : i - n.places.length with
      | zero =>
        rw [last] at there arrived
        cases there
        cases arrived
        exact ⟨k, sent, opened, List.nil_prefix, nofun⟩
      | succ j =>
        rw [last] at there
        cases there
  · obtain ⟨i, there, arrived⟩ := old.acked d j sent' answered
    refine ⟨i, ?_, ?_⟩
    · rw [List.getElem?_append_left (List.getElem?_eq_some_iff.mp there).1]
      exact there
    · rw [unis, List.getElem?_append_left (List.getElem?_eq_some_iff.mp arrived).1]
      exact arrived

theorem carriedStep {label : Label} (old : Carried role r n) (one : step role r n label = some m) : Carried role r m := by
  cases label with
  | enter c payload =>
    simp only [step] at one
    split at one <;> cases one
    rename_i free
    have apart {d : Nat} {j : Sending} (there : n.sends d = some j) : d ≠ c := by
      rintro rfl
      cases free.symm.trans there
    refine ⟨old.ran, old.nodup, old.level, fun d j there => ?_, fun i d a place arrived => ?_, fun d j there answered => ?_⟩
    · dsimp only at there
      by_cases same : d = c
      · subst same
        rw [Function.update_self] at there
        cases there
        exact ⟨rfl, rfl⟩
      · rw [Function.update_of_ne same] at there
        exact old.written d j there
    · obtain ⟨j, there, fits⟩ := old.fits i d a place arrived
      exact ⟨j, (Function.update_of_ne (apart there) ..).trans there, fits⟩
    · dsimp only at there
      by_cases same : d = c
      · subst same
        rw [Function.update_self] at there
        cases there
        cases answered
      · rw [Function.update_of_ne same] at there
        exact old.acked d j there answered
  | call c reply =>
    simp only [step, Option.bind_eq_bind, Option.bind_eq_some_iff] at one
    obtain ⟨k, sent, one⟩ := one
    split at one
    · cases one
    · rename_i may
      obtain ⟨k', goes, rfl⟩ := Option.map_eq_some_iff.mp one
      exact carriedCall old sent (fun waiting done => by_contra fun not => may ⟨waiting, done, not⟩) goes
  | forget =>
    cases one
    exact ⟨old.ran, old.nodup, old.level, old.written, old.fits, old.acked⟩
  | comes c =>
    simp only [step, Option.bind_eq_bind, Option.bind_eq_some_iff] at one
    obtain ⟨k, sent, one⟩ := one
    split at one
    · rename_i new
      exact carriedComes old sent new.1 new.2 one
    · cases one
  | carries c bytes =>
    simp only [step, Option.bind_eq_bind, Option.bind_eq_some_iff] at one
    obtain ⟨k, sent, a, arrived, one⟩ := one
    split at one
    · rename_i next
      refine carriedAmend (f := fun a => {a with bytes := a.bytes ++ bytes}) old sent next.1 one
        (fun l l' got => receiveOf got rfl) fun b here pending fits => ?_
      cases arrived.symm.trans here
      exact ⟨fits.opened, next.2, fun whole => by cases pending.symm.trans whole⟩
    · cases one
  | ends c =>
    simp only [step, Option.bind_eq_bind, Option.bind_eq_some_iff] at one
    obtain ⟨k, sent, a, arrived, one⟩ := one
    split at one
    · rename_i next
      refine carriedAmend (f := fun a => {a with tail := .fin}) old sent next.1 one
        (fun l l' got => receiveOf got rfl) fun b here pending fits => ?_
      cases arrived.symm.trans here
      exact ⟨fits.opened, fits.bytes, fun _ => next.2⟩
    · cases one
  | breaks c =>
    simp only [step, Option.bind_eq_bind, Option.bind_eq_some_iff] at one
    obtain ⟨k, sent, one⟩ := one
    split at one
    · rename_i next
      exact carriedAmend (f := fun a => {a with tail := .reset}) old sent next.1 one
        (fun l l' got => receiveOf got rfl) fun b here pending fits => ⟨fits.opened, fits.bytes, nofun⟩
    · cases one
  | peer a =>
    simp only [step] at one
    split at one
    · rename_i aside
      obtain ⟨f, heard, rfl⟩ := Option.map_eq_some_iff.mp one
      obtain ⟨ran, step⟩ := hearsRun old.ran heard
      -- what the tasks of the peer do among themselves brings no stream and no byte of one
      have unis := asideUnis aside step
      exact ⟨ran, old.nodup, by rw [unis, old.level], old.written, by rw [unis]; exact old.fits,
        by rw [unis]; exact old.acked⟩
    · cases one

theorem carriedRun {labels : List Label} (ran : run (step role r) (init role) labels = some n) : Carried role r n :=
  runKeeps (P := Carried role r) (fun _ _ _ old one => carriedStep old one) (carriedInit role r) ran

def Net.payload (n : Net) (c : Nat) : String := ((n.sends c).map Sending.payload).getD ""

def Net.whole (n : Net) (c : Nat) : Prop := ∃ k, n.sends c = some k ∧ k.put = Utf8.encode k.payload ∧ k.fin = true

theorem writtenWhole {k : Sending} (written : k.Written) (fin : k.fin = true) : k.put = Utf8.encode k.payload := by
  unfold Sending.Written at written
  split at written
  · exact absurd (written.2.symm.trans fin) (by simp)
  · exact absurd (written.2.symm.trans fin) (by simp)
  · exact absurd (written.2.symm.trans fin) (by simp)
  · exact absurd (written.2.symm.trans fin) (by simp)
  · exact absurd (written.2.symm.trans fin) (by simp)
  · exact written.1
  · exact written.1 fin

theorem arrivedWhole (carried : Carried role r n) {i c : Nat} {a : Arriving} (place : n.places[i]? = some c)
    (here : (n.peer.lines r).unis[i]? = some a) (fin : a.tail = .fin) : a.whole = some (n.payload c) ∧ n.whole c := by
  obtain ⟨k, sent, fits⟩ := carried.fits i c a place here
  obtain ⟨ended, all⟩ := fits.fin fin
  have put := writtenWhole (carried.written c k sent) ended
  refine ⟨?_, k, sent, put, ended⟩
  rw [Arriving.whole, if_pos fin, all, put, Utf8.decodeEncode, Net.payload, sent]
  rfl

theorem textsReported (carried : Carried role r n) (id : SessionId) (m : Nat) (inside : m ≤ (n.peer.lines r).unis.length) :
    ∃ reported : List Nat, reported.Sublist (n.places.take m) ∧
      texts id ((n.peer.lines r).unis.take m) = reported.map (fun c => (id, n.payload c)) ∧ (∀ c ∈ reported, n.whole c) ∧
      ∀ (i c : Nat) (a : Arriving), i < m → n.places[i]? = some c → (n.peer.lines r).unis[i]? = some a → a.tail = .fin →
        c ∈ reported := by
  induction m with
  | zero => exact ⟨[], by simp, by simp [texts], by simp, by simp⟩
  | succ m ih =>
    obtain ⟨reported, order, said, whole, all⟩ := ih (by omega)
    obtain ⟨a, here⟩ : ∃ a, (n.peer.lines r).unis[m]? = some a := ⟨_, List.getElem?_eq_getElem (by omega)⟩
    obtain ⟨c, place⟩ : ∃ c, n.places[m]? = some c := ⟨_, List.getElem?_eq_getElem (by rw [← carried.level]; omega)⟩
    have taken : n.places.take (m + 1) = n.places.take m ++ [c] := by rw [List.take_add_one, place]; rfl
    rw [takeNext here, taken]
    by_cases fin : a.tail = .fin
    · obtain ⟨text, done⟩ := arrivedWhole carried place here fin
      refine ⟨reported ++ [c], order.append (.refl _), ?_, fun d member => ?_, fun i d b less at_ there ended => ?_⟩
      · rw [said, text, List.map_append]
        rfl
      · rcases List.mem_append.mp member with before | last
        · exact whole d before
        · cases List.mem_singleton.mp last
          exact done
      · rcases Nat.lt_succ_iff_lt_or_eq.mp less with before | rfl
        · exact List.mem_append_left _ (all i d b before at_ there ended)
        · cases place.symm.trans at_
          simp
    · have nothing : a.whole = none := if_neg fin
      refine ⟨reported, order.trans (List.sublist_append_left _ _), ?_, whole, fun i d b less at_ there ended => ?_⟩
      · rw [said, nothing]
        simp
      · rcases Nat.lt_succ_iff_lt_or_eq.mp less with before | rfl
        · exact all i d b before at_ there ended
        · cases here.symm.trans there
          exact absurd ended fin

theorem messagesWhole {labels : List Label} (ran : run (step role r) (init role) labels = some n) :
    ∃ (id : SessionId) (reported : List Nat), reported.Sublist n.places ∧ reported.Nodup ∧
      messages role r n.signals = reported.map (fun c => (id, n.payload c)) ∧ (∀ c ∈ reported, n.whole c) ∧
      ∀ p se, n.peer.endpoint.tasks r = some p → p.idle = some se → id = se.id ∧
        ((n.peer.lines r).Drained → ∀ c k, n.sends c = some k → k.progress = .returned .ok → c ∈ reported) := by
  have carried := carriedRun ran
  have nodup {reported : List Nat} {m : Nat} (order : reported.Sublist (n.places.take m)) :
      reported.Sublist n.places ∧ reported.Nodup :=
    have all := order.trans (List.take_sublist _ _)
    ⟨all, carried.nodup.sublist all⟩
  have accounted := accountedRun (r := r) carried.ran
  generalize n.peer.endpoint.tasks r = task at accounted ⊢
  cases accounted with
  | early early taken said =>
    refine ⟨0, [], List.nil_sublist _, List.nodup_nil, said, by simp, fun p se here idle => ?_⟩
    cases (early p here).1.symm.trans idle
  | @reading se buffer m a taken here sofar settled said =>
    obtain ⟨reported, order, texts, whole, -⟩ := textsReported carried se.id m settled.1
    exact ⟨se.id, reported, (nodup order).1, (nodup order).2, said.trans texts, whole,
      fun p se at_ idle => by cases at_; cases idle⟩
  | @idle p se idle settled said ended =>
    obtain ⟨reported, order, texts, whole, all⟩ := textsReported carried se.id _ settled.1
    refine ⟨se.id, reported, (nodup order).1, (nodup order).2, said.trans texts, whole, fun q se' at_ idle' => ?_⟩
    cases at_
    cases idle.symm.trans idle'
    refine ⟨rfl, fun drained c k sent answered => ?_⟩
    obtain ⟨i, place, here⟩ := carried.acked c k sent answered
    refine all i c _ (by_contra fun later => ?_) place here rfl
    -- a stream that is still to be taken has a message, and nothing waits
    have waits : (⟨Utf8.encode k.payload, .fin⟩ : Arriving) ∈ (n.peer.lines r).unis.drop (n.peer.lines r).taken := by
      refine List.mem_of_getElem? (i := i - (n.peer.lines r).taken) ?_
      rw [List.getElem?_drop, Nat.add_sub_cancel' (by omega)]
      exact here
    have message := List.mem_filterMap.mpr ⟨_, waits, (arrivedWhole carried place here rfl).1⟩
    rw [Line.Drained] at drained
    rw [drained] at message
    cases message

end Steps
def overtaking : List Label :=
  sessionServed.map .peer ++
    [.enter 0 "a", .enter 1 "b", .call 0 .go, .call 1 .go, .call 0 .done, .call 1 .done, .call 1 .done, .call 0 .done,
      .call 1 (.wrote 1), .comes 1, .comes 0, .carries 1 [98], .call 0 (.wrote 1), .call 1 .go, .call 1 .go, .ends 1,
      .call 1 .done, .peer (.serves 0 .uni), .peer (.serves 0 (.read 1)), .peer (.serves 0 .finish), .call 0 .go,
      .call 0 .go, .carries 0 [97], .ends 0, .call 0 .failed, .peer (.serves 0 .uni), .peer (.serves 0 (.read 1)),
      .peer (.serves 0 .finish)]

theorem messagesWholeOvertaking : ∃ n, run (step (.server "/rk") 0) (init (.server "/rk")) overtaking = some n ∧
    messages (.server "/rk") 0 n.signals = [(1, "b"), (1, "a")] ∧
    ∃ (id : SessionId) (reported : List Nat), 1 ∈ reported ∧
      messages (.server "/rk") 0 n.signals = reported.map fun c => (id, n.payload c) := by
  obtain ⟨n, ran⟩ : ∃ n, run (step (.server "/rk") 0) (init (.server "/rk")) overtaking = some n :=
    Option.isSome_iff_exists.mp (by decide +kernel)
  have said : (run (step (.server "/rk") 0) (init (.server "/rk")) overtaking).map
      (fun n => messages (.server "/rk") 0 n.signals) = some [(1, "b"), (1, "a")] := by decide +kernel
  have sent : (run (step (.server "/rk") 0) (init (.server "/rk")) overtaking).map (fun n => n.sends 1) =
      some (some ⟨"b", .returned .ok, [98], true⟩) := by decide +kernel
  have task : (run (step (.server "/rk") 0) (init (.server "/rk")) overtaking).map (fun n => n.peer.endpoint.tasks 0) =
      some (some (.serving ⟨1, "till", "/rk"⟩ .selecting)) := by decide +kernel
  have line : (run (step (.server "/rk") 0) (init (.server "/rk")) overtaking).map
      (fun n => ((n.peer.lines 0).unis.drop (n.peer.lines 0).taken).filterMap Arriving.whole) = some [] := by decide +kernel
  rw [ran] at said sent task line
  obtain ⟨id, reported, -, -, messages, -, idle⟩ := messagesWhole ran
  have there := (idle _ ⟨1, "till", "/rk"⟩ (Option.some.inj task) rfl).2 (Option.some.inj line) 1 _ (Option.some.inj sent) rfl
  exact ⟨n, ran, Option.some.inj said, id, reported, there, messages⟩

end RkQuic.Messages
