import RkQuic.StreamEnds

/-! Writers that race a close. A writer that finds the stream in the map may get its lock only
after `stream_close` has finished the stream; its write then fails like one to a peer that is
gone. -/
namespace RkQuic.Endpoint
open Runs Naming

/-- The peer neither stops nor resets the stream and its connection stays up: a write to it
fails only once it is finished. -/
def Steady (key : SessionId × StreamId) (s : State) (a : Label) : Prop :=
  ∀ c payload x rest sent, a = .call c .failed →
    s.calls c = some ⟨.streamSend key.1 key.2 payload, .writing x rest, sent⟩ → (s.exchanges x).fin = true

/-- If the step gives `c` its turn to write, the stream is not finished, or there is nothing to write. -/
def InTime (c : Nat) (s : State) (a : Label) : Prop :=
  ∀ id t payload x sent, a = .call c .go → s.calls c = some ⟨.streamSend id t payload, .waiting x, sent⟩ →
    (s.exchanges x).fin = true → payload = ""

structure PutBeforeEnd (role : Role) (labels : List Label) (s : State) (c : Nat) (payload : String) (x : Nat) : Prop where
  turn : c ∈ (s.exchanges x).turns
  whole : s.sent c = Utf8.encode payload
  bytes : (s.exchanges x).bytes = (s.exchanges x).turns.flatMap s.sent
  before : ∀ sofar later u, labels = sofar ++ later → run (step role) (init role) sofar = some u →
    (u.exchanges x).fin = true → (u.exchanges x).bytes = (s.exchanges x).bytes

inductive Fared (s : State) (prompt : Prop) : Call → Prop where
  | early {m p sent} (early : p = .entered ∨ ∃ x, p = .waiting x) (intime : prompt) : Fared s prompt ⟨m, p, sent⟩
  | writing {m x rest sent} (open_ : (s.exchanges x).fin = false) (intime : prompt) :
      Fared s prompt ⟨m, .writing x rest, sent⟩
  | late {id t payload x rest sent} (fin : (s.exchanges x).fin = true) (all : rest = Utf8.encode payload)
      (intime : prompt ↔ payload = "") : Fared s prompt ⟨.streamSend id t payload, .writing x rest, sent⟩
  | written {m sent} (intime : prompt) : Fared s prompt ⟨m, .returned (.status .ok), sent⟩
  | unknown {m sent} (intime : prompt) : Fared s prompt ⟨m, .returned (.status .unknownHandle), sent⟩
  | blamed {m sent} (late : ¬ prompt) : Fared s prompt ⟨m, .returned (.status .peerGone), sent⟩

theorem finHeld {role s a t} (move : Move role s a t) (keyed : Keyed s) (locks : Locks s) {c x : Nat}
    (holds : (s.calls c).bind Call.owns = some x) (other : ∀ reply, a ≠ .call c reply) :
    (t.exchanges x).fin = (s.exchanges x).fin := by
  by_cases calls : ∃ d reply, a = .call d reply
  · obtain ⟨d, reply, rfl⟩ := calls
    cases move with
    | @call _ _ k k' e here step =>
      obtain ⟨-, fin, -⟩ := halfFields (halfAfter keyed.beyond e x)
      refine fin.trans ?_
      rcases onFinish x e (s.exchanges x) with same | rfl
      · exact same
      · obtain ⟨-, owns, -⟩ := callFinishes step
        have mine := (locks x c).mpr holds
        have theirs := (locks x d).mpr ((congrArg (Option.bind · Call.owns) here).trans owns)
        cases mine.symm.trans theirs
        exact absurd rfl (other reply)
  · exact (halfFields ((asideHalf move keyed fun d reply h => calls ⟨d, reply, h⟩).1 x)).2.1

theorem encodeNone {payload : String} : Utf8.encode payload = [] ↔ payload = "" :=
  ⟨fun nothing => Utf8.encodeInjective (nothing.trans Utf8.encodeEmpty.symm), fun h => h ▸ Utf8.encodeEmpty⟩

theorem faresOwn {s : State} {c : Nat} {reply : Reply} {k k' : Call} {e : Effect} {prompt : Prop}
    {key : SessionId × StreamId} {payload : String} (beyond : ∀ x, s.fresh ≤ x → s.exchanges x = .opened 0 0)
    (here : s.calls c = some k) (mine : k.method = .streamSend key.1 key.2 payload) (step : CallMove s c k reply k' e)
    (steady : Steady key s (.call c reply)) (fared : Fared s prompt k) :
    Fared {s.apply e with calls := Function.update s.calls c (some k')} (prompt ∧ InTime c s (.call c reply)) k' := by
  have vacuous : (∀ x, k.progress ≠ .waiting x) → prompt → prompt ∧ InTime c s (.call c reply) := by
    rintro elsewhere intime
    refine ⟨intime, fun id t payload x sent _ there => ?_⟩
    cases here.symm.trans there
    exact absurd rfl (elsewhere x)
  have fin : ∀ x, ((s.apply e).exchanges x).fin = (e.on x (s.exchanges x)).fin :=
    fun x => (halfFields (halfAfter beyond e x)).2.1
  cases step with
  | writeUnknown absent =>
    cases fared with
    | early _ intime => exact .unknown (vacuous (by simp) intime)
  | writeFound found =>
    cases fared with
    | early _ intime => exact .early (.inr ⟨_, rfl⟩) (vacuous (by simp) intime)
  | @writeLock id t payload sent x free =>
    cases fared with
    | early _ intime =>
      cases over_ : (s.exchanges x).fin with
      | false =>
        refine .writing ((fin x).trans (by simp [Effect.on, over_])) ⟨intime, fun id t payload y sent _ there late => ?_⟩
        cases here.symm.trans there
        rw [over_] at late
        cases late
      | true =>
        refine .late ((fin x).trans (by simp [Effect.on, over_])) rfl ⟨fun h => h.2 id t payload x sent rfl here over_, ?_⟩
        rintro rfl
        refine ⟨intime, fun id t payload y sent _ there _ => ?_⟩
        cases here.symm.trans there
        rfl
  | @wrote id t payload sent x rest n some_ left open_ sound =>
    cases fared with
    | early early => simp at early
    | writing _ intime => exact .writing ((fin x).trans (by simp [Effect.on, open_])) (vacuous (by simp) intime)
    | late over_ => rw [open_] at over_; cases over_
  | writeDone =>
    cases fared with
    | early early => simp at early
    | writing _ intime => exact .written (vacuous (by simp) intime)
    | late _ all intime => exact .written (vacuous (by simp) (intime.mpr (encodeNone.mp all.symm)))
  | @writeFailed id t payload sent x rest left =>
    cases mine
    have over_ := steady c payload x rest sent rfl here
    cases fared with
    | early early => simp at early
    | writing open_ => rw [open_] at over_; cases over_
    | late _ all intime => exact .blamed fun h => left (all.trans (encodeNone.mpr (intime.mp h.1)))
  | _ => cases mine

theorem faresElse {role s a t c k} {prompt prompt' : Prop} (move : Move role s a t) (keyed : Keyed s) (locks : Locks s)
    (here : s.calls c = some k) (other : ∀ reply, a ≠ .call c reply) (same : prompt' ↔ prompt)
    (sending : ∃ id u payload, k.method = .streamSend id u payload) (fared : Fared s prompt k) : Fared t prompt' k := by
  cases fared with
  | early early intime => exact .early early (same.mpr intime)
  | @writing m x rest sent open_ intime =>
    obtain ⟨id, u, payload, rfl⟩ := sending
    have holds : (s.calls c).bind Call.owns = some x := by rw [here]; rfl
    exact .writing ((finHeld move keyed locks holds other).trans open_) (same.mpr intime)
  | late over_ all intime => exact .late (finStep move keyed over_).1 all (same.trans intime)
  | written intime => exact .written (same.mpr intime)
  | unknown intime => exact .unknown (same.mpr intime)
  | blamed late => exact .blamed fun intime => late (same.mp intime)

theorem faredRun {role : Role} {labels : List Label} {s : State} (key : SessionId × StreamId) (c : Nat)
    (ran : run (step role) (init role) labels = some s) (steady : Along (step role) (Steady key) (init role) labels) :
    (s.calls c = none → Along (step role) (InTime c) (init role) labels) ∧
      ∀ k payload, s.calls c = some k → k.method = .streamSend key.1 key.2 payload →
        Fared s (Along (step role) (InTime c) (init role) labels) k := by
  refine runHistory (P := fun as s => Along (step role) (Steady key) (init role) as →
      (s.calls c = none → Along (step role) (InTime c) (init role) as) ∧
      ∀ k payload, s.calls c = some k → k.method = .streamSend key.1 key.2 payload →
        Fared s (Along (step role) (InTime c) (init role) as) k) (fun _ => ⟨fun _ => trivial, fun k payload here => ?_⟩)
    (fun as u a v before old one met => ?_) ran steady
  · cases role <;> cases here
  · obtain ⟨met, last, -⟩ := (alongAppend before).mp met
    obtain ⟨free, going⟩ := old met
    have more : Along (step role) (InTime c) (init role) (as ++ [a]) ↔
        Along (step role) (InTime c) (init role) as ∧ InTime c u a := by
      rw [alongAppend before]
      simp [Along]
    -- `InTime c` is about the steps of `c` alone
    have aside : (∀ reply, a ≠ .call c reply) →
        (Along (step role) (InTime c) (init role) (as ++ [a]) ↔ Along (step role) (InTime c) (init role) as) := by
      intro other
      rw [more, and_iff_left]
      intro id t payload x sent same
      exact absurd same (other .go)
    by_cases mine : ∃ reply, a = .call c reply
    · obtain ⟨reply, rfl⟩ := mine
      cases moves one with
      | @call _ _ k k' e here step =>
        refine ⟨fun none_ => ?_, fun k1 payload there method => ?_⟩
        · simp at none_
        · cases Option.some.inj ((Function.update_self c (some k') u.calls).symm.trans there)
          have method : k.method = .streamSend key.1 key.2 payload := (callKeeps step).2.2.2.2.symm.trans method
          rw [more]
          exact faresOwn (keyedRun before).beyond here method step last (going k payload here method)
    · have other : ∀ reply, a ≠ .call c reply := fun reply same => mine ⟨reply, same⟩
      have stays : v.calls c = u.calls c ∨ (u.calls c = none ∧ ∃ method, v.calls c = some ⟨method, .entered, []⟩) := by
        cases moves one with
        | @call d reply k k' e here step =>
          have apart : c ≠ d := by rintro rfl; exact other reply rfl
          exact .inl (Function.update_of_ne apart ..)
        | incoming server unused => exact .inl rfl
        | task here step => exact .inl (by simp)
        | reader step => exact .inl (by rw [(readerKeeps (s := u) step).2.2.2.2.2])
        | @enter d method unused =>
          by_cases same : c = d
          · subst same
            exact .inr ⟨unused, method, Function.update_self ..⟩
          · exact .inl (Function.update_of_ne same ..)
      rcases stays with same | ⟨none_, method, new⟩
      · rw [same]
        refine ⟨fun none_ => (aside other).mpr (free none_), fun k payload here method => ?_⟩
        exact faresElse (moves one) (keyedRun before) (writingRun before).locks here other (aside other)
          ⟨_, _, _, method⟩ (going k payload here method)
      · refine ⟨fun h => ?_, fun k payload here method => ?_⟩
        · rw [new] at h; cases h
        · cases Option.some.inj (new.symm.trans here)
          exact .early (.inl rfl) ((aside other).mpr (free none_))

theorem writtenBefore {role : Role} {labels : List Label} {s : State} {key : SessionId × StreamId} {c : Nat}
    {payload : String} {sent : Bytes} (ran : run (step role) (init role) labels = some s)
    (here : s.calls c = some ⟨.streamSend key.1 key.2 payload, .returned (.status .ok), sent⟩) :
    ∃ x, (s.exchanges x).key = key ∧ PutBeforeEnd role labels s c payload x := by
  have turns := turnsRun ran
  obtain ⟨x, mine⟩ := turns.served c _ here trivial
  have framed := (writingRun ran).framed x
  obtain ⟨-, k, there, target⟩ := turns.own x c mine
  cases Option.some.inj (here.symm.trans there)
  obtain ⟨k, there, turn⟩ := framed.turns c mine
  cases Option.some.inj (here.symm.trans there)
  refine ⟨x, (Option.some.inj target).symm, mine, ?_, framed.bytes, ?_⟩
  · rw [State.sent, here]
    cases turn with
    | whole => rfl
  · rintro sofar later u rfl reached fin
    obtain ⟨u', reached', rest⟩ := runAppend.mp ran
    cases reached.symm.trans reached'
    have kept := runContinues (P := fun v => (v.exchanges x).fin = true ∧ (v.exchanges x).bytes = (u.exchanges x).bytes)
      (fun as v a z before old one => ?_) reached ⟨fin, rfl⟩ rest
    · exact kept.2.symm
    · obtain ⟨over_, same⟩ := finStep (moves one) (keyedRun before) old.1
      exact ⟨over_, same.trans old.2⟩

theorem writeNotBlamed {role : Role} {labels : List Label} {s : State} {key : SessionId × StreamId} {c : Nat}
    {payload : String} {answer : Answer} {sent : Bytes} (ran : run (step role) (init role) labels = some s)
    (steady : Along (step role) (Steady key) (init role) labels)
    (here : s.calls c = some ⟨.streamSend key.1 key.2 payload, .returned answer, sent⟩) :
    (answer = .status .ok ∧ ∃ x, (s.exchanges x).key = key ∧ PutBeforeEnd role labels s c payload x) ∨
        answer = .status .unknownHandle ↔ Along (step role) (InTime c) (init role) labels := by
  have fared := (faredRun key c ran steady).2 _ payload here rfl
  cases fared with
  | early early => simp at early
  | written intime => exact iff_of_true (.inl ⟨rfl, writtenBefore ran here⟩) intime
  | unknown intime => exact iff_of_true (.inr rfl) intime
  | blamed late => exact iff_of_false (by simp) late

def closedInBetween : List Label :=
  [.incoming 0, .task 0 (.requested "till" "/rk"), .task 0 .accepted, .task 0 .go, .task 0 .go, .task 0 .go,
    .task 0 (.bi 4), .task 0 .go, .task 0 .go, .task 0 .go, .enter 0 (.streamSend 1 4 "total: 12"), .call 0 .go,
    .enter 1 (.streamClose 1 4), .call 1 .go, .call 1 .go, .call 1 .go, .call 1 .done, .call 0 .go, .call 0 .failed]

def closedAfterwards : List Label :=
  [.incoming 0, .task 0 (.requested "till" "/rk"), .task 0 .accepted, .task 0 .go, .task 0 .go, .task 0 .go,
    .task 0 (.bi 4), .task 0 .go, .task 0 .go, .task 0 .go, .enter 0 (.streamSend 1 4 "total: 12"), .call 0 .go,
    .enter 1 (.streamClose 1 4), .call 1 .go, .call 0 .go, .call 0 (.wrote 9), .call 0 .go, .call 1 .go, .call 1 .go,
    .call 1 .done]

def failsFinished (s : State) : Label → Bool
  | .call c .failed =>
    match s.calls c with
    | some ⟨.streamSend _ _ _, .writing x _, _⟩ => (s.exchanges x).fin
    | _ => true
  | _ => true

theorem steadyChecked {role : Role} {labels : List Label} (key : SessionId × StreamId)
    (checked : checks (step role) failsFinished (init role) labels = true) :
    Along (step role) (Steady key) (init role) labels := by
  refine alongChecks (fun s a checked => ?_) checked
  rintro c payload x rest sent rfl here
  simpa [failsFinished, here] using checked

theorem blamedOnPeer : ∃ s sent, run (step (.server "/rk")) (init (.server "/rk")) closedInBetween = some s ∧
    Along (step (.server "/rk")) (Steady (1, 4)) (init (.server "/rk")) closedInBetween ∧
    s.calls 0 = some ⟨.streamSend 1 4 "total: 12", .returned (.status .peerGone), sent⟩ ∧
    s.calls 1 = some ⟨.streamClose 1 4, .returned (.status .ok), []⟩ := by
  have seen : (run (step (.server "/rk")) (init (.server "/rk")) closedInBetween).map
      (fun s => (s.calls 0, s.calls 1)) =
      some (some ⟨.streamSend 1 4 "total: 12", .returned (.status .peerGone), []⟩,
        some ⟨.streamClose 1 4, .returned (.status .ok), []⟩) := by decide
  obtain ⟨s, ran, same⟩ := Option.map_eq_some_iff.mp seen
  obtain ⟨blamed, closed⟩ := Prod.mk.inj same
  exact ⟨s, [], ran, steadyChecked (1, 4) (by decide), blamed, closed⟩

def turnsOpen (c : Nat) (s : State) : Label → Bool
  | .call d .go =>
    match s.calls d with
    | some ⟨.streamSend _ _ payload, .waiting x, _⟩ => d ≠ c || !(s.exchanges x).fin || payload = ""
    | _ => true
  | _ => true

theorem writeNotBlamedFirst : ∃ s sent, run (step (.server "/rk")) (init (.server "/rk")) closedAfterwards = some s ∧
    s.calls 0 = some ⟨.streamSend 1 4 "total: 12", .returned (.status .ok), sent⟩ ∧
    ∃ x, (s.exchanges x).key = (1, 4) ∧ PutBeforeEnd (.server "/rk") closedAfterwards s 0 "total: 12" x := by
  have seen : (run (step (.server "/rk")) (init (.server "/rk")) closedAfterwards).map (fun s => s.calls 0) =
      some (some ⟨.streamSend 1 4 "total: 12", .returned (.status .ok), Utf8.encode "total: 12"⟩) := by decide
  obtain ⟨s, ran, here⟩ := Option.map_eq_some_iff.mp seen
  have steady : Along (step (.server "/rk")) (Steady (1, 4)) (init (.server "/rk")) closedAfterwards :=
    steadyChecked (1, 4) (by decide)
  have prompt : Along (step (.server "/rk")) (InTime 0) (init (.server "/rk")) closedAfterwards := by
    have checked : checks (step (.server "/rk")) (turnsOpen 0) (init (.server "/rk")) closedAfterwards = true := by decide
    refine alongChecks (fun s a checked => ?_) checked
    rintro id t payload x sent rfl here fin
    simpa [turnsOpen, here, fin] using checked
  have written := (writeNotBlamed ran steady here).mpr prompt
  rcases written with ⟨-, put⟩ | unknown
  · exact ⟨s, _, ran, here, put⟩
  · cases unknown

end RkQuic.Endpoint
