import RkQuic.Arrivals
import RkQuic.Streams

/-! The unreliable road of `Endpoint::send`, from the calls of one endpoint to the events of the
other. The layer below may lose a datagram and may let one overtake another, and carries none
twice. -/
namespace RkQuic.Datagrams
open Endpoint Runs

/-- `handed` are the calls that have handed a datagram to the connection, and `places` the ones whose
datagrams have come to the peer, as they came, with what was in them. Both are history. -/
structure Net extends FarEnd where
  sender : State
  handed : List Nat
  places : List (Nat × String)

inductive Label where
  | sends (a : Endpoint.Label)
  | comes (c : Nat)
  | peer (a : Signal)

def payload (k : Call) : Option String :=
  match k.method with
  | .send _ payload false => some payload
  | _ => none

def hands (q : Nat) (s : State) : Endpoint.Label → List Nat
  | .call c .done =>
    match s.calls c with
    | some k => if k.progress = .sending q ∧ payload k ≠ none then [c] else []
    | none => []
  | _ => []

def Net.hears (role : Role) (n : Net) (a : Signal) : Option Net :=
  (n.toFarEnd.hears role a).map fun f => {n with toFarEnd := f}

def aside (r : Nat) : Signal → Bool
  | .arrives q (.datagram _) => q ≠ r
  | _ => true

/- `q` is the connection at the sender, and `r` the task of its session at the peer. -/
def step (sends role : Role) (q r : Nat) (n : Net) : Label → Option Net
  | .sends a => (Endpoint.step sends n.sender a).map fun s => {n with sender := s, handed := n.handed ++ hands q n.sender a}
  | .comes c => do
    let text ← (n.sender.calls c).bind payload
    if c ∈ n.handed ∧ c ∉ n.places.map Prod.fst then
      ({n with places := n.places ++ [(c, text)]} : Net).hears role (.arrives r (.datagram (Utf8.encode text)))
    else none
  | .peer a => if aside r a then n.hears role a else none

def init (sends role : Role) : Net := ⟨FarEnd.init role, Endpoint.init sends, [], []⟩

def said : Event → Option (SessionId × String)
  | .datagram id text => some (id, text)
  | _ => none

def datagrams (role : Role) (r : Nat) (labels : List Signal) : List (SessionId × String) := reports said role r labels

structure Heeded (k : Nat) (places : List (Nat × String)) (told : List (SessionId × String)) (l : Line) (p : Option Phase) :
    Prop where
  inside : k ≤ places.length
  waiting : l.datagrams = (places.drop k).map fun e => Utf8.encode e.2
  heard : told.map Prod.snd = (places.take k).map Prod.snd
  session : ∀ e ∈ told, ∃ se, p.bind Phase.session = some se ∧ e.1 = se.id

def Heeds (places : List (Nat × String)) (told : List (SessionId × String)) (l : Line) (p : Option Phase) : Prop :=
  ∃ k, Heeded k places told l p

/-! One step of the peer. -/

section Peer
variable {role : Role} {r : Nat} {w v : Wired} {places : List (Nat × String)} {told : List (SessionId × String)}
  {l l' : Line} {p : Option Phase}

theorem heedsSame {p' : Option Phase} (same : l'.datagrams = l.datagrams)
    (old : Heeds places told l p) (session : ∀ se, p.bind Phase.session = some se → p'.bind Phase.session = some se) :
    Heeds places told l' p' := by
  obtain ⟨k, inside, waiting, heard, own⟩ := old
  refine ⟨k, inside, same.trans waiting, heard, fun e member => ?_⟩
  obtain ⟨se, here, named⟩ := own e member
  exact ⟨se, session se here, named⟩

theorem givesDatagram {loop : Loop} {turn : Branch} {input : Input} (gives : l.gives loop turn = some (input, l')) :
    (∃ bytes, loop = .selecting ∧ input = .datagram bytes ∧ l.datagrams = bytes :: l'.datagrams) ∨
      ((∀ bytes, input ≠ .datagram bytes) ∧ l'.datagrams = l.datagrams) := by
  have ends {input : Input} {l' : Line} (h : l.error = some (input, l')) :
      (∀ bytes, input ≠ .datagram bytes) ∧ l'.datagrams = l.datagrams := by
    obtain ⟨reason, -, same⟩ := Option.map_eq_some_iff.mp h
    cases same
    exact ⟨by simp, rfl⟩
  cases loop with
  | selecting =>
    cases turn <;> simp only [Line.gives, Line.select] at gives
    · split at gives
      · cases gives
        exact .inl ⟨_, rfl, rfl, by assumption⟩
      · exact .inr (ends gives)
    · split at gives
      · cases gives
        exact .inr ⟨by simp, rfl⟩
      · exact .inr (ends gives)
    · split at gives
      · cases gives
        exact .inr ⟨by simp, rfl⟩
      · exact .inr (ends gives)
    all_goals cases gives
  | readingUni buffer =>
    obtain ⟨x, read, same⟩ := Option.map_eq_some_iff.mp gives
    cases same
    obtain ⟨a, -, ⟨n, rfl⟩ | ⟨rfl, -⟩ | ⟨rfl, -⟩⟩ := readGives read <;> exact .inr ⟨by simp, rfl⟩
  | registering | announcing | spawning =>
    cases turn <;> cases gives
    exact .inr ⟨by simp, rfl⟩

theorem loopSilent {id : SessionId} {fresh : Nat} {loop loop' : Loop} {input : Input} {e : Effect}
    (ran : sessionLoop id fresh loop input = some (loop', e)) (other : ∀ bytes, input ≠ .datagram bytes) :
    e.picks said = [] := by
  cases loopMoves ran with
  | datagram | skip => exact absurd rfl (other _)
  | _ => rfl

theorem turnHeeds {se : Session} {loop loop' : Loop} {turn : Branch} {input : Input} {fresh : Nat} {e : Effect}
    (old : Heeds places told l (some (.serving se loop))) (gives : l.gives loop turn = some (input, l'))
    (ran : sessionLoop se.id fresh loop input = some (loop', e)) :
    Heeds places (told ++ e.picks said) l' (some (.serving se loop')) := by
  rcases givesDatagram gives with ⟨bytes, rfl, rfl, taken⟩ | ⟨other, same⟩
  · obtain ⟨k, inside, waiting, heard, own⟩ := old
    rw [taken] at waiting
    have less : k < places.length := by
      by_contra all
      rw [List.drop_eq_nil_of_le (by omega)] at waiting
      cases waiting
    rw [List.drop_eq_getElem_cons less, List.map_cons] at waiting
    obtain ⟨rfl, rest⟩ := List.cons.inj waiting
    have reported : e = .emit (.datagram se.id places[k].2) := by
      simp only [sessionLoop, emitText, Utf8.decodeEncode] at ran
      cases ran
      rfl
    subst reported
    refine ⟨k + 1, less, rest, ?_, fun f member => ?_⟩
    · rw [List.take_add_one, List.getElem?_eq_getElem less, List.map_append, List.map_append, heard]
      rfl
    · rcases List.mem_append.mp member with before | last
      · exact own f before
      · cases List.mem_singleton.mp last
        exact ⟨se, rfl, rfl⟩
  · rw [loopSilent ran other, List.append_nil]
    exact heedsSame same old fun _ there => there

theorem sessionStays {next : SessionId} {fresh : Nat} {p p' : Phase} {input : Input} {e : Effect} {se : Session}
    (move : TaskMove role next fresh r p input p' e) (here : p.session = some se) : p'.session = some se := by
  cases move <;> first | exact here | cases here

theorem taskSilent {next : SessionId} {fresh : Nat} {p p' : Phase} {input : Input} {e : Effect}
    (outside : ∀ se loop, p ≠ .serving se loop) (move : TaskMove role next fresh r p input p' e) :
    e.picks said = [] := by
  cases move with
  | serve => exact absurd rfl (outside _ _)
  | _ => rfl

theorem heedsStep {a : Signal} (apart : aside r a = true) (one : w.step role a = some v)
    (old : Heeds places told (w.lines r) (w.endpoint.tasks r)) :
    Heeds places (told ++ (w.report said role r a).toList) (v.lines r) (v.endpoint.tasks r) := by
  -- a step of anyone but the task of `r` that brings no datagram either
  have elsewhere (other : a.ofTask r = false) (line : (v.lines r).datagrams = (w.lines r).datagrams)
      (task : v.endpoint.tasks r = w.endpoint.tasks r) :
      Heeds places (told ++ (w.report said role r a).toList) (v.lines r) (v.endpoint.tasks r) := by
    rw [reportElse other, task]
    simpa using heedsSame line old fun _ there => there
  cases wiredMoves one with
  | @arrives q news l got =>
    refine elsewhere rfl ?_ rfl
    by_cases same : r = q
    · subst same
      simp only [Function.update_self]
      unfold Line.receive at got
      split at got
      · cases news with
        | datagram bytes => simp [aside] at apart
        | uni | bi | close => cases got; rfl
        | chunk | fin | reset =>
          simp only [Line.amend] at got
          split at got
          · split at got <;> cases got
            rfl
          · cases got
      · cases got
    · simp [same]
  | @turns q turn se loop input loop' e l here gives ran =>
    by_cases same : r = q
    · subst same
      rw [here] at old
      rw [reportOwn one (by simp [Signal.ofTask]) (applyEmitted w.endpoint e)]
      simpa using turnHeeds old gives ran
    · exact elsewhere (by simp [Signal.ofTask, Ne.symm same]) (by simp [same]) (by simp [same])
  | @ends q turn se reason l here gives =>
    by_cases same : r = q
    · subst same
      rw [here] at old
      rw [reportOwn (e := .none) one (by simp [Signal.ofTask]) (List.append_nil _).symm]
      rcases givesDatagram gives with ⟨bytes, -, ended, -⟩ | ⟨-, line⟩
      · cases ended
      · have after : Heeds places told l (some (.forgetting se reason)) := heedsSame line old fun _ there => there
        simpa [Effect.picks, Effect.events] using after
    · exact elsewhere (by simp [Signal.ofTask, Ne.symm same]) (by simp [same]) (by simp [same])
  | @moves a s loops move =>
    cases move with
    | @incoming q expected server free =>
      by_cases same : r = q
      · subst same
        rw [reportElse rfl]
        rw [free] at old
        have after : Heeds places told (w.lines r) (some .handshake) := heedsSame rfl old (by simp)
        simpa using after
      · exact elsewhere rfl rfl (by simp [same])
    | @task q input p p' e here step =>
      by_cases same : r = q
      · subst same
        rw [here] at old
        rw [reportOwn one (by simp [Signal.ofTask]) (applyEmitted w.endpoint e)]
        rw [taskSilent (fun se loop same => by simp [State.loops, here, same] at loops) step]
        have after : Heeds places told (w.lines r) (some p') := heedsSame rfl old fun _ there => sessionStays step there
        simpa using after
      · exact elsewhere (by simp [Signal.ofTask, Ne.symm same]) rfl (by simp [same])
    | reader step => exact elsewhere rfl rfl (by rw [(readerKeeps (s := w.endpoint) step).1])
    | enter free => exact elsewhere rfl rfl rfl
    | call here step => exact elsewhere rfl rfl (by simp)

end Peer
/-! One step of a call, and of the layer below. -/

theorem answeredStays {sends : Role} {s t : State} {a : Endpoint.Label} {c : Nat} {k : Call} {x : Answer}
    (one : Endpoint.step sends s a = some t) (here : s.calls c = some k) (answered : k.progress = .returned x) :
    t.calls c = some k := by
  cases moves one with
  | incoming => exact here
  | task => simpa using here
  | reader move => simpa using here
  | @enter d method free =>
    have apart : c ≠ d := by
      rintro rfl
      cases here.symm.trans free
    exact (Function.update_of_ne apart ..).trans here
  | @call d reply j j' e there move =>
    have apart : c ≠ d := by
      rintro rfl
      cases here.symm.trans there
      exact returnedStays move answered
    exact (Function.update_of_ne apart ..).trans here

theorem handsOne {sends : Role} {q : Nat} {s t : State} {a : Endpoint.Label} {c : Nat} (one : Endpoint.step sends s a = some t)
    (hands_ : c ∈ hands q s a) :
    ∃ k, t.calls c = some k ∧ k.progress = .returned (.status .ok) ∧ payload k ≠ none := by
  unfold hands at hands_
  split at hands_
  · rename_i d
    split at hands_
    · rename_i k here
      split at hands_
      · rename_i both
        cases List.mem_singleton.mp hands_
        obtain ⟨sending, unreliable⟩ := both
        cases moves one with
        | @call _ _ j k' e there move =>
          cases here.symm.trans there
          refine ⟨k', Function.update_self .., ?_⟩
          cases move with
          | sendDone => exact ⟨rfl, unreliable⟩
          | _ => cases sending
      · cases hands_
    · cases hands_
  · cases hands_

structure Carried (role : Role) (r : Nat) (n : Net) : Prop where
  once : (n.places.map Prod.fst).Nodup
  handed : ∀ c ∈ n.handed, ∃ k, n.sender.calls c = some k ∧ k.progress = .returned (.status .ok) ∧ payload k ≠ none
  sent : ∀ e ∈ n.places, e.1 ∈ n.handed ∧ (n.sender.calls e.1).bind payload = some e.2
  ran : n.Ran role
  heeds : Heeds n.places (datagrams role r n.signals) (n.peer.lines r) (n.peer.endpoint.tasks r)

section Net
variable {sends role : Role} {q r : Nat} {n m : Net}

theorem carriedInit (sends role : Role) (r : Nat) : Carried role r (init sends role) where
  once := List.nodup_nil
  handed := by simp [init]
  sent := by simp [init]
  ran := rfl
  heeds := ⟨0, Nat.le_refl 0, rfl, rfl, fun _ member => absurd member List.not_mem_nil⟩

theorem carriedSends {a : Endpoint.Label} {s : State} (old : Carried role r n) (one : Endpoint.step sends n.sender a = some s) :
    Carried role r {n with sender := s, handed := n.handed ++ hands q n.sender a} := by
  refine ⟨old.once, fun c member => ?_, fun e member => ?_, old.ran, old.heeds⟩
  · rcases List.mem_append.mp member with before | now
    · obtain ⟨k, here, answered, sent⟩ := old.handed c before
      exact ⟨k, answeredStays one here answered, answered, sent⟩
    · exact handsOne one now
  · obtain ⟨handed, sent⟩ := old.sent e member
    obtain ⟨k, here, answered, -⟩ := old.handed e.1 handed
    refine ⟨List.mem_append_left _ handed, ?_⟩
    dsimp only
    rw [answeredStays one here answered, ← here]
    exact sent

theorem carriedComes {c : Nat} {text : String} (old : Carried role r n) (handed : c ∈ n.handed)
    (sent : (n.sender.calls c).bind payload = some text) (new : c ∉ n.places.map Prod.fst)
    (one : ({n with places := n.places ++ [(c, text)]} : Net).hears role (.arrives r (.datagram (Utf8.encode text))) = some m) :
    Carried role r m := by
  obtain ⟨f, heard, rfl⟩ := Option.map_eq_some_iff.mp one
  obtain ⟨ran, step⟩ := hearsRun old.ran heard
  have silent : datagrams role r f.signals = datagrams role r n.signals := by
    rw [datagrams, hearsReports old.ran heard, reportElse rfl]
    exact List.append_nil _
  refine ⟨?_, old.handed, fun e member => ?_, ran, ?_⟩
  · rw [List.map_append]
    refine List.nodup_append.mpr ⟨old.once, List.nodup_singleton _, fun a before b last => ?_⟩
    cases List.mem_singleton.mp last
    rintro rfl
    exact new before
  · rcases List.mem_append.mp member with before | last
    · exact old.sent e before
    · cases List.mem_singleton.mp last
      exact ⟨handed, sent⟩
  · obtain ⟨k, inside, waiting, heard, own⟩ := old.heeds
    obtain ⟨l, got, moved⟩ := Option.map_eq_some_iff.mp step
    have line : (f.peer.lines r).datagrams = (n.peer.lines r).datagrams ++ [Utf8.encode text] := by
      rw [← moved]
      simp only [Function.update_self]
      unfold Line.receive at got
      split at got <;> cases got
      rfl
    have task : f.peer.endpoint.tasks r = n.peer.endpoint.tasks r := by rw [← moved]
    rw [silent, task]
    refine ⟨k, by rw [List.length_append]; omega, ?_, ?_, own⟩
    · rw [line, waiting, List.drop_append_of_le_length inside, List.map_append]
      rfl
    · rw [List.take_append_of_le_length inside]
      exact heard

theorem carriedStep {label : Label} (old : Carried role r n) (one : step sends role q r n label = some m) : Carried role r m := by
  cases label with
  | sends a =>
    obtain ⟨s, moved, rfl⟩ := Option.map_eq_some_iff.mp one
    exact carriedSends old moved
  | comes c =>
    simp only [step, Option.bind_eq_bind, Option.bind_eq_some_iff] at one
    obtain ⟨text, ⟨k, here, sent⟩, one⟩ := one
    split at one
    · rename_i new
      exact carriedComes old new.1 (Option.bind_eq_some_iff.mpr ⟨k, here, sent⟩) new.2 one
    · cases one
  | peer a =>
    simp only [step] at one
    split at one
    · rename_i apart
      obtain ⟨f, heard, rfl⟩ := Option.map_eq_some_iff.mp one
      obtain ⟨ran, step⟩ := hearsRun old.ran heard
      refine ⟨old.once, old.handed, old.sent, ran, ?_⟩
      rw [datagrams, hearsReports old.ran heard]
      exact heedsStep apart step old.heeds
    · cases one

theorem datagramsOnce {labels : List Label} (ran : run (step sends role q r) (init sends role) labels = some n) :
    ∃ id : SessionId, datagrams role r n.signals =
        (n.places.take (n.places.length - (n.peer.lines r).datagrams.length)).map (fun e => (id, e.2)) ∧
      (∀ se, n.peer.endpoint.sessionOf r = some se → id = se.id) ∧ (n.places.map Prod.fst).Nodup ∧
      ∀ e ∈ n.places, ∃ k, n.sender.calls e.1 = some k ∧ payload k = some e.2 ∧ k.progress = .returned (.status .ok) := by
  have carried : Carried role r n :=
    runKeeps (P := Carried role r) (fun _ _ _ old one => carriedStep old one) (carriedInit sends role r) ran
  obtain ⟨k, inside, waiting, heard, own⟩ := carried.heeds
  have taken : n.places.length - (n.peer.lines r).datagrams.length = k := by
    rw [waiting, List.length_map, List.length_drop]
    omega
  have sent (e : Nat × String) (member : e ∈ n.places) :
      ∃ k, n.sender.calls e.1 = some k ∧ payload k = some e.2 ∧ k.progress = .returned (.status .ok) := by
    obtain ⟨handed, text⟩ := carried.sent e member
    obtain ⟨k, here, answered, -⟩ := carried.handed e.1 handed
    rw [here] at text
    exact ⟨k, here, text, answered⟩
  refine ⟨(n.peer.endpoint.sessionOf r).elim 0 Session.id, ?_, fun se here => by rw [here]; rfl, carried.once, sent⟩
  rw [taken]
  have named : ∀ e ∈ datagrams role r n.signals, e.1 = (n.peer.endpoint.sessionOf r).elim 0 Session.id := by
    intro e member
    obtain ⟨se, here, same⟩ := own e member
    rw [State.sessionOf, here, same]
    rfl
  generalize (n.peer.endpoint.sessionOf r).elim 0 Session.id = id at named
  calc datagrams role r n.signals
      = (datagrams role r n.signals).map (fun e => (id, e.2)) := by
        refine (List.map_id _).symm.trans (List.map_congr_left fun e member => ?_)
        rw [← named e member]
        rfl
    _ = ((datagrams role r n.signals).map Prod.snd).map (Prod.mk id) := by rw [List.map_map]; rfl
    _ = (n.places.take k).map (fun e => (id, e.2)) := by rw [heard, List.map_map]; rfl

end Net

def crossing : List Label :=
  sessionServed.map .peer ++
    [.sends (.enter 0 (.send 7 "a" false)), .sends (.enter 1 (.send 7 "b" false)), .sends (.enter 2 (.send 7 "c" false)),
      .sends (.call 0 .go), .sends (.call 1 .go), .sends (.call 2 .go), .sends (.call 0 .done), .sends (.call 2 .done),
      .sends (.call 1 .done), .comes 1, .peer (.serves 0 .datagram), .comes 0, .peer (.serves 0 .datagram)]

theorem datagramsOnceCrossing : ∃ n, run (step (.client 7 "https://till/rk") (.server "/rk") 0 0)
      (init (.client 7 "https://till/rk") (.server "/rk")) crossing = some n ∧
    datagrams (.server "/rk") 0 n.signals = [(1, "b"), (1, "a")] ∧
    ∃ id : SessionId, datagrams (.server "/rk") 0 n.signals = [(1, "b"), (0, "a")].map (fun e => (id, e.2)) := by
  obtain ⟨n, ran⟩ : ∃ n, run (step (.client 7 "https://till/rk") (.server "/rk") 0 0)
      (init (.client 7 "https://till/rk") (.server "/rk")) crossing = some n := Option.isSome_iff_exists.mp (by decide +kernel)
  have seen : (run (step (.client 7 "https://till/rk") (.server "/rk") 0 0)
      (init (.client 7 "https://till/rk") (.server "/rk")) crossing).map
        (fun n => (datagrams (.server "/rk") 0 n.signals, n.places, (n.peer.lines 0).datagrams)) =
      some ([(1, "b"), (1, "a")], [(1, "b"), (0, "a")], []) := by decide +kernel
  rw [ran] at seen
  obtain ⟨said, places, waiting⟩ : datagrams (.server "/rk") 0 n.signals = [(1, "b"), (1, "a")] ∧
      n.places = [(1, "b"), (0, "a")] ∧ (n.peer.lines 0).datagrams = [] := by simpa using seen
  obtain ⟨id, told, -⟩ := datagramsOnce ran
  rw [waiting, places] at told
  exact ⟨n, ran, said, id, told⟩

end RkQuic.Datagrams
