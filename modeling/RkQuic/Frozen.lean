import RkQuic.Arrivals

/-! What a session can still report of what has arrived, with no more help from its peer.
Bidirectional streams are read by tasks of their own; a unidirectional stream is read inside
the loop, and holds the loop until it ends. -/
namespace RkQuic.Endpoint
open Runs Naming

inductive Item where
  | datagram (i : Nat)
  | uni (k : Nat)
  | bi (i : Nat)
  deriving DecidableEq, Repr

def Line.waits (l : Line) (id : SessionId) : Item → Option Event
  | .datagram i => (l.datagrams[i]?.bind Utf8.decode).map (.datagram id)
  | .uni k => if l.taken ≤ k then (l.unis[k]?.bind Arriving.whole).map (.streamMessage id) else none
  | .bi i => l.bis[i]?.map (.streamOpened id)

def Item.served (l now : Line) : Item → Branch → Prop
  | .datagram i, turn => turn = .datagram ∧ now.datagrams = l.datagrams.drop i
  | .uni k, turn => turn = .finish ∧ now.taken = k + 1
  | .bi i, turn => turn = .go ∧ now.bis = l.bis.drop (i + 1)

def Unaided (r : Nat) (signals : List Signal) : Prop := ∀ a ∈ signals, ∀ news, a ≠ .arrives r news

def Delivered (role : Role) (r : Nat) (w : Wired) (item : Item) (event : Event) : Prop :=
  ∃ signals turn u v, Unaided r signals ∧ run (Wired.step role) w signals = some u ∧
    item.served (w.lines r) (u.lines r) turn ∧ u.step role (.serves r turn) = some v ∧
    v.endpoint.emitted = u.endpoint.emitted ++ [event]

def Line.pending (l : Line) (k : Nat) : Prop := ∃ a, l.unis[k]? = some a ∧ a.tail = .pending

/-- The loop is in the middle of a stream that has not ended, or the item is a stream behind one. -/
def Frozen (loop : Loop) (l : Line) (item : Item) : Prop :=
  l.ended = none ∧ ((∃ buffer, loop = .readingUni buffer ∧ l.pending (l.taken - 1)) ∨
    ∃ k j, item = .uni k ∧ l.taken ≤ j ∧ j < k ∧ l.pending j)

/-! Where the loop can go on. -/

structure Serves (r : Nat) (se : Session) (loop : Loop) (l : Line) (w : Wired) : Prop where
  here : w.endpoint.tasks r = some (.serving se loop)
  line : w.lines r = l

def Reaches (role : Role) (r : Nat) (w v : Wired) : Prop :=
  ∃ signals, Unaided r signals ∧ run (Wired.step role) w signals = some v

theorem reachesSame {role r} (w : Wired) : Reaches role r w w := ⟨[], fun _ h => absurd h List.not_mem_nil, rfl⟩

theorem reachesTrans {role r} {u v w : Wired} (first : Reaches role r u v) (second : Reaches role r v w) :
    Reaches role r u w := by
  obtain ⟨as, alone, ran⟩ := first
  obtain ⟨bs, alone', ran'⟩ := second
  refine ⟨as ++ bs, fun a inside => ?_, runAppend.mpr ⟨v, ran, ran'⟩⟩
  rcases List.mem_append.mp inside with h | h
  · exact alone a h
  · exact alone' a h

section Serving
variable (role : Role) {r : Nat} {se : Session} {l : Line} {w : Wired}

theorem serveStep {loop loop' : Loop} {l' : Line} {turn : Branch} {input : Input} {e : Effect}
    (at_ : Serves r se loop l w) (gives : l.gives loop turn = some (input, l'))
    (ran : sessionLoop se.id w.endpoint.fresh loop input = some (loop', e)) :
    ∃ v, w.step role (.serves r turn) = some v ∧ Serves r se loop' l' v ∧
      v.endpoint.emitted = w.endpoint.emitted ++ e.events := by
  obtain ⟨here, line⟩ := at_
  have aside : ∀ reason, loop = .selecting → input ≠ .ended reason := by
    rintro reason rfl rfl
    cases ran
  have task : sessionTask role w.endpoint.next w.endpoint.fresh r (.serving se loop) input = some (.serving se loop', e) := by
    rw [servingTask aside, ran]
    rfl
  refine ⟨⟨{w.endpoint.apply e with tasks := Function.update w.endpoint.tasks r (some (.serving se loop'))},
    Function.update w.lines r l'⟩, ?_, ⟨by simp, by simp⟩, applyEmitted w.endpoint e⟩
  simp [Wired.step, here, line, gives, Endpoint.step, task]

theorem serveReaches {loop loop' : Loop} {l' : Line} {turn : Branch} {input : Input} {e : Effect}
    (at_ : Serves r se loop l w) (gives : l.gives loop turn = some (input, l'))
    (ran : sessionLoop se.id w.endpoint.fresh loop input = some (loop', e)) :
    ∃ v, Reaches role r w v ∧ Serves r se loop' l' v := by
  obtain ⟨v, one, after, -⟩ := serveStep role at_ gives ran
  refine ⟨v, ⟨[.serves r turn], fun a inside news same => ?_, runCons.mpr ⟨v, one, rfl⟩⟩, after⟩
  cases List.mem_singleton.mp inside
  cases same

theorem readsOn {buffer : Bytes} {a : Arriving} (at_ : Serves r se (.readingUni buffer) l w)
    (here : l.unis[l.taken - 1]? = some a) (sofar : buffer <+: a.bytes) (kept : a.tail ≠ .reset) :
    ∃ v, Reaches role r w v ∧ Serves r se (.readingUni a.bytes) l v := by
  obtain ⟨rest, split⟩ := sofar
  rcases rest.eq_nil_or_concat with rfl | ⟨init, last, same⟩
  · rw [List.append_nil] at split
    exact ⟨w, reachesSame w, split ▸ at_⟩
  · have some_ : 0 < rest.length := by simp [same]
    have long : buffer.length + rest.length = a.bytes.length := by rw [← split, List.length_append]
    have chunk : (a.bytes.drop buffer.length).take rest.length = rest := by
      rw [← split, List.drop_left, List.take_length]
    have gives : l.gives (.readingUni buffer) (.read rest.length) = some (.chunk rest, l) := by
      simp [Line.gives, Line.read, here, kept, some_, long, chunk]
    rw [← split]
    exact serveReaches role at_ gives rfl

theorem readsOut {buffer : Bytes} {a : Arriving} (at_ : Serves r se (.readingUni buffer) l w)
    (here : l.unis[l.taken - 1]? = some a) (sofar : buffer <+: a.bytes) (over_ : a.tail ≠ .pending ∨ l.ended ≠ none) :
    ∃ v, Reaches role r w v ∧ Serves r se .selecting l v := by
  cases tail : a.tail with
  | reset =>
    have gives : l.gives (.readingUni buffer) .fail = some (.failed, l) := by simp [Line.gives, Line.read, here, tail]
    exact serveReaches role at_ gives rfl
  | fin =>
    obtain ⟨v, reached, at_⟩ := readsOn role at_ here sofar (by simp [tail])
    have gives : l.gives (.readingUni a.bytes) .finish = some (.finished, l) := by
      simp [Line.gives, Line.read, here, tail]
    obtain ⟨u, last, at_⟩ := serveReaches role at_ gives rfl
    exact ⟨u, reachesTrans reached last, at_⟩
  | pending =>
    have ended : l.ended ≠ none := over_.resolve_left (absurd tail)
    obtain ⟨v, reached, at_⟩ := readsOn role at_ here sofar (by simp [tail])
    have gives : l.gives (.readingUni a.bytes) .fail = some (.failed, l) := by
      simp [Line.gives, Line.read, here, tail, ended]
    obtain ⟨u, last, at_⟩ := serveReaches role at_ gives rfl
    exact ⟨u, reachesTrans reached last, at_⟩

theorem spawns {x : Nat} (at_ : Serves r se (.spawning x) l w) :
    ∃ v, Reaches role r w v ∧ Serves r se .selecting l v := by
  have gives : l.gives (.spawning x) .go = some (.go, l) := rfl
  exact serveReaches role at_ gives rfl

theorem announces {t : StreamId} {x : Nat} (at_ : Serves r se (.announcing t x) l w) :
    ∃ v, Reaches role r w v ∧ Serves r se .selecting l v := by
  have gives : l.gives (.announcing t x) .go = some (.go, l) := rfl
  obtain ⟨v, first, at_⟩ := serveReaches role at_ gives rfl
  obtain ⟨u, rest, at_⟩ := spawns role at_
  exact ⟨u, reachesTrans first rest, at_⟩

theorem registers {t : StreamId} (at_ : Serves r se (.registering t) l w) :
    ∃ v, Reaches role r w v ∧ Serves r se .selecting l v := by
  have gives : l.gives (.registering t) .go = some (.go, l) := rfl
  obtain ⟨v, first, at_⟩ := serveReaches role at_ gives rfl
  obtain ⟨u, rest, at_⟩ := announces role at_
  exact ⟨u, reachesTrans first rest, at_⟩

theorem settles {loop : Loop} {said : List (SessionId × String)} (at_ : Serves r se loop l w)
    (accounted : Accounted said l (some (.serving se loop)))
    (free : l.ended = none → ∀ buffer, loop = .readingUni buffer → ¬ l.pending (l.taken - 1)) :
    ∃ v, Reaches role r w v ∧ Serves r se .selecting l v := by
  cases loop with
  | selecting => exact ⟨w, reachesSame w, at_⟩
  | registering t => exact registers role at_
  | announcing t x => exact announces role at_
  | spawning x => exact spawns role at_
  | readingUni buffer =>
    cases accounted with
    | early early => exact absurd rfl ((early _ rfl).2 se _)
    | idle idle => cases idle
    | @reading _ _ k a taken here sofar =>
      have last : l.unis[l.taken - 1]? = some a := by rw [taken, Nat.add_sub_cancel]; exact here
      refine readsOut role at_ last sofar ?_
      by_cases ended : l.ended = none
      · exact .inl fun pending => free ended buffer rfl ⟨a, last, pending⟩
      · exact .inr ended

/-! What stands before an item is passed. -/

theorem datagramGiven {bytes : Bytes} {i : Nat} (here : l.datagrams[i]? = some bytes) :
    Line.gives {l with datagrams := l.datagrams.drop i} .selecting .datagram =
      some (.datagram bytes, {l with datagrams := l.datagrams.drop (i + 1)}) := by
  obtain ⟨inside, same⟩ := List.getElem?_eq_some_iff.mp here
  simp only [Line.gives, Line.select, List.drop_eq_getElem_cons inside, same]

theorem passesDatagrams (at_ : Serves r se .selecting l w) (i : Nat) (inside : i ≤ l.datagrams.length) :
    ∃ v, Reaches role r w v ∧ Serves r se .selecting {l with datagrams := l.datagrams.drop i} v := by
  induction i with
  | zero => exact ⟨w, reachesSame w, at_⟩
  | succ i ih =>
    obtain ⟨v, reached, at_⟩ := ih (by omega)
    have here : l.datagrams[i]? = some l.datagrams[i] := List.getElem?_eq_getElem inside
    obtain ⟨u, last, at_⟩ := serveReaches role at_ (datagramGiven here) rfl
    exact ⟨u, reachesTrans reached last, at_⟩

theorem biGiven {t : StreamId} {i : Nat} (here : l.bis[i]? = some t) :
    Line.gives {l with bis := l.bis.drop i} .selecting .bi = some (.bi t, {l with bis := l.bis.drop (i + 1)}) := by
  obtain ⟨inside, same⟩ := List.getElem?_eq_some_iff.mp here
  simp only [Line.gives, Line.select, List.drop_eq_getElem_cons inside, same]

theorem passesBis (at_ : Serves r se .selecting l w) (i : Nat) (inside : i ≤ l.bis.length) :
    ∃ v, Reaches role r w v ∧ Serves r se .selecting {l with bis := l.bis.drop i} v := by
  induction i with
  | zero => exact ⟨w, reachesSame w, at_⟩
  | succ i ih =>
    obtain ⟨v, reached, at_⟩ := ih (by omega)
    have here : l.bis[i]? = some l.bis[i] := List.getElem?_eq_getElem inside
    obtain ⟨u, next, at_⟩ := serveReaches role at_ (biGiven here) rfl
    obtain ⟨z, last, at_⟩ := registers role at_
    exact ⟨z, reachesTrans reached (reachesTrans next last), at_⟩

theorem uniGiven {k : Nat} (inside : k < l.unis.length) :
    Line.gives {l with taken := k} .selecting .uni = some (.uni, {l with taken := k + 1}) := by
  simp only [Line.gives, Line.select, if_pos inside]

theorem passesUnis (at_ : Serves r se .selecting l w) (n : Nat)
    (over_ : ∀ j, l.taken ≤ j → j < l.taken + n → j < l.unis.length ∧ (l.ended = none → ¬ l.pending j)) :
    ∃ v, Reaches role r w v ∧ Serves r se .selecting {l with taken := l.taken + n} v := by
  induction n with
  | zero => exact ⟨w, reachesSame w, at_⟩
  | succ n ih =>
    obtain ⟨v, reached, at_⟩ := ih fun j low high => over_ j low (by omega)
    obtain ⟨inside, done⟩ := over_ (l.taken + n) (by omega) (by omega)
    have here : l.unis[l.taken + n]? = some l.unis[l.taken + n] := List.getElem?_eq_getElem inside
    obtain ⟨u, next, at_⟩ := serveReaches role at_ (uniGiven inside) rfl
    obtain ⟨z, last, at_⟩ := readsOut role at_ here List.nil_prefix (by
      by_cases ended : l.ended = none
      · exact .inl fun pending => done ended ⟨_, here, pending⟩
      · exact .inr ended)
    exact ⟨z, reachesTrans reached (reachesTrans next last), at_⟩

/-! Its own turn comes. -/

theorem deliveredLast {item : Item} {event : Event} {loop loop' : Loop} {turn : Branch} {input : Input} {u : Wired}
    {now l' : Line} (line : w.lines r = l) (reached : Reaches role r w u) (at_ : Serves r se loop now u)
    (turn_ : item.served l now turn) (gives : now.gives loop turn = some (input, l'))
    (ran : sessionLoop se.id u.endpoint.fresh loop input = some (loop', .emit event)) :
    Delivered role r w item event := by
  obtain ⟨signals, alone, before⟩ := reached
  obtain ⟨v, one, -, emitted⟩ := serveStep role at_ gives ran
  refine ⟨signals, turn, u, v, alone, before, ?_, one, emitted⟩
  rw [line, at_.line]
  exact turn_

theorem deliversDatagram {i : Nat} {bytes : Bytes} {text : String} (at_ : Serves r se .selecting l w)
    (here : l.datagrams[i]? = some bytes) (valid : Utf8.decode bytes = some text) :
    Delivered role r w (.datagram i) (.datagram se.id text) := by
  obtain ⟨inside, -⟩ := List.getElem?_eq_some_iff.mp here
  obtain ⟨v, reached, at'⟩ := passesDatagrams role at_ i (by omega)
  have ran : sessionLoop se.id v.endpoint.fresh .selecting (.datagram bytes) =
      some (.selecting, .emit (.datagram se.id text)) := by
    simp [sessionLoop, emitText, valid]
  exact deliveredLast role at_.line reached at' ⟨rfl, rfl⟩ (datagramGiven here) ran

theorem deliversBi {i : Nat} {t : StreamId} (at_ : Serves r se .selecting l w) (here : l.bis[i]? = some t) :
    Delivered role r w (.bi i) (.streamOpened se.id t) := by
  obtain ⟨inside, -⟩ := List.getElem?_eq_some_iff.mp here
  obtain ⟨v, reached, at'⟩ := passesBis role at_ i (by omega)
  obtain ⟨u, next, at'⟩ := serveReaches role at' (biGiven here) rfl
  have goes : ∀ now x, Line.gives now (.registering t) .go = some (.go, now) ∧
      Line.gives now (.announcing t x) .go = some (.go, now) := fun _ _ => ⟨rfl, rfl⟩
  obtain ⟨z, last, at'⟩ := serveReaches role at' (goes _ 0).1 rfl
  exact deliveredLast role at_.line (reachesTrans reached (reachesTrans next last)) at' ⟨rfl, rfl⟩ (goes _ _).2 rfl

theorem deliversUni {k : Nat} {a : Arriving} {text : String} (at_ : Serves r se .selecting l w) (later : l.taken ≤ k)
    (here : l.unis[k]? = some a) (whole : a.whole = some text)
    (over_ : l.ended = none → ∀ j, l.taken ≤ j → j < k → ¬ l.pending j) :
    Delivered role r w (.uni k) (.streamMessage se.id text) := by
  obtain ⟨inside, -⟩ := List.getElem?_eq_some_iff.mp here
  obtain ⟨fin, valid⟩ : a.tail = .fin ∧ Utf8.decode a.bytes = some text := by
    unfold Arriving.whole at whole
    split at whole
    · exact ⟨by assumption, whole⟩
    · cases whole
  obtain ⟨v, reached, at'⟩ := passesUnis role at_ (k - l.taken) fun j low high =>
    ⟨by omega, fun ended => over_ ended j low (by omega)⟩
  rw [Nat.add_sub_cancel' later] at at'
  obtain ⟨u, next, at'⟩ := serveReaches role at' (uniGiven inside) rfl
  obtain ⟨z, last, at'⟩ := readsOn role at' here List.nil_prefix (by simp [fin])
  have gives : Line.gives {l with taken := k + 1} (.readingUni a.bytes) .finish =
      some (.finished, {l with taken := k + 1}) := by
    simp [Line.gives, Line.read, here, fin]
  have ran : sessionLoop se.id z.endpoint.fresh (.readingUni a.bytes) .finished =
      some (.selecting, .emit (.streamMessage se.id text)) := by
    simp [sessionLoop, emitText, valid]
  exact deliveredLast role at_.line (reachesTrans reached (reachesTrans next last)) at' ⟨rfl, rfl⟩ gives ran

theorem deliveredLater {item : Item} {event : Event} {v : Wired} (reached : Reaches role r w v)
    (same : v.lines r = w.lines r) (delivered : Delivered role r v item event) : Delivered role r w item event := by
  obtain ⟨before, alone, ran⟩ := reached
  obtain ⟨signals, turn, u, z, alone', ran', turn_, one, emitted⟩ := delivered
  refine ⟨before ++ signals, turn, u, z, fun a inside => ?_, runAppend.mpr ⟨v, ran, ran'⟩, same ▸ turn_, one, emitted⟩
  rcases List.mem_append.mp inside with h | h
  · exact alone a h
  · exact alone' a h

end Serving

/-! What a stream in the way holds up. -/

structure Caught (r j : Nat) (w : Wired) : Prop where
  open_ : (w.lines r).ended = none
  pending : (w.lines r).pending j
  taken : (w.lines r).taken = j + 1
  reading : ∃ se buffer, w.endpoint.tasks r = some (.serving se (.readingUni buffer))

structure Short (r j : Nat) (w : Wired) : Prop where
  open_ : (w.lines r).ended = none
  pending : (w.lines r).pending j
  short : (w.lines r).taken ≤ j ∨ Caught r j w

theorem caughtReads {l : Line} {j : Nat} {buffer : Bytes} {turn : Branch} {input : Input} (open_ : l.ended = none)
    (pending : l.pending j) (taken : l.taken = j + 1) (read : l.read buffer turn = some input) : ∃ bytes, input = .chunk bytes := by
  obtain ⟨a, here, tail⟩ := pending
  obtain ⟨b, there, kind⟩ := readGives read
  rw [taken, Nat.add_sub_cancel] at there
  cases here.symm.trans there
  rcases kind with ⟨n, same⟩ | ⟨-, fin, -⟩ | ⟨-, reset | ⟨-, ended⟩⟩
  · exact ⟨_, same⟩
  · rw [tail] at fin; cases fin
  · rw [tail] at reset; cases reset
  · exact absurd open_ ended

theorem caughtStep {role r j} {w v : Wired} {a : Signal} (caught : Caught r j w) (alone : ∀ news, a ≠ .arrives r news)
    (one : w.step role a = some v) :
    Caught r j v ∧ ∀ turn, a = .serves r turn → v.endpoint.emitted = w.endpoint.emitted := by
  obtain ⟨open_, pending, taken, se, buffer, reading⟩ := caught
  have aside : v.lines r = w.lines r → v.endpoint.tasks r = w.endpoint.tasks r → Caught r j v := by
    intro line task
    exact ⟨by rw [line]; exact open_, by rw [line]; exact pending, by rw [line]; exact taken,
      ⟨se, buffer, task.trans reading⟩⟩
  cases wiredMoves one with
  | @arrives q news l got =>
    have other : r ≠ q := by rintro rfl; exact alone news rfl
    exact ⟨aside (by simp [other]) rfl, by simp⟩
  | @turns q turn se' loop input loop' e l here gives ran =>
    by_cases same : r = q
    · subst same
      cases reading.symm.trans here
      obtain ⟨input', read, same⟩ := Option.map_eq_some_iff.mp gives
      cases same
      obtain ⟨bytes, rfl⟩ := caughtReads open_ pending taken read
      cases ran
      refine ⟨⟨?_, ?_, ?_, ⟨se, buffer ++ bytes, Function.update_self r _ _⟩⟩, fun _ _ => rfl⟩
      · simpa using open_
      · simpa using pending
      · simpa using taken
    · exact ⟨aside (by simp [same]) (by simp [same]), fun t h => by cases h; exact absurd rfl same⟩
  | @ends q turn se' reason l here gives =>
    have other : r ≠ q := by
      rintro rfl
      cases reading.symm.trans here
    exact ⟨aside (by simp [other]) (by simp [other]), fun t h => by cases h; exact absurd rfl other⟩
  | @moves a s loops move =>
    refine ⟨aside rfl ?_, by simp⟩
    cases move with
    | @incoming q expected server free =>
      have other : r ≠ q := by
        rintro rfl
        rw [reading] at free
        cases free
      simp [other]
    | @task q input p p' e here step =>
      have other : r ≠ q := by
        rintro rfl
        simp [State.loops, reading] at loops
      simp [other]
    | reader step => exact congrFun (readerKeeps (s := w.endpoint) step).1 r
    | enter free => rfl
    | call here step => simp

theorem shortStep {role r j} {w v : Wired} {a : Signal} (short : Short r j w) (alone : ∀ news, a ≠ .arrives r news)
    (one : w.step role a = some v) : Short r j v := by
  obtain ⟨open_, pending, early | caught⟩ := short
  · have aside : v.lines r = w.lines r → Short r j v := by
      intro line
      exact ⟨by rw [line]; exact open_, by rw [line]; exact pending, .inl (by rw [line]; exact early)⟩
    cases wiredMoves one with
    | @arrives q news l got =>
      have other : r ≠ q := by rintro rfl; exact alone news rfl
      exact aside (by simp [other])
    | @turns q turn se loop input loop' e l here gives ran =>
      by_cases same : r = q
      · subst same
        have line : (⟨{w.endpoint.apply e with tasks := Function.update w.endpoint.tasks r (some (.serving se loop'))},
            Function.update w.lines r l⟩ : Wired).lines r = l := Function.update_self r l w.lines
        by_cases select : loop = .selecting
        · subst select
          obtain ⟨unis, ended, kind⟩ := selectGives gives
          have open' : l.ended = none := ended.trans open_
          have pending' : l.pending j := by rw [Line.pending, unis]; exact pending
          rcases kind with ⟨rfl, taken, -⟩ | ⟨-, taken, -⟩
          · cases ran
            rcases Nat.lt_or_eq_of_le early with less | exactly
            · exact ⟨by rw [line]; exact open', by rw [line]; exact pending', .inl (by rw [line]; omega)⟩
            · refine ⟨by rw [line]; exact open', by rw [line]; exact pending', .inr ⟨by rw [line]; exact open',
                by rw [line]; exact pending', by rw [line]; omega, ⟨se, [], Function.update_self r _ _⟩⟩⟩
          · exact ⟨by rw [line]; exact open', by rw [line]; exact pending', .inl (by rw [line]; omega)⟩
        · have still : l = w.lines r := by
            cases loop with
            | selecting => exact absurd rfl select
            | readingUni buffer =>
              obtain ⟨input', -, same⟩ := Option.map_eq_some_iff.mp gives
              cases same
              rfl
            | _ => cases turn <;> cases gives; rfl
          exact aside (by rw [line, still])
      · exact aside (by simp [same])
    | @ends q turn se reason l here gives =>
      refine aside ?_
      by_cases same : r = q
      · subst same
        obtain ⟨-, -, kind⟩ := selectGives gives
        rcases kind with ⟨other, -⟩ | ⟨-, -, ends⟩
        · cases other
        · simp [(ends reason rfl).1]
      · simp [same]
    | moves loops move => exact aside rfl
  · obtain ⟨caught, -⟩ := caughtStep caught alone one
    exact ⟨caught.open_, caught.pending, .inr caught⟩

theorem aloneKeeps {role : Role} {r : Nat} {P : Wired → Prop}
    (one : ∀ w v a, P w → (∀ news, a ≠ .arrives r news) → Wired.step role w a = some v → P v)
    {w v : Wired} {signals : List Signal} (start : P w) (alone : Unaided r signals)
    (ran : run (Wired.step role) w signals = some v) : P v :=
  alongKeeps (fun w a v old met step => one w v a old met step) start (alongForall alone) ran

theorem frozenStays {role : Role} {r : Nat} {w : Wired} {se : Session} {loop : Loop} {item : Item} {event : Event}
    {said : List (SessionId × String)} (here : w.endpoint.tasks r = some (.serving se loop))
    (accounted : Accounted said (w.lines r) (some (.serving se loop))) (frozen : Frozen loop (w.lines r) item) :
    ¬ Delivered role r w item event := by
  rintro ⟨signals, turn, u, v, alone, ran, served, one, emitted⟩
  obtain ⟨open_, ⟨buffer, rfl, pending⟩ | ⟨k, j, rfl, low, high, pending⟩⟩ := frozen
  · have taken : (w.lines r).taken = ((w.lines r).taken - 1) + 1 := by
      cases accounted with
      | early early => exact absurd rfl ((early _ rfl).2 se _)
      | reading taken => omega
      | idle idle => cases idle
    have caught := aloneKeeps (fun w v a old met step => (caughtStep old met step).1)
      ⟨open_, pending, taken, se, buffer, here⟩ alone ran
    have silent := (caughtStep caught (by simp) one).2 turn rfl
    rw [emitted, List.append_right_eq_self] at silent
    cases silent
  · have short := aloneKeeps (fun w v a old met step => shortStep old met step) ⟨open_, pending, .inl low⟩ alone ran
    have past : (u.lines r).taken = k + 1 := served.2
    rcases short.short with early | caught
    · omega
    · have := caught.taken
      omega

theorem waitingDelivered {role : Role} {labels : List Signal} {w : Wired} {r : Nat} {se : Session} {loop : Loop}
    (ran : run (Wired.step role) (Wired.init role) labels = some w)
    (here : w.endpoint.tasks r = some (.serving se loop)) {item : Item} {event : Event}
    (waits : (w.lines r).waits se.id item = some event) :
    Delivered role r w item event ↔ ¬ Frozen loop (w.lines r) item := by
  have accounted := accountedRun (r := r) ran
  rw [here] at accounted
  refine ⟨fun delivered frozen => frozenStays here accounted frozen delivered, fun free => ?_⟩
  obtain ⟨v, reached, at_⟩ := settles role ⟨here, rfl⟩ accounted fun ended buffer same pending =>
    free ⟨ended, .inl ⟨buffer, same, pending⟩⟩
  refine deliveredLater role reached at_.line ?_
  cases item with
  | datagram i =>
    obtain ⟨text, known, rfl⟩ := Option.map_eq_some_iff.mp waits
    obtain ⟨bytes, at', valid⟩ := Option.bind_eq_some_iff.mp known
    exact deliversDatagram role at_ at' valid
  | bi i =>
    obtain ⟨t, at', rfl⟩ := Option.map_eq_some_iff.mp waits
    exact deliversBi role at_ at'
  | uni k =>
    simp only [Line.waits] at waits
    split at waits
    · rename_i later
      obtain ⟨text, known, rfl⟩ := Option.map_eq_some_iff.mp waits
      obtain ⟨a, at', whole⟩ := Option.bind_eq_some_iff.mp known
      exact deliversUni role at_ later at' whole fun ended j low high pending =>
        free ⟨ended, .inr ⟨k, j, rfl, low, high, pending⟩⟩
    · cases waits

def heldByUni : List Signal :=
  sessionServed ++ [.arrives 0 .uni, .serves 0 .uni, .arrives 0 (.datagram [110, 111, 119])]

theorem datagramHeld : ∃ w, run (Wired.step (.server "/rk")) (Wired.init (.server "/rk")) heldByUni = some w ∧
    w.endpoint.tasks 0 = some (.serving ⟨1, "till", "/rk"⟩ (.readingUni [])) ∧
    (w.lines 0).waits 1 (.datagram 0) = some (.datagram 1 "now") ∧
    ¬ Delivered (.server "/rk") 0 w (.datagram 0) (.datagram 1 "now") := by
  have seen : (run (Wired.step (.server "/rk")) (Wired.init (.server "/rk")) heldByUni).map (fun w =>
      (w.endpoint.tasks 0, (w.lines 0).waits 1 (.datagram 0), w.lines 0)) =
      some (some (.serving ⟨1, "till", "/rk"⟩ (.readingUni [])), some (.datagram 1 "now"),
        ⟨[[110, 111, 119]], [⟨[], .pending⟩], 1, [], none⟩) := by decide
  obtain ⟨w, ran, same⟩ := Option.map_eq_some_iff.mp seen
  simp only [Prod.mk.injEq] at same
  obtain ⟨here, waits, line⟩ := same
  have accounted := accountedRun (r := 0) ran
  rw [here] at accounted
  refine ⟨w, ran, here, waits, frozenStays here accounted ?_⟩
  rw [line]
  exact ⟨rfl, .inl ⟨[], rfl, ⟨[], .pending⟩, rfl, rfl⟩⟩

def besideBi : List Signal :=
  sessionServed ++ [.arrives 0 (.bi 4), .serves 0 .bi, .arrives 0 .uni, .arrives 0 (.chunk 0 [112, 97, 105, 100]),
    .arrives 0 (.fin 0), .arrives 0 (.datagram [110, 111, 119])]

theorem besideBiDelivered : ∃ w, run (Wired.step (.server "/rk")) (Wired.init (.server "/rk")) besideBi = some w ∧
    Delivered (.server "/rk") 0 w (.datagram 0) (.datagram 1 "now") ∧
    Delivered (.server "/rk") 0 w (.uni 0) (.streamMessage 1 "paid") := by
  have seen : (run (Wired.step (.server "/rk")) (Wired.init (.server "/rk")) besideBi).map (fun w =>
      (w.endpoint.tasks 0, w.lines 0)) = some (some (.serving ⟨1, "till", "/rk"⟩ (.registering 4)),
        ⟨[[110, 111, 119]], [⟨[112, 97, 105, 100], .fin⟩], 0, [], none⟩) := by decide
  obtain ⟨w, ran, same⟩ := Option.map_eq_some_iff.mp seen
  simp only [Prod.mk.injEq] at same
  obtain ⟨here, line⟩ := same
  have now : (w.lines 0).waits 1 (.datagram 0) = some (.datagram 1 "now") := by rw [line]; decide
  have paid : (w.lines 0).waits 1 (.uni 0) = some (.streamMessage 1 "paid") := by rw [line]; decide
  refine ⟨w, ran, (waitingDelivered ran here now).mpr ?_, (waitingDelivered ran here paid).mpr ?_⟩
  · rintro ⟨-, ⟨buffer, reading, -⟩ | ⟨k, j, same, -⟩⟩
    · cases reading
    · cases same
  · rintro ⟨-, ⟨buffer, reading, -⟩ | ⟨k, j, same, low, high, -⟩⟩
    · cases reading
    · cases same
      omega

end RkQuic.Endpoint
