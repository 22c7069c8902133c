import RkQuic.Readers

/-! What is announced of one bidirectional stream. A stream is opened under a key, its session
and its number: by the peer, and then `session_loop` announces it, or by `open_stream`. The
rest is said by the one reader it is given. No key is given twice. -/
namespace RkQuic.Endpoint
open Runs Naming

structure Opening where
  key : SessionId × StreamId
  accepted : Bool
  deriving DecidableEq, Repr

def State.given (s : State) : Label → Option Opening
  | .task r (.bi t) => (s.sessionOf r).map fun se => ⟨(se.id, t), true⟩
  | .call c (.opened t) => ((s.calls c).bind Call.opening).map fun id => ⟨(id, t), false⟩
  | _ => none

def openings (role : Role) (labels : List Label) : List Opening :=
  noted (step role) State.given (init role) labels

def Event.onStream (key : SessionId × StreamId) : Event → Bool
  | .streamOpened id t | .streamData id t _ | .streamClosed id t => (id, t) = key
  | _ => false

def State.trace (s : State) (key : SessionId × StreamId) : List Event := s.emitted.filter (Event.onStream key)

def Opening.heading (o : Opening) : List Event := if o.accepted then [.streamOpened o.key.1 o.key.2] else []

def Opening.story (o : Opening) (data : Option String) : List Event :=
  o.heading ++ data.toList.map (.streamData o.key.1 o.key.2) ++ [.streamClosed o.key.1 o.key.2]

/-! Who carries which key. -/

def State.key (s : State) (x : Nat) : SessionId × StreamId := (s.exchanges x).key

def Phase.keying : Phase → Option (SessionId × StreamId)
  | .serving se (.registering t) => some (se.id, t)
  | _ => none

def Call.keying : Call → Option (SessionId × StreamId)
  | ⟨.openStream id, .registering t, _⟩ => some (id, t)
  | _ => none

def State.keying (s : State) : Nat ⊕ Nat → Option (SessionId × StreamId) := s.party Phase.keying Call.keying

def Phase.heralds : Phase → Option (Nat × (SessionId × StreamId))
  | .serving se (.announcing t x) => some (x, (se.id, t))
  | _ => none

def State.heralds (s : State) (r : Nat) : Option (Nat × (SessionId × StreamId)) :=
  (s.tasks r).bind Phase.heralds

inductive TraceMove (s : State) (a : Label) (t : State) : Prop where
  | still (given : s.given a = none) (keying : t.keying = s.keying) (heralds : t.heralds = s.heralds)
      (fresh : t.fresh = s.fresh) (keys : t.key = s.key) (readers : t.reader = s.reader)
      (said : t.trace = s.trace)
  | named {m key} (given : s.given a = some ⟨key, m.isLeft⟩) (keying : t.keying = Function.update s.keying m (some key))
      (heralds : t.heralds = s.heralds) (fresh : t.fresh = s.fresh) (keys : t.key = s.key)
      (readers : t.reader = s.reader) (said : t.trace = s.trace)
  | registered {m key} (given : s.given a = none) (had : s.keying m = some key)
      (keying : t.keying = Function.update s.keying m none)
      (heralds : (∃ r, m = .inl r ∧ s.heralds r = none ∧
          t.heralds = Function.update s.heralds r (some (s.fresh, key))) ∨
        (∃ c, m = .inr c) ∧ t.heralds = s.heralds)
      (fresh : t.fresh = s.fresh + 1) (keys : t.key = Function.update s.key s.fresh key)
      (readers : t.reader = s.reader) (mapped : t.streams key = some s.fresh) (said : t.trace = s.trace)
  | announced {r x key} (given : s.given a = none) (had : s.heralds r = some (x, key)) (keying : t.keying = s.keying)
      (heralds : t.heralds = Function.update s.heralds r none) (fresh : t.fresh = s.fresh) (keys : t.key = s.key)
      (readers : t.reader = s.reader) (said : t.emitted = s.emitted ++ [.streamOpened key.1 key.2])
  | spawned {m x} (given : s.given a = none) (had : s.spawner m = some x) (keying : t.keying = s.keying) (heralds : t.heralds = s.heralds)
      (fresh : t.fresh = s.fresh) (keys : t.key = s.key)
      (readers : t.reader = Function.update s.reader x (.reading [])) (said : t.trace = s.trace)
  | read {y input reader' e} (same : a = .reader y input)
      (move : ReaderMove (s.key y).1 (s.key y).2 (s.reader y) input reader' e) (keying : t.keying = s.keying)
      (heralds : t.heralds = s.heralds) (fresh : t.fresh = s.fresh) (keys : t.key = s.key)
      (readers : t.reader = Function.update s.reader y reader') (said : t.emitted = s.emitted ++ e.events)

def Effect.aside : Effect → Prop
  | .register _ _ | .spawn _ => False
  | .emit event => ∀ key, Event.onStream key event = false
  | _ => True

theorem asideStreams (s : State) {e : Effect} (aside : e.aside) :
    (s.apply e).fresh = s.fresh ∧ (s.apply e).key = s.key ∧ (s.apply e).reader = s.reader ∧
      (s.apply e).trace = s.trace := by
  have plain : e.plain := by cases e <;> trivial
  obtain ⟨fresh, -, readers⟩ := plainStreams s plain
  refine ⟨fresh, funext fun x => ?_, readers, funext fun key => ?_⟩
  · exact (congrArg Exchange.key (applyExchange s e (by omega))).trans (onKey ..)
  · rw [State.trace, applyEmitted, List.filter_append]
    cases e with
    | emit event => simp [Effect.events, aside key, State.trace]
    | _ => simp [Effect.events, State.trace]

theorem registerKeys (s : State) (id : SessionId) (t : StreamId) :
    (s.apply (.register id t)).key = Function.update s.key s.fresh (id, t) := by
  funext x
  by_cases newest : x = s.fresh <;> simp [State.key, State.apply, newest, Exchange.key, Exchange.opened]

theorem spawnKeys (s : State) (x : Nat) : (s.apply (.spawn x)).key = s.key := by
  funext y
  exact (congrArg Exchange.key (applyExchange s (.spawn x) (Nat.lt_or_ge y s.fresh))).trans (onKey ..)

theorem taskTrace {role s r input p p' e} (keyed : Keyed s) (here : s.tasks r = some p)
    (move : TaskMove role s.next s.fresh r p input p' e) :
    TraceMove s (.task r input) {s.apply e with tasks := Function.update s.tasks r (some p')} := by
  have keying : State.keying {s.apply e with tasks := Function.update s.tasks r (some p')} =
      Function.update s.keying (.inl r) p'.keying := partyTask _ _ rfl (applyCalls s e)
  have heralds : State.heralds {s.apply e with tasks := Function.update s.tasks r (some p')} =
      Function.update s.heralds r p'.heralds := by
    funext q
    by_cases same : q = r <;> simp [State.heralds, same]
  have keyNow : s.keying (.inl r) = p.keying := by simp [State.keying, State.party, here]
  have heraldNow : s.heralds r = p.heralds := by simp [State.heralds, here]
  have still : e.aside → s.given (.task r input) = none → p'.keying = p.keying → p'.heralds = p.heralds →
      TraceMove s (.task r input) {s.apply e with tasks := Function.update s.tasks r (some p')} := by
    intro aside given sameKey sameHerald
    obtain ⟨fresh, keys, readers, said⟩ := asideStreams s aside
    exact .still given (keying.trans (updateKeeps (keyNow.trans sameKey.symm)))
      (heralds.trans (updateKeeps (heraldNow.trans sameHerald.symm))) fresh keys readers said
  cases move with
  | @serve se loop loop' input e move =>
    cases move with
    | bi t =>
      obtain ⟨fresh, keys, readers, said⟩ := asideStreams s (e := .none) trivial
      have given : s.given (.task r (.bi t)) = some ⟨(se.id, t), (Sum.inl r : Nat ⊕ Nat).isLeft⟩ := by
        simp [State.given, State.sessionOf, here, Phase.session]
      exact .named given keying (heralds.trans (updateKeeps heraldNow)) fresh keys readers said
    | register t =>
      exact .registered rfl keyNow keying (.inl ⟨r, rfl, heraldNow, heralds⟩) rfl (registerKeys s se.id t)
        (registerStreams keyed se.id t).2 (by simp [State.apply]) rfl
    | announce t x =>
      exact .announced rfl heraldNow (keying.trans (updateKeeps keyNow)) heralds rfl rfl rfl rfl
    | spawn x =>
      have spawns : s.spawner (.inl r) = some x := by simp [State.spawner, State.party, here, Phase.spawner]
      exact .spawned rfl spawns (keying.trans (updateKeeps keyNow)) (heralds.trans (updateKeeps heraldNow)) rfl
        (spawnKeys s x) (spawnStreams s x).2 rfl
    | datagram => exact still (fun _ => rfl) rfl rfl rfl
    | message => exact still (fun _ => rfl) rfl rfl rfl
    | _ => exact still trivial rfl rfl rfl
  | open_ | close => exact still (fun _ => rfl) rfl rfl rfl
  | _ => exact still trivial rfl rfl rfl

theorem callTrace {s c reply k k' e} (keyed : Keyed s) (here : s.calls c = some k)
    (move : CallMove s c k reply k' e) :
    TraceMove s (.call c reply) {s.apply e with calls := Function.update s.calls c (some k')} := by
  have keying : State.keying {s.apply e with calls := Function.update s.calls c (some k')} =
      Function.update s.keying (.inr c) k'.keying := partyCall _ _ (applyTasks s e) rfl
  have heralds : State.heralds {s.apply e with calls := Function.update s.calls c (some k')} = s.heralds := by
    funext r
    simp [State.heralds]
  have keyNow : s.keying (.inr c) = k.keying := by simp [State.keying, State.party, here]
  have still : e.aside → s.given (.call c reply) = none → k'.keying = k.keying →
      TraceMove s (.call c reply) {s.apply e with calls := Function.update s.calls c (some k')} := by
    intro aside given sameKey
    obtain ⟨fresh, keys, readers, said⟩ := asideStreams s aside
    exact .still given (keying.trans (updateKeeps (keyNow.trans sameKey.symm))) heralds fresh keys readers said
  cases move with
  | @opened id sent conn t =>
    obtain ⟨fresh, keys, readers, said⟩ := asideStreams s (e := .none) trivial
    have given : s.given (.call c (.opened t)) = some ⟨(id, t), (Sum.inr c : Nat ⊕ Nat).isLeft⟩ := by
      simp [State.given, here, Call.opening]
    exact .named given keying heralds fresh keys readers said
  | @openRegister id sent t =>
    exact .registered rfl keyNow keying (.inr ⟨⟨c, rfl⟩, heralds⟩) rfl (registerKeys s id t)
      (registerStreams keyed id t).2 (by simp [State.apply]) rfl
  | @openSpawn id sent t x =>
    have spawns : s.spawner (.inr c) = some x := by simp [State.spawner, State.party, here, Call.spawner]
    exact .spawned rfl spawns (keying.trans (updateKeeps keyNow)) heralds rfl (spawnKeys s _) (spawnStreams s _).2 rfl
  | _ => exact still trivial rfl rfl

theorem readerRead {s : State} {y id t reader input reader' e} (move : ReaderMove id t reader input reader' e) :
    ((s.edit y (fun ex => {ex with reader := reader'})).apply e).reader = Function.update s.reader y reader' := by
  have exchanges := readerExchanges (s.edit y (fun ex => {ex with reader := reader'})) move
  funext x
  by_cases same : x = y <;> simp [State.reader, exchanges, editExchange, same]

theorem traceMoves {role s a t} (move : Move role s a t) (keyed : Keyed s) : TraceMove s a t := by
  cases move with
  | @incoming r expected server free =>
    refine .still rfl (partyIncoming free rfl) (funext fun q => ?_) rfl rfl rfl rfl
    by_cases same : q = r <;> simp [State.heralds, same, free, Phase.heralds]
  | task here step => exact taskTrace keyed here step
  | @reader y input reader' e step =>
    have exchanges := readerExchanges (s.edit y (fun ex => {ex with reader := reader'})) step
    refine .read rfl step ?_ ?_ (readerFresh (s.edit y _) step) ?_ (readerRead step) (applyEmitted ..)
    · funext m
      cases m <;> simp [State.keying, State.party]
    · funext r
      simp [State.heralds]
    · funext x
      simp only [State.key, exchanges, editExchange]
      split_ifs <;> rfl
  | @enter c method free =>
    exact .still rfl (partyEnter free (by cases method <;> rfl)) rfl rfl rfl rfl rfl
  | call here step => exact callTrace keyed here step

/-! Each registered stream was opened once, and what is told of it is what its reader has said. -/

def Reader.said (key : SessionId × StreamId) : Reader → List Event
  | .closing (some text) => [.streamData key.1 key.2 text]
  | .ended told => told.toList.map (.streamData key.1 key.2) ++ [.streamClosed key.1 key.2]
  | _ => []

structure Narrated (os : List Opening) (s : State) : Prop where
  names : Names (os.map Opening.key) s.fresh s.key s.keying
  origin : ∀ m key, s.keying m = some key → ⟨key, m.isLeft⟩ ∈ os
  heralds : ∀ r x key, s.heralds r = some (x, key) → x < s.fresh ∧ s.key x = key ∧ ⟨key, true⟩ ∈ os
  told : ∀ x, x < s.fresh → ∃ o ∈ os, o.key = s.key x ∧
    ((∃ r key, s.heralds r = some (x, key)) ∧ s.trace o.key = [] ∨
      (∀ r key, s.heralds r ≠ some (x, key)) ∧ s.trace o.key = o.heading ++ (s.reader x).said o.key)
  silent : ∀ key, (∀ x, x < s.fresh → s.key x ≠ key) → s.trace key = []

theorem openedOnce {os : List Opening} (once : (os.map Opening.key).Nodup) {o o' : Opening} (member : o ∈ os)
    (member' : o' ∈ os) (same : o.key = o'.key) : o = o' :=
  List.inj_on_of_nodup_map once member member' same

theorem heraldSpawns {s : State} {r x key} (herald : s.heralds r = some (x, key)) : s.spawner (.inl r) = some x := by
  obtain ⟨p, here, at_⟩ := Option.bind_eq_some_iff.mp herald
  unfold Phase.heralds at at_
  split at at_ <;> cases at_
  simp [State.spawner, State.party, here, Phase.spawner]

theorem readerSaid {key : SessionId × StreamId} {reader input reader' e}
    (move : ReaderMove key.1 key.2 reader input reader' e) :
    reader'.said key = reader.said key ++ e.events.filter (Event.onStream key) := by
  cases move with
  | chunk | whole | garbled | lost => simp [Effect.events, Reader.said]
  | tell text => simp [Effect.events, Event.onStream, Reader.said]
  | close told => cases told <;> simp [Effect.events, Event.onStream, Reader.said]

theorem readerAside {key other : SessionId × StreamId} {reader input reader' e}
    (move : ReaderMove key.1 key.2 reader input reader' e) (apart : key ≠ other) :
    e.events.filter (Event.onStream other) = [] := by
  cases move <;> simp [Effect.events, Event.onStream, apart]

theorem narratedAside {os more : List Opening} {s t : State} (within : ∀ o ∈ os, o ∈ more) (old : Narrated os s)
    (names : Names (more.map Opening.key) t.fresh t.key t.keying)
    (origin : ∀ m key, t.keying m = some key → ⟨key, m.isLeft⟩ ∈ more)
    (heralds : t.heralds = s.heralds) (fresh : t.fresh = s.fresh) (keys : t.key = s.key)
    (readers : ∀ x key, (t.reader x).said key = (s.reader x).said key) (said : t.trace = s.trace) : Narrated more t := by
  refine ⟨names, origin, fun r x key h => ?_, fun x h => ?_, fun key h => ?_⟩
  · obtain ⟨less, same, member⟩ := old.heralds r x key (heralds ▸ h)
    rw [fresh, keys]
    exact ⟨less, same, within _ member⟩
  · obtain ⟨o, member, same, told⟩ := old.told x (fresh ▸ h)
    rw [keys, heralds]
    refine ⟨o, within o member, same, ?_⟩
    rw [readers, said]
    exact told
  · rw [said]
    rw [fresh, keys] at h
    exact old.silent key h

theorem narratedRegistered {s t : State} {os : List Opening} {m : Nat ⊕ Nat} {key : SessionId × StreamId} (old : Narrated os s)
    (keyed : Keyed s) (had : s.keying m = some key) (keying : t.keying = Function.update s.keying m none)
    (heralds : (∃ r, m = .inl r ∧ s.heralds r = none ∧ t.heralds = Function.update s.heralds r (some (s.fresh, key))) ∨
      (∃ c, m = .inr c) ∧ t.heralds = s.heralds)
    (fresh : t.fresh = s.fresh + 1) (keys : t.key = Function.update s.key s.fresh key) (readers : t.reader = s.reader)
    (said : t.trace = s.trace) : Narrated os t := by
  have unused := (old.names.coming m key had).2
  have unspawned : s.reader s.fresh = .unspawned := by rw [State.reader, keyed.beyond _ le_rfl]; rfl
  have before : ∀ x, x < s.fresh → t.key x = s.key x := fun x h => by
    rw [keys, Function.update_of_ne (by omega)]
  have newest : t.key s.fresh = key := by rw [keys, Function.update_self]
  have known : ∀ r x k, t.heralds r = some (x, k) →
      (x < s.fresh ∧ s.heralds r = some (x, k)) ∨ (m = .inl r ∧ x = s.fresh ∧ k = key) := by
    intro r x k h
    rcases heralds with ⟨q, rfl, -, same⟩ | ⟨-, same⟩
    · rw [same] at h
      rcases updateSome h with ⟨rfl, now⟩ | ⟨-, was⟩
      · cases now
        exact .inr ⟨rfl, rfl, rfl⟩
      · exact .inl ⟨(old.heralds r x k was).1, was⟩
    · exact .inl ⟨(old.heralds r x k (same ▸ h)).1, same ▸ h⟩
  have kept : ∀ r x k, s.heralds r = some (x, k) → t.heralds r = some (x, k) := by
    intro r x k h
    rcases heralds with ⟨q, rfl, none_, same⟩ | ⟨-, same⟩
    · have apart : r ≠ q := by
        rintro rfl
        rw [none_] at h
        cases h
      rw [same, Function.update_of_ne apart, h]
    · rw [same, h]
  refine ⟨?_, fun n k h => ?_, fun r x k h => ?_, fun x h => ?_, fun k h => ?_⟩
  · rw [fresh, keys, keying]
    exact namesPlaced had old.names
  · rw [keying] at h
    exact old.origin n k (updateNone h).2
  · rw [fresh]
    rcases known r x k h with ⟨-, was⟩ | ⟨rfl, rfl, rfl⟩
    · obtain ⟨less, same, member⟩ := old.heralds r x k was
      exact ⟨by omega, (before x less).trans same, member⟩
    · exact ⟨by omega, newest, old.origin _ _ had⟩
  · rw [readers, said]
    rcases Nat.lt_succ_iff_lt_or_eq.mp (fresh ▸ h) with less | rfl
    · obtain ⟨o, member, same, told⟩ := old.told x less
      refine ⟨o, member, same.trans (before x less).symm, told.imp (And.imp_left ?_) (And.imp_left ?_)⟩
      · rintro ⟨r, k, herald⟩
        exact ⟨r, k, kept r x k herald⟩
      · intro none_ r k herald
        rcases known r x k herald with ⟨-, was⟩ | ⟨-, rfl, -⟩
        · exact none_ r k was
        · exact lt_irrefl _ less
    · refine ⟨⟨key, m.isLeft⟩, old.origin m key had, newest.symm, ?_⟩
      rw [old.silent key unused, unspawned]
      rcases heralds with ⟨q, rfl, -, same⟩ | ⟨⟨c, rfl⟩, same⟩
      · exact .inl ⟨⟨q, key, by rw [same, Function.update_self]⟩, rfl⟩
      · refine .inr ⟨fun r k herald => ?_, rfl⟩
        exact lt_irrefl _ (old.heralds r _ k (same ▸ herald)).1
  · rw [said]
    refine old.silent k fun x less => ?_
    rw [← before x less]
    exact h x (by omega)

theorem narratedAnnounced {s t : State} {os : List Opening} {r x : Nat} {key : SessionId × StreamId} (old : Narrated os s)
    (once : (os.map Opening.key).Nodup) (spawning : Spawning s) (had : s.heralds r = some (x, key))
    (keying : t.keying = s.keying) (heralds : t.heralds = Function.update s.heralds r none) (fresh : t.fresh = s.fresh)
    (keys : t.key = s.key) (readers : t.reader = s.reader)
    (said : t.emitted = s.emitted ++ [.streamOpened key.1 key.2]) : Narrated os t := by
  obtain ⟨inside, named, accepted⟩ := old.heralds r x key had
  have unspawned := (spawning.waiting _ x (heraldSpawns had)).2
  have traces : ∀ k, t.trace k = s.trace k ++ if key = k then [.streamOpened key.1 key.2] else [] := by
    intro k
    rw [State.trace, said, List.filter_append]
    split <;> simp_all [Event.onStream, State.trace]
  have gone : ∀ q y k, t.heralds q = some (y, k) → s.heralds q = some (y, k) ∧ y ≠ x := by
    intro q y k h
    obtain ⟨other, was⟩ := updateNone (heralds ▸ h)
    refine ⟨was, ?_⟩
    rintro rfl
    exact other (Sum.inl.inj (spawning.alone _ _ y (heraldSpawns was) (heraldSpawns had)))
  refine ⟨by rw [fresh, keys, keying]; exact old.names, by rw [keying]; exact old.origin,
    fun q y k h => ?_, fun y h => ?_, fun k h => ?_⟩
  · rw [fresh, keys]
    exact old.heralds q y k (gone q y k h).1
  · rw [keys, readers]
    obtain ⟨o, member, same, told⟩ := old.told y (fresh ▸ h)
    refine ⟨o, member, same, ?_⟩
    rw [traces]
    by_cases mine : y = x
    · subst mine
      cases openedOnce once member accepted (same.trans named)
      rcases told with ⟨-, nothing⟩ | ⟨none_, -⟩
      · refine .inr ⟨fun q k herald => (gone q y k herald).2 rfl, ?_⟩
        simp [nothing, unspawned, Reader.said, Opening.heading]
      · exact absurd had (none_ r key)
    · have apart : key ≠ o.key := fun eq =>
        mine (old.names.apart y x (fresh ▸ h) inside (same.symm.trans (eq.symm.trans named.symm)))
      rw [if_neg apart, List.append_nil]
      refine told.imp (And.imp_left ?_) (And.imp_left ?_)
      · rintro ⟨q, k, herald⟩
        refine ⟨q, k, ?_⟩
        rw [heralds, Function.update_of_ne, herald]
        rintro rfl
        rw [had] at herald
        cases herald
        exact mine rfl
      · intro none_ q k herald
        exact none_ q k (gone q y k herald).1
  · rw [fresh, keys] at h
    have apart : key ≠ k := fun eq => h x inside (named.trans eq)
    rw [traces, if_neg apart, List.append_nil]
    exact old.silent k h

theorem narratedRead {s t : State} {os : List Opening} {y : Nat} {input : Input} {reader' : Reader} {e : Effect}
    (old : Narrated os s) (keyed : Keyed s) (spawning : Spawning s)
    (move : ReaderMove (s.key y).1 (s.key y).2 (s.reader y) input reader' e) (keying : t.keying = s.keying)
    (heralds : t.heralds = s.heralds) (fresh : t.fresh = s.fresh) (keys : t.key = s.key)
    (readers : t.reader = Function.update s.reader y reader') (said : t.emitted = s.emitted ++ e.events) : Narrated os t := by
  have inside : y < s.fresh := readerInside keyed.beyond move
  have traces : ∀ k, t.trace k = s.trace k ++ e.events.filter (Event.onStream k) := by
    intro k
    rw [State.trace, said, List.filter_append]
    rfl
  have none_ : ∀ r k, s.heralds r ≠ some (y, k) := by
    intro r k herald
    have unspawned := (spawning.waiting _ y (heraldSpawns herald)).2
    rw [unspawned] at move
    cases move
  refine ⟨by rw [fresh, keys, keying]; exact old.names, by rw [keying]; exact old.origin,
    by rw [fresh, keys, heralds]; exact old.heralds, fun x h => ?_, fun k h => ?_⟩
  · rw [keys, readers, heralds]
    obtain ⟨o, member, named, told⟩ := old.told x (fresh ▸ h)
    refine ⟨o, member, named, ?_⟩
    rw [traces]
    by_cases mine : x = y
    · subst mine
      rcases told with ⟨⟨r, k, herald⟩, -⟩ | ⟨-, whole⟩
      · exact absurd herald (none_ r k)
      · refine .inr ⟨none_, ?_⟩
        rw [← named] at move
        rw [whole, Function.update_self, readerSaid move, List.append_assoc]
    · have apart : s.key y ≠ o.key := fun eq =>
        mine (old.names.apart x y (fresh ▸ h) inside (named.symm.trans eq.symm))
      rw [Function.update_of_ne mine, readerAside move apart, List.append_nil]
      exact told
  · rw [fresh, keys] at h
    rw [traces, readerAside move (h y inside), List.append_nil]
    exact old.silent k h

theorem narratedStep {role s a t os} (step : Move role s a t) (keyed : Keyed s) (spawning : Spawning s)
    (once : ((os ++ (s.given a).toList).map Opening.key).Nodup) (old : Narrated os s) :
    Narrated (os ++ (s.given a).toList) t := by
  have within : ∀ o ∈ os, o ∈ os ++ (s.given a).toList := fun o => List.mem_append_left _
  cases traceMoves step keyed with
  | still given keying heralds fresh keys readers said =>
    rw [given, Option.toList_none, List.append_nil]
    refine narratedAside (fun o h => h) old ?_ ?_ heralds fresh keys (by simp [readers]) said
    · rw [fresh, keys, keying]
      exact old.names
    · rw [keying]
      exact old.origin
  | @named m key given keying heralds fresh keys readers said =>
    refine narratedAside within old ?_ (fun n k h => ?_) heralds fresh keys (by simp [readers]) said
    · rw [fresh, keys, keying]
      refine namesGiven (fun known => ?_) (fun v h => ?_) ?_ old.names
      · rw [given, Option.toList_some, List.map_append, List.nodup_append] at once
        exact once.2.2 key known key (by simp) rfl
      · rw [List.map_append]
        exact List.mem_append_left _ h
      · rw [given]
        simp
    · rw [keying] at h
      rcases updateSome h with ⟨rfl, rfl⟩ | ⟨-, was⟩
      · rw [given]
        simp
      · exact within _ (old.origin n k was)
  | registered given had keying heralds fresh keys readers mapped said =>
    rw [given, Option.toList_none, List.append_nil]
    exact narratedRegistered old keyed had keying heralds fresh keys readers said
  | announced given had keying heralds fresh keys readers said =>
    rw [given, Option.toList_none, List.append_nil] at once ⊢
    exact narratedAnnounced old once spawning had keying heralds fresh keys readers said
  | @spawned m x given had keying heralds fresh keys readers said =>
    rw [given, Option.toList_none, List.append_nil]
    have unspawned := (spawning.waiting m x had).2
    refine narratedAside (fun o h => h) old ?_ ?_ heralds fresh keys (fun y key => ?_) said
    · rw [fresh, keys, keying]
      exact old.names
    · rw [keying]
      exact old.origin
    · rw [readers]
      by_cases same : y = x
      · subst same
        rw [Function.update_self, unspawned]
        rfl
      · rw [Function.update_of_ne same]
  | read same move keying heralds fresh keys readers said =>
    subst same
    simp only [State.given, Option.toList_none, List.append_nil]
    exact narratedRead old keyed spawning move keying heralds fresh keys readers said

/-! What a reader has been given, and what it makes of it. -/

def Label.heard (x : Nat) : Label → Option Input
  | .reader y input => if y = x then some input else none
  | _ => none

def heard (x : Nat) (labels : List Label) : List Input := labels.filterMap (Label.heard x)

def Whole (inputs : List Input) (text : String) : Prop :=
  ∃ (chunks : List Bytes) (rest : List Input),
    inputs = chunks.map .chunk ++ .finished :: rest ∧ Utf8.decode chunks.flatten = some text

def Spoilt (inputs : List Input) : Prop :=
  ∃ (chunks : List Bytes) (rest : List Input), inputs = chunks.map .chunk ++ .failed :: rest ∨
    inputs = chunks.map .chunk ++ .finished :: rest ∧ Utf8.decode chunks.flatten = none

inductive Hears : Reader → List Input → Prop where
  | unspawned : Hears .unspawned []
  | reading (chunks : List Bytes) : Hears (.reading chunks.flatten) (chunks.map .chunk)
  | telling {chunks : List Bytes} {text : String} (valid : Utf8.decode chunks.flatten = some text) :
      Hears (.telling text) (chunks.map .chunk ++ [.finished])
  | told {chunks : List Bytes} {text : String} (valid : Utf8.decode chunks.flatten = some text) :
      Hears (.closing (some text)) (chunks.map .chunk ++ [.finished, .go])
  | garbled {chunks : List Bytes} (invalid : Utf8.decode chunks.flatten = none) :
      Hears (.closing none) (chunks.map .chunk ++ [.finished])
  | lost (chunks : List Bytes) : Hears (.closing none) (chunks.map .chunk ++ [.failed])
  | ended {told inputs} (before : Hears (.closing told) inputs) : Hears (.ended told) (inputs ++ [.go])

theorem readerHears {id t reader input reader' e inputs} (move : ReaderMove id t reader input reader' e)
    (old : Hears reader inputs) : Hears reader' (inputs ++ [input]) := by
  cases move with
  | chunk buffer bytes =>
    cases old with
    | reading chunks => simpa using Hears.reading (chunks ++ [bytes])
  | whole valid =>
    cases old with
    | reading chunks => exact .telling valid
  | garbled invalid =>
    cases old with
    | reading chunks => exact .garbled invalid
  | lost buffer =>
    cases old with
    | reading chunks => exact .lost chunks
  | tell text =>
    cases old with
    | telling valid => simpa using Hears.told valid
  | close told => exact .ended old

theorem firstAfterChunks {as bs : List Bytes} {a b : Input} {rest more : List Input} (noChunk : ∀ bytes, a ≠ .chunk bytes)
    (noChunk' : ∀ bytes, b ≠ .chunk bytes) (same : as.map .chunk ++ a :: rest = bs.map .chunk ++ b :: more) :
    as = bs ∧ a = b := by
  induction as generalizing bs with
  | nil =>
    cases bs with
    | nil => exact ⟨rfl, (List.cons.inj same).1⟩
    | cons c bs => exact absurd (List.cons.inj same).1 (noChunk c)
  | cons c as ih =>
    cases bs with
    | nil => exact absurd (List.cons.inj same).1.symm (noChunk' c)
    | cons d bs =>
      obtain ⟨first, later⟩ := List.cons.inj same
      obtain ⟨rfl, tail⟩ := ih later
      exact ⟨by rw [Input.chunk.inj first], tail⟩

theorem noneAfterChunks {as bs : List Bytes} {b : Input} {more : List Input} (noChunk : ∀ bytes, b ≠ .chunk bytes) :
    as.map Input.chunk ≠ bs.map .chunk ++ b :: more := by
  intro same
  have member : b ∈ as.map Input.chunk := by simp [same]
  obtain ⟨bytes, -, eq⟩ := List.mem_map.mp member
  exact noChunk bytes eq.symm

def Reader.result : Reader → Option (Option String)
  | .telling text => some (some text)
  | .closing told | .ended told => some told
  | _ => none

theorem hearsResult {reader inputs} (hears : Hears reader inputs) :
    (∀ text, Whole inputs text ↔ reader.result = some (some text)) ∧ (Spoilt inputs ↔ reader.result = some none) := by
  -- every reader past its reading has heard chunks and then one thing that ended them
  have open_ : ∀ chunks : List Bytes, (∀ text, ¬ Whole (chunks.map .chunk) text) ∧ ¬ Spoilt (chunks.map .chunk) := by
    refine fun chunks => ⟨?_, ?_⟩
    · rintro text ⟨others, rest, same, -⟩
      exact noneAfterChunks (by simp) same
    · rintro ⟨others, rest, same | ⟨same, -⟩⟩ <;> exact noneAfterChunks (by simp) same
  have finished : ∀ (chunks : List Bytes) (rest : List Input),
      (∀ text, Whole (chunks.map .chunk ++ .finished :: rest) text ↔ Utf8.decode chunks.flatten = some text) ∧
      (Spoilt (chunks.map .chunk ++ .finished :: rest) ↔ Utf8.decode chunks.flatten = none) := by
    refine fun chunks rest => ⟨fun text => ⟨?_, fun valid => ⟨chunks, rest, rfl, valid⟩⟩,
      ⟨?_, fun invalid => ⟨chunks, rest, .inr ⟨rfl, invalid⟩⟩⟩⟩
    · rintro ⟨others, more, same, valid⟩
      rwa [(firstAfterChunks (by simp) (by simp) same).1]
    · rintro ⟨others, more, same | ⟨same, invalid⟩⟩
      · cases (firstAfterChunks (by simp) (by simp) same).2
      · rwa [(firstAfterChunks (by simp) (by simp) same).1]
  have failed : ∀ (chunks : List Bytes) (rest : List Input),
      (∀ text, ¬ Whole (chunks.map .chunk ++ .failed :: rest) text) ∧ Spoilt (chunks.map .chunk ++ .failed :: rest) := by
    refine fun chunks rest => ⟨?_, ⟨chunks, rest, .inl rfl⟩⟩
    rintro text ⟨others, more, same, -⟩
    cases (firstAfterChunks (by simp) (by simp) same).2
  have closing : ∀ told inputs more, Hears (.closing told) inputs → (∀ text, Whole (inputs ++ more) text ↔ told = some text) ∧
      (Spoilt (inputs ++ more) ↔ told = none) := by
    intro told inputs more before
    cases before with
    | @told chunks text valid => simp [finished, valid]
    | @garbled chunks invalid => simp [finished, invalid]
    | lost chunks => simp [failed]
  cases hears with
  | unspawned => simpa [Reader.result] using open_ []
  | reading chunks => simpa [Reader.result] using open_ chunks
  | @telling chunks text valid => simp [finished, valid, Reader.result]
  | @told chunks text valid => simpa [Reader.result] using closing _ _ [] (.told valid)
  | @garbled chunks invalid => simpa [Reader.result] using closing _ _ [] (.garbled invalid)
  | lost chunks => simpa [Reader.result] using closing _ _ [] (.lost chunks)
  | ended before => simpa [Reader.result] using closing _ _ [.go] before

theorem hearsStep {role s a t labels} (step : Move role s a t) (keyed : Keyed s) (spawning : Spawning s)
    (old : ∀ x, Hears (s.reader x) (heard x labels)) : ∀ x, Hears (t.reader x) (heard x (labels ++ [a])) := by
  intro x
  have quiet : ∀ {reader : Reader}, a.heard x = none → Hears reader (heard x labels) →
      Hears reader (heard x (labels ++ [a])) := by
    intro reader unheard hears
    simpa [heard, unheard] using hears
  by_cases reads : ∃ y input, a = .reader y input
  · obtain ⟨y, input, rfl⟩ := reads
    cases step with
    | reader move =>
      rw [readerRead move]
      by_cases mine : x = y
      · subst mine
        rw [Function.update_self]
        simpa [heard, Label.heard] using readerHears move (old x)
      · rw [Function.update_of_ne mine]
        exact quiet (by simp [Label.heard, Ne.symm mine]) (old x)
  · have unheard : a.heard x = none := by
      cases a with
      | reader y input => exact absurd ⟨y, input, rfl⟩ reads
      | _ => rfl
    have readers : t.reader x = s.reader x ∨ (s.reader x = .unspawned ∧ t.reader x = .reading []) := by
      cases traceMoves step keyed with
      | @spawned m y given had keying heralds fresh keys readers said =>
        by_cases same : x = y
        · subst same
          exact .inr ⟨(spawning.waiting m x had).2, by rw [readers, Function.update_self]⟩
        · exact .inl (by rw [readers, Function.update_of_ne same])
      | @read y input reader' e same => exact absurd ⟨y, input, same⟩ reads
      | still | named | registered | announced => exact .inl (by simp [*])
    rcases readers with same | ⟨unspawned, spawned⟩
    · rw [same]
      exact quiet unheard (old x)
    · rw [spawned]
      have nothing := old x
      rw [unspawned] at nothing
      refine quiet unheard ?_
      generalize heard x labels = inputs at nothing ⊢
      cases nothing
      exact .reading []

/-! Whole runs. -/

structure Telling (role : Role) (labels : List Label) (s : State) : Prop where
  spawning : Spawning s
  traced : Narrated (openings role labels) s
  hears : ∀ x, Hears (s.reader x) (heard x labels)

theorem tellingInit (role : Role) : Telling role [] (init role) := by
  have keying : ∀ m, (init role).keying m = none := by
    rintro (r | c)
    · cases role <;> by_cases zero : r = 0 <;> simp [State.keying, State.party, init, zero, Phase.keying]
    · cases role <;> simp [State.keying, State.party, init]
  have spawner : ∀ m, (init role).spawner m = none := by
    rintro (r | c)
    · cases role <;> by_cases zero : r = 0 <;> simp [State.spawner, State.party, init, zero, Phase.spawner]
    · cases role <;> simp [State.spawner, State.party, init]
  have heralds : ∀ r, (init role).heralds r = none := by
    intro r
    cases role <;> by_cases zero : r = 0 <;> simp [State.heralds, init, zero, Phase.heralds]
  have empty : (init role).fresh = 0 := by cases role <;> rfl
  have traces : ∀ key, (init role).trace key = [] := by
    intro key
    cases role <;> simp [State.trace, init, Event.onStream]
  refine ⟨⟨fun m x h => ?_, fun m n x h => ?_⟩, ⟨⟨fun x h => ?_, fun x y h => ?_, fun m u h => ?_, fun m n u h => ?_⟩,
    fun m key h => ?_, fun r x key h => ?_, fun x h => ?_, fun key _ => traces key⟩, fun x => ?_⟩
  · rw [spawner] at h; cases h
  · rw [spawner] at h; cases h
  · rw [empty] at h; cases h
  · rw [empty] at h; cases h
  · rw [keying] at h; cases h
  · rw [keying] at h; cases h
  · rw [keying] at h; cases h
  · rw [heralds] at h; cases h
  · rw [empty] at h; cases h
  · cases role <;> exact .unspawned

theorem openingsSnoc {role labels s a} (ran : run (step role) (init role) labels = some s) :
    openings role (labels ++ [a]) = openings role labels ++ (s.given a).toList :=
  notedSnoc ran

theorem tellingRun {role labels s} (ran : run (step role) (init role) labels = some s)
    (once : ((openings role labels).map Opening.key).Nodup) : Telling role labels s := by
  refine runHistory (P := fun labels s => ((openings role labels).map Opening.key).Nodup → Telling role labels s)
    (fun _ => tellingInit role) (fun as s a t before old one once => ?_) ran once
  rw [openingsSnoc before] at once
  have sofar := old (by rw [List.map_append] at once; exact (List.nodup_append.mp once).1)
  have move := moves one
  have keyed := keyedRun before
  refine ⟨spawningStep (streamMoves move keyed) keyed sofar.spawning, ?_, hearsStep move keyed sofar.spawning sofar.hears⟩
  rw [openingsSnoc before]
  exact narratedStep move keyed sofar.spawning once sofar.traced

theorem registeredBefore {role labels s} (ran : run (step role) (init role) labels = some s) {x : Nat}
    (registered : x < s.fresh) : ∃ p b q, Takes (step role) (init role) labels p b q ∧
      p.fresh = x ∧ q.fresh = x + 1 ∧ q.streams (s.key x) = some x := by
  refine runHistory (P := fun labels s => ∀ x, x < s.fresh → ∃ p b q, Takes (step role) (init role) labels p b q ∧
    p.fresh = x ∧ q.fresh = x + 1 ∧ q.streams (s.key x) = some x) (fun x h => ?_) (fun as s a t before old one x h => ?_)
    ran x registered
  · cases role <;> cases h
  · have earlier : x < s.fresh → ∃ p b q, Takes (step role) (init role) (as ++ [a]) p b q ∧
        p.fresh = x ∧ q.fresh = x + 1 ∧ q.streams (t.key x) = some x := by
      intro less
      obtain ⟨p, b, q, ⟨first, rest, rfl, reached, taken⟩, was⟩ := old x less
      rw [State.key, (moveKeys (moves one)).2 x less]
      exact ⟨p, b, q, ⟨first, rest ++ [a], by simp, reached, taken⟩, was⟩
    cases traceMoves (moves one) (keyedRun before) with
    | @registered m key given had keying heralds fresh keys readers mapped said =>
      rcases Nat.lt_succ_iff_lt_or_eq.mp (fresh ▸ h) with less | rfl
      · exact earlier less
      · refine ⟨s, a, t, ⟨as, [], rfl, before, one⟩, rfl, fresh, ?_⟩
        rw [keys, Function.update_self]
        exact mapped
    | still | named | announced | spawned | read => exact earlier (by simp_all)

theorem speaksInside {role s a t os} {event : Event} {key : SessionId × StreamId} (step : Move role s a t) (keyed : Keyed s)
    (traced : Narrated os s) (emitted : t.emitted = s.emitted ++ [event]) (about : Event.onStream key event = true) :
    ∃ x, x < s.fresh ∧ s.key x = key := by
  have grows : t.trace key = s.trace key ++ [event] := by
    rw [State.trace, emitted, List.filter_append]
    simp [about, State.trace]
  have longer : t.trace key ≠ s.trace key := by simp [grows]
  cases traceMoves step keyed with
  | @announced r x key' given had keying heralds fresh keys readers said =>
    obtain ⟨inside, named, -⟩ := traced.heralds r x key' had
    have same := List.append_cancel_left (said.symm.trans emitted)
    cases List.cons.inj same |>.1
    refine ⟨x, inside, named.trans ?_⟩
    simpa [Event.onStream] using about
  | @read y input reader' e same move keying heralds fresh keys readers said =>
    refine ⟨y, readerInside keyed.beyond move, ?_⟩
    by_contra apart
    refine longer ?_
    rw [State.trace, said, List.filter_append, readerAside move apart, List.append_nil]
    rfl
  | still given keying heralds fresh keys readers said => exact absurd (by rw [said]) longer
  | named given keying heralds fresh keys readers said => exact absurd (by rw [said]) longer
  | registered given had keying heralds fresh keys readers mapped said => exact absurd (by rw [said]) longer
  | spawned given had keying heralds fresh keys readers said => exact absurd (by rw [said]) longer

structure StreamTrace (role : Role) (labels : List Label) (s : State) (o : Opening) : Prop where
  order : ∃ data, s.trace o.key <+: o.story data
  once : ∀ x y, x < s.fresh → y < s.fresh → s.key x = o.key → s.key y = o.key → x = y
  closed : ∀ x, x < s.fresh → s.key x = o.key →
    (.streamClosed o.key.1 o.key.2 ∈ s.trace o.key ↔ ∃ told, s.reader x = .ended told)
  ended : ∀ x told, x < s.fresh → s.key x = o.key → s.reader x = .ended told → s.trace o.key = o.story told
  data : ∀ x text, x < s.fresh → s.key x = o.key →
    (Whole (heard x labels) text ↔ s.reader x = .telling text ∨ .streamData o.key.1 o.key.2 text ∈ s.trace o.key)
  spoilt : ∀ x, x < s.fresh → s.key x = o.key → Spoilt (heard x labels) →
    (∀ text, .streamData o.key.1 o.key.2 text ∉ s.trace o.key) ∧ (s.reader x = .closing none ∨ s.reader x = .ended none)
  onward : ∀ x, (s.reader x).result ≠ none → (∃ told, s.reader x = .ended told) ∨ ∃ t, step role s (.reader x .go) = some t
  registered : ∀ before a after u v event, labels = before ++ a :: after →
    run (step role) (init role) before = some u → step role u a = some v → v.emitted = u.emitted ++ [event] →
    Event.onStream o.key event = true → ∃ p b q, Takes (step role) (init role) before p b q ∧ q.streams o.key = some p.fresh

theorem readerOnward (role : Role) (s : State) {x : Nat} (result : (s.reader x).result ≠ none) :
    (∃ told, s.reader x = .ended told) ∨ ∃ t, step role s (.reader x .go) = some t := by
  cases reader : s.reader x with
  | unspawned => rw [reader] at result; exact absurd rfl result
  | reading buffer => rw [reader] at result; exact absurd rfl result
  | telling text =>
    have now : (s.exchanges x).reader = .telling text := reader
    exact .inr ⟨_, by simp only [step, now, readBiStream]; rfl⟩
  | closing told =>
    have now : (s.exchanges x).reader = .closing told := reader
    exact .inr ⟨_, by simp only [step, now, readBiStream]; rfl⟩
  | ended told => exact .inl ⟨told, rfl⟩

theorem saidStory {o : Opening} (reader : Reader) : ∃ data, o.heading ++ reader.said o.key <+: o.story data := by
  cases reader with
  | closing told =>
    cases told with
    | none => exact ⟨none, by simp [Reader.said, Opening.story]⟩
    | some text => exact ⟨some text, by simp [Reader.said, Opening.story]⟩
  | ended told => exact ⟨told, by simp [Reader.said, Opening.story]⟩
  | _ => exact ⟨none, by simp [Reader.said, Opening.story]⟩

theorem headingOnly {o : Opening} : .streamClosed o.key.1 o.key.2 ∉ o.heading ∧
    ∀ text, .streamData o.key.1 o.key.2 text ∉ o.heading := by
  unfold Opening.heading
  split <;> simp

theorem streamTraced {role labels s} (ran : run (step role) (init role) labels = some s)
    (once : ((openings role labels).map Opening.key).Nodup) :
    ∀ o ∈ openings role labels, StreamTrace role labels s o := by
  intro o member
  have telling := tellingRun ran once
  have traced := telling.traced
  -- one stream has the key of `o`, and of it nothing is told before its reader is spawned
  have mine : ∀ x, x < s.fresh → s.key x = o.key → (s.reader x = .unspawned ∧ s.trace o.key = []) ∨
      s.trace o.key = o.heading ++ (s.reader x).said o.key := by
    intro x inside named
    obtain ⟨o', member', named', told⟩ := traced.told x inside
    cases openedOnce once member' member (named'.trans named)
    refine told.imp ?_ And.right
    rintro ⟨⟨r, key, herald⟩, nothing⟩
    exact ⟨(telling.spawning.waiting _ x (heraldSpawns herald)).2, nothing⟩
  obtain ⟨noClose, noData⟩ := headingOnly (o := o)
  refine ⟨?_, fun x y h h' same same' => traced.names.apart x y h h' (same.trans same'.symm), fun x inside named => ?_,
    fun x told inside named ended => ?_, fun x text inside named => ?_, fun x inside named spoilt => ?_,
    fun x => readerOnward role s, ?_⟩
  · by_cases some_ : ∃ x, x < s.fresh ∧ s.key x = o.key
    · obtain ⟨x, inside, named⟩ := some_
      rcases mine x inside named with ⟨-, nothing⟩ | whole
      · exact ⟨none, nothing ▸ List.nil_prefix⟩
      · exact whole ▸ saidStory (s.reader x)
    · refine ⟨none, ?_⟩
      rw [traced.silent o.key fun x inside named => some_ ⟨x, inside, named⟩]
      exact List.nil_prefix
  · rcases mine x inside named with ⟨unspawned, nothing⟩ | whole
    · simp [nothing, unspawned]
    · rw [whole]
      cases reader : s.reader x with
      | closing told => cases told <;> simp [Reader.said, noClose]
      | ended told => simp [Reader.said]
      | _ => simp [Reader.said, noClose]
  · rcases mine x inside named with ⟨unspawned, -⟩ | whole
    · rw [unspawned] at ended; cases ended
    · rw [whole, ended, Reader.said, Opening.story, List.append_assoc]
  · rw [(hearsResult (telling.hears x)).1 text]
    rcases mine x inside named with ⟨unspawned, nothing⟩ | whole
    · simp [nothing, unspawned, Reader.result]
    · rw [whole]
      cases reader : s.reader x with
      | closing told => cases told <;> simp [Reader.said, Reader.result, noData, eq_comm]
      | ended told => cases told <;> simp [Reader.said, Reader.result, noData, eq_comm]
      | _ => simp [Reader.said, Reader.result, noData]
  · have result := (hearsResult (telling.hears x)).2.mp spoilt
    rcases mine x inside named with ⟨unspawned, -⟩ | whole
    · rw [unspawned] at result; cases result
    · rw [whole]
      cases reader : s.reader x with
      | closing told =>
        rw [reader] at result
        cases told <;> simp_all [Reader.said, Reader.result]
      | ended told =>
        rw [reader] at result
        cases told <;> simp_all [Reader.said, Reader.result]
      | _ => rw [reader] at result; cases result
  · rintro before a after u v event rfl reached one emitted about
    have sofar : ((openings role before).map Opening.key).Nodup := by
      rw [openings, notedAppend reached, List.map_append] at once
      exact (List.nodup_append.mp once).1
    obtain ⟨x, inside, named⟩ := speaksInside (moves one) (keyedRun reached) (tellingRun reached sofar).traced emitted about
    obtain ⟨p, b, q, takes, rfl, -, mapped⟩ := registeredBefore reached inside
    exact ⟨p, b, q, takes, named ▸ mapped⟩

def askedInPieces : List Label :=
  [.incoming 0, .task 0 (.requested "till" "/rk"), .task 0 .accepted, .task 0 .go, .task 0 .go, .task 0 .go,
    .task 0 (.bi 4), .task 0 .go, .task 0 .go, .task 0 .go, .reader 0 (.chunk [0xC3]), .reader 0 (.chunk [0xA9]),
    .reader 0 .finished, .reader 0 .go, .reader 0 .go]

theorem askedInPiecesTraced : ∃ s, run (step (.server "/rk")) (init (.server "/rk")) askedInPieces = some s ∧
    s.trace (1, 4) = [.streamOpened 1 4, .streamData 1 4 "é", .streamClosed 1 4] ∧
    StreamTrace (.server "/rk") askedInPieces s ⟨(1, 4), true⟩ := by
  have opened : openings (.server "/rk") askedInPieces = [⟨(1, 4), true⟩] := by decide
  have said : (run (step (.server "/rk")) (init (.server "/rk")) askedInPieces).map (fun s => s.trace (1, 4)) =
      some [.streamOpened 1 4, .streamData 1 4 "é", .streamClosed 1 4] := by decide
  obtain ⟨s, ran, trace⟩ := Option.map_eq_some_iff.mp said
  exact ⟨s, ran, trace, streamTraced ran (by rw [opened]; decide) _ (by rw [opened]; exact List.mem_singleton_self _)⟩

end RkQuic.Endpoint
