import RkQuic.LastWord
import RkQuic.StreamClose

/-! The readers of an endpoint's streams. Whoever registers a stream spawns its reader,
once; a reader reports its text once and then its end. Seen from the network, a stream
has the name under which it was opened or accepted, and the layer below never gives the
same name twice. -/
namespace RkQuic.Endpoint
open Runs Naming

def State.stream (s : State) (x : Nat) : StreamId := (s.exchanges x).stream

def State.reader (s : State) (x : Nat) : Reader := (s.exchanges x).reader

def Phase.naming : Phase → Option StreamId
  | .serving _ (.registering t) => some t
  | _ => none

def Call.naming : Call → Option StreamId
  | ⟨.openStream _, .registering t, _⟩ => some t
  | _ => none

def Phase.spawner : Phase → Option Nat
  | .serving _ (.announcing _ x) | .serving _ (.spawning x) => some x
  | _ => none

def Call.spawner : Call → Option Nat
  | ⟨.openStream _, .spawning _ x, _⟩ => some x
  | _ => none

section Party
variable {α : Type} (f : Phase → Option α) (g : Call → Option α)

/-- What each party is at: tasks on the left, calls on the right. -/
def State.party (s : State) : Nat ⊕ Nat → Option α
  | .inl r => (s.tasks r).bind f
  | .inr c => (s.calls c).bind g

theorem partyTask {s t : State} {r p'} (tasks : t.tasks = Function.update s.tasks r (some p'))
    (calls : t.calls = s.calls) : t.party f g = Function.update (s.party f g) (.inl r) (f p') := by
  funext m
  cases m with
  | inl q => by_cases same : q = r <;> simp [State.party, tasks, same]
  | inr c => simp [State.party, calls]

theorem partyCall {s t : State} {c k'} (tasks : t.tasks = s.tasks)
    (calls : t.calls = Function.update s.calls c (some k')) :
    t.party f g = Function.update (s.party f g) (.inr c) (g k') := by
  funext m
  cases m with
  | inl q => simp [State.party, tasks]
  | inr d => by_cases same : d = c <;> simp [State.party, calls, same]

variable {f g}

theorem partyIncoming {s : State} {r p} (free : s.tasks r = none) (idle : f p = none) :
    State.party f g {s with tasks := Function.update s.tasks r (some p)} = s.party f g := by
  have after : State.party f g {s with tasks := Function.update s.tasks r (some p)} =
      Function.update (s.party f g) (.inl r) (f p) := partyTask f g rfl rfl
  exact after.trans (updateKeeps (by simp [State.party, free, idle]))

theorem partyEnter {s : State} {c k} (free : s.calls c = none) (idle : g k = none) :
    State.party f g {s with calls := Function.update s.calls c (some k)} = s.party f g := by
  have after : State.party f g {s with calls := Function.update s.calls c (some k)} =
      Function.update (s.party f g) (.inr c) (g k) := partyCall f g rfl rfl
  exact after.trans (updateKeeps (by simp [State.party, free, idle]))

end Party

def State.naming (s : State) : Nat ⊕ Nat → Option StreamId := s.party Phase.naming Call.naming

def State.spawner (s : State) : Nat ⊕ Nat → Option Nat := s.party Phase.spawner Call.spawner

def Label.names : Label → Option StreamId
  | .task _ (.bi t) => some t
  | .call _ (.opened t) => some t
  | _ => none

def Quietly (s t : State) : Prop := ∀ event, t.emitted = s.emitted ++ [event] → ¬ event.ofReader

inductive StreamMove (s : State) (a : Label) (t : State) : Prop where
  | still (quiet : Quietly s t) (unnamed : a.names = none) (naming : t.naming = s.naming) (spawner : t.spawner = s.spawner)
      (fresh : t.fresh = s.fresh) (streams : t.stream = s.stream) (readers : t.reader = s.reader)
  | named {m u} (quiet : Quietly s t) (name : a.names = some u) (naming : t.naming = Function.update s.naming m (some u))
      (spawner : t.spawner = s.spawner) (fresh : t.fresh = s.fresh) (streams : t.stream = s.stream)
      (readers : t.reader = s.reader)
  | registered {m u} (quiet : Quietly s t) (unnamed : a.names = none) (had : s.naming m = some u)
      (naming : t.naming = Function.update s.naming m none)
      (spawner : t.spawner = Function.update s.spawner m (some s.fresh)) (fresh : t.fresh = s.fresh + 1)
      (streams : t.stream = Function.update s.stream s.fresh u) (readers : t.reader = s.reader)
  | spawned {m x} (quiet : Quietly s t) (unnamed : a.names = none) (had : s.spawner m = some x) (naming : t.naming = s.naming)
      (spawner : t.spawner = Function.update s.spawner m none) (fresh : t.fresh = s.fresh)
      (streams : t.stream = s.stream) (readers : t.reader = Function.update s.reader x (.reading []))
  | read {y input reader' e} (same : a = .reader y input)
      (move : ReaderMove (s.exchanges y).session (s.stream y) (s.reader y) input reader' e)
      (naming : t.naming = s.naming) (spawner : t.spawner = s.spawner) (fresh : t.fresh = s.fresh)
      (streams : t.stream = s.stream) (readers : t.reader = Function.update s.reader y reader')
      (emitted : t.emitted = s.emitted ++ e.events)

def Effect.plain : Effect → Prop
  | .register _ _ | .spawn _ => False
  | _ => True

theorem plainStreams (s : State) {e : Effect} (plain : e.plain) :
    (s.apply e).fresh = s.fresh ∧ (s.apply e).stream = s.stream ∧ (s.apply e).reader = s.reader := by
  have each : ∀ x, ((s.apply e).exchanges x).stream = (s.exchanges x).stream ∧
      ((s.apply e).exchanges x).reader = (s.exchanges x).reader := by
    intro x
    cases e with
    | register id t => exact absurd plain not_false
    | spawn y => exact absurd plain not_false
    | take id t y c => simp only [State.apply, editExchange]; split_ifs <;> exact ⟨rfl, rfl⟩
    | acquire y c writes => simp only [State.apply, editExchange]; split_ifs <;> exact ⟨rfl, rfl⟩
    | put y chunk => simp only [State.apply, editExchange]; split_ifs <;> exact ⟨rfl, rfl⟩
    | finish y => simp only [State.apply, editExchange]; split_ifs <;> exact ⟨rfl, rfl⟩
    | release y failed => simp only [State.apply, editExchange]; split_ifs <;> exact ⟨rfl, rfl⟩
    | _ => exact ⟨rfl, rfl⟩
  refine ⟨?_, funext fun x => (each x).1, funext fun x => (each x).2⟩
  cases e with
  | register id t => exact absurd plain not_false
  | _ => rfl

theorem registerStreams {s : State} (keyed : Keyed s) (id : SessionId) (t : StreamId) :
    (s.apply (.register id t)).stream = Function.update s.stream s.fresh t ∧
      (s.apply (.register id t)).reader = s.reader := by
  refine ⟨funext fun x => ?_, funext fun x => ?_⟩
  · by_cases same : x = s.fresh <;> simp [State.stream, State.apply, same, Exchange.opened]
  · by_cases same : x = s.fresh
    · subst same
      simp [State.reader, State.apply, Exchange.opened, keyed.beyond]
    · simp [State.reader, State.apply, same]

theorem spawnStreams (s : State) (x : Nat) :
    (s.apply (.spawn x)).stream = s.stream ∧
      (s.apply (.spawn x)).reader = Function.update s.reader x (.reading []) := by
  refine ⟨funext fun y => ?_, funext fun y => ?_⟩
  · simp only [State.stream, State.apply, editExchange]
    split_ifs <;> rfl
  · by_cases same : y = x <;> simp [State.reader, State.apply, editExchange, same]

theorem taskStreams {role s r input p p' e} (keyed : Keyed s) (here : s.tasks r = some p)
    (move : TaskMove role s.next s.fresh r p input p' e) :
    StreamMove s (.task r input) {s.apply e with tasks := Function.update s.tasks r (some p')} := by
  have naming : State.naming {s.apply e with tasks := Function.update s.tasks r (some p')} =
      Function.update s.naming (.inl r) p'.naming := partyTask _ _ rfl (applyCalls s e)
  have spawner : State.spawner {s.apply e with tasks := Function.update s.tasks r (some p')} =
      Function.update s.spawner (.inl r) p'.spawner := partyTask _ _ rfl (applyCalls s e)
  have quiet : Quietly s {s.apply e with tasks := Function.update s.tasks r (some p')} := by
    intro event h
    cases eventsOne (List.append_cancel_left ((applyEmitted s e).symm.trans h))
    obtain ⟨-, -, -, other, -⟩ := taskSpeaks move
    exact other
  have namedNow : s.naming (.inl r) = p.naming := by simp [State.naming, State.party, here]
  have spawnsNow : s.spawner (.inl r) = p.spawner := by simp [State.spawner, State.party, here]
  have still : e.plain → (Label.task r input).names = none → p'.naming = p.naming →
      p'.spawner = p.spawner →
      StreamMove s (.task r input) {s.apply e with tasks := Function.update s.tasks r (some p')} := by
    intro plain unnamed sameName sameSpawner
    obtain ⟨fresh, streams, readers⟩ := plainStreams s plain
    exact .still quiet unnamed (naming.trans (updateKeeps (namedNow.trans sameName.symm)))
      (spawner.trans (updateKeeps (spawnsNow.trans sameSpawner.symm))) fresh streams readers
  cases move with
  | serve move =>
    cases move with
    | bi t =>
      exact .named quiet rfl naming (spawner.trans (updateKeeps spawnsNow)) rfl rfl rfl
    | register t =>
      obtain ⟨streams, readers⟩ := registerStreams keyed _ t
      exact .registered quiet rfl namedNow naming spawner rfl streams readers
    | spawn x =>
      obtain ⟨streams, readers⟩ := spawnStreams s x
      exact .spawned quiet rfl spawnsNow (naming.trans (updateKeeps namedNow)) spawner rfl streams readers
    | _ => exact still trivial rfl rfl rfl
  | _ => exact still trivial rfl rfl rfl

theorem callStreamMove {s c reply k k' e} (keyed : Keyed s) (here : s.calls c = some k)
    (move : CallMove s c k reply k' e) :
    StreamMove s (.call c reply) {s.apply e with calls := Function.update s.calls c (some k')} := by
  have naming : State.naming {s.apply e with calls := Function.update s.calls c (some k')} =
      Function.update s.naming (.inr c) k'.naming := partyCall _ _ (applyTasks s e) rfl
  have spawner : State.spawner {s.apply e with calls := Function.update s.calls c (some k')} =
      Function.update s.spawner (.inr c) k'.spawner := partyCall _ _ (applyTasks s e) rfl
  have quiet : Quietly s {s.apply e with calls := Function.update s.calls c (some k')} := by
    intro event h
    have same := (callKeeps move).2.1
    simp [same] at h
  have namedNow : s.naming (.inr c) = k.naming := by simp [State.naming, State.party, here]
  have spawnsNow : s.spawner (.inr c) = k.spawner := by simp [State.spawner, State.party, here]
  have still : e.plain → (Label.call c reply).names = none → k'.naming = k.naming →
      k'.spawner = k.spawner →
      StreamMove s (.call c reply) {s.apply e with calls := Function.update s.calls c (some k')} := by
    intro plain unnamed sameName sameSpawner
    obtain ⟨fresh, streams, readers⟩ := plainStreams s plain
    exact .still quiet unnamed (naming.trans (updateKeeps (namedNow.trans sameName.symm)))
      (spawner.trans (updateKeeps (spawnsNow.trans sameSpawner.symm))) fresh streams readers
  cases move with
  | opened t =>
    exact .named quiet rfl naming (spawner.trans (updateKeeps spawnsNow)) rfl rfl rfl
  | openRegister =>
    obtain ⟨streams, readers⟩ := registerStreams keyed _ _
    exact .registered quiet rfl namedNow naming spawner rfl streams readers
  | openSpawn =>
    obtain ⟨streams, readers⟩ := spawnStreams s _
    exact .spawned quiet rfl spawnsNow (naming.trans (updateKeeps namedNow)) spawner rfl streams readers
  | _ => exact still trivial rfl rfl rfl

theorem readerFresh (s : State) {id t reader input reader' e}
    (move : ReaderMove id t reader input reader' e) : (s.apply e).fresh = s.fresh := by
  cases move <;> rfl

theorem streamMoves {role s a t} (move : Move role s a t) (keyed : Keyed s) : StreamMove s a t := by
  cases move with
  | @incoming r expected server free =>
    refine .still (fun event h => by simp at h) rfl ?_ ?_ rfl rfl rfl
    · exact partyIncoming free rfl
    · exact partyIncoming free rfl
  | task here step => exact taskStreams keyed here step
  | @reader y input reader' e step =>
    have exchanges := readerExchanges (s.edit y (fun ex => {ex with reader := reader'})) step
    refine .read rfl step ?_ ?_ ?_ ?_ ?_ (applyEmitted ..)
    · funext m
      cases m <;> simp [State.naming, State.party]
    · funext m
      cases m <;> simp [State.spawner, State.party]
    · exact readerFresh (s.edit y _) step
    · funext x
      simp only [State.stream, exchanges, editExchange]
      split_ifs <;> rfl
    · funext x
      by_cases same : x = y <;> simp [State.reader, exchanges, editExchange, same]
  | @enter c method free =>
    refine .still (fun event h => by simp at h) rfl ?_ ?_ rfl rfl rfl
    · exact partyEnter free (by cases method <;> rfl)
    · exact partyEnter free (by cases method <;> rfl)
  | call here step => exact callStreamMove keyed here step

def Named (names : List StreamId) (s : State) : Prop := Names names s.fresh s.stream s.naming

theorem namedStep {s a t names} (move : StreamMove s a t) (new : ∀ u, a.names = some u → u ∉ names)
    (old : Named names s) : Named (a.names.toList ++ names) t := by
  unfold Named at old ⊢
  cases move with
  | still quiet unnamed naming spawner fresh streams readers =>
    rw [unnamed, naming, fresh, streams]
    exact old
  | @named m u quiet name naming spawner fresh streams readers =>
    rw [name, naming, fresh, streams]
    exact namesGiven (new u name) (fun v h => List.mem_cons_of_mem _ h) List.mem_cons_self old
  | registered quiet unnamed had naming spawner fresh streams readers =>
    rw [unnamed, naming, fresh, streams]
    exact namesPlaced had old
  | spawned quiet unnamed had naming spawner fresh streams readers =>
    rw [unnamed, naming, fresh, streams]
    exact old
  | read same move naming spawner fresh streams readers emitted =>
    subst same
    rw [naming, fresh, streams]
    exact old

structure Spawning (s : State) : Prop where
  waiting : ∀ m x, s.spawner m = some x → x < s.fresh ∧ s.reader x = .unspawned
  alone : ∀ m n x, s.spawner m = some x → s.spawner n = some x → m = n

theorem spawningStep {s a t} (move : StreamMove s a t) (keyed : Keyed s) (old : Spawning s) :
    Spawning t := by
  cases move with
  | still quiet unnamed naming spawner fresh streams readers =>
    exact ⟨by rw [spawner, fresh, readers]; exact old.waiting, by rw [spawner]; exact old.alone⟩
  | named quiet name naming spawner fresh streams readers =>
    exact ⟨by rw [spawner, fresh, readers]; exact old.waiting, by rw [spawner]; exact old.alone⟩
  | @registered m u quiet unnamed had naming spawner fresh streams readers =>
    rw [funext_iff] at spawner
    refine ⟨fun n x h => ?_, fun n n' x h h' => ?_⟩
    · rw [spawner] at h
      rw [fresh, readers]
      rcases updateSome h with ⟨-, rfl⟩ | ⟨-, was⟩
      · exact ⟨Nat.lt_succ_self _, by rw [State.reader, keyed.beyond _ le_rfl]; rfl⟩
      · exact ⟨Nat.lt_succ_of_lt (old.waiting n x was).1, (old.waiting n x was).2⟩
    · rw [spawner] at h h'
      rcases updateSome h with ⟨rfl, rfl⟩ | ⟨-, was⟩ <;> rcases updateSome h' with ⟨rfl, same⟩ | ⟨-, was'⟩
      · rfl
      · exact absurd (old.waiting _ _ was').1 (lt_irrefl _)
      · exact absurd (old.waiting _ _ was).1 (by rw [same]; exact lt_irrefl _)
      · exact old.alone n n' x was was'
  | @spawned m x quiet unnamed had naming spawner fresh streams readers =>
    refine ⟨fun n y h => ?_, fun n n' y h h' => ?_⟩
    · rw [spawner] at h
      obtain ⟨other, was⟩ := updateNone h
      have apart : y ≠ x := by
        rintro rfl
        exact other (old.alone n m y was had)
      rw [fresh, readers, Function.update_of_ne apart]
      exact old.waiting n y was
    · rw [spawner] at h h'
      exact old.alone n n' y (updateNone h).2 (updateNone h').2
  | @read y input reader' e same move naming spawner fresh streams readers emitted =>
    refine ⟨fun m x h => ?_, by rw [spawner]; exact old.alone⟩
    rw [spawner] at h
    obtain ⟨less, unspawned⟩ := old.waiting m x h
    have apart : x ≠ y := by
      rintro rfl
      rw [unspawned] at move
      cases move
    rw [fresh, readers, Function.update_of_ne apart]
    exact ⟨less, unspawned⟩

/-! What the readers have reported. -/

def Event.dataOn (t : StreamId) : Event → Option String
  | .streamData _ u text => if u = t then some text else none
  | _ => none

def Event.endOn (t : StreamId) (e : Event) : Prop := ∃ id, e = .streamClosed id t

def Reader.told : Reader → List String
  | .closing (some text) | .ended (some text) => [text]
  | _ => []

structure Reported (s : State) : Prop where
  told : ∀ x, x < s.fresh → s.emitted.filterMap (Event.dataOn (s.stream x)) = (s.reader x).told
  silent : ∀ u, (∀ x, x < s.fresh → s.stream x ≠ u) → s.emitted.filterMap (Event.dataOn u) = []

theorem quietData {s t : State} (one : t.emitted = s.emitted ∨ ∃ event, t.emitted = s.emitted ++ [event])
    (quiet : Quietly s t) (u : StreamId) :
    t.emitted.filterMap (Event.dataOn u) = s.emitted.filterMap (Event.dataOn u) := by
  rcases one with same | ⟨event, said⟩
  · rw [same]
  · have other := quiet event said
    rw [said, List.filterMap_append]
    cases event <;> simp_all [Event.dataOn, Event.ofReader]

theorem readerTells {id u reader input reader' e} (move : ReaderMove id u reader input reader' e) :
    reader'.told = reader.told ++ e.events.filterMap (Event.dataOn u) := by
  cases move with
  | chunk | whole | garbled | lost => simp [Effect.events, Reader.told]
  | tell text => simp [Effect.events, Event.dataOn, Reader.told]
  | close told => cases told <;> simp [Effect.events, Event.dataOn, Reader.told]

theorem readerElsewhere {id u reader input reader' e} (move : ReaderMove id u reader input reader' e)
    {v : StreamId} (other : u ≠ v) : e.events.filterMap (Event.dataOn v) = [] := by
  cases move <;> simp [Effect.events, Event.dataOn, other]

theorem reportedStep {role s a t names} (step : Move role s a t) (keyed : Keyed s) (spawning : Spawning s)
    (distinct : Named names s) (old : Reported s) : Reported t := by
  have one := emitsOne step
  have aside : Quietly s t → t.fresh = s.fresh → t.stream = s.stream → t.reader = s.reader → Reported t := by
    intro quiet fresh streams readers
    refine ⟨fun x h => ?_, fun u h => ?_⟩
    · rw [quietData one quiet, streams, readers]
      exact old.told x (fresh ▸ h)
    · rw [quietData one quiet]
      exact old.silent u fun x less => by rw [← streams]; exact h x (fresh ▸ less)
  cases streamMoves step keyed with
  | still quiet unnamed naming spawner fresh streams readers => exact aside quiet fresh streams readers
  | named quiet name naming spawner fresh streams readers => exact aside quiet fresh streams readers
  | @registered m u quiet unnamed had naming spawner fresh streams readers =>
    have unused := (distinct.coming m u had).2
    refine ⟨fun x h => ?_, fun v h => ?_⟩
    · rw [quietData one quiet, streams, readers]
      by_cases newest : x = s.fresh
      · subst newest
        rw [Function.update_self, old.silent u unused, State.reader, keyed.beyond _ le_rfl]
        rfl
      · rw [Function.update_of_ne newest]
        exact old.told x (by omega)
    · rw [quietData one quiet]
      refine old.silent v fun x less => ?_
      have apart := h x (by omega)
      rwa [streams, Function.update_of_ne (by omega)] at apart
  | @spawned m x quiet unnamed had naming spawner fresh streams readers =>
    obtain ⟨-, unspawned⟩ := spawning.waiting m x had
    refine ⟨fun y h => ?_, fun u h => ?_⟩
    · rw [quietData one quiet, streams, readers, old.told y (fresh ▸ h)]
      by_cases same : y = x
      · subst same
        rw [unspawned, Function.update_self]
        rfl
      · rw [Function.update_of_ne same]
    · rw [quietData one quiet]
      exact old.silent u fun y less => by rw [← streams]; exact h y (fresh ▸ less)
  | @read y input reader' e same move naming spawner fresh streams readers emitted =>
    have inside : y < s.fresh := readerInside keyed.beyond move
    refine ⟨fun x h => ?_, fun u h => ?_⟩
    · rw [fresh] at h
      rw [emitted, List.filterMap_append, streams, readers, old.told x h]
      by_cases mine : x = y
      · subst mine
        rw [Function.update_self]
        exact (readerTells move).symm
      · rw [Function.update_of_ne mine, readerElsewhere move, List.append_nil]
        exact fun same => mine (distinct.apart x y h inside same.symm)
    · rw [emitted, List.filterMap_append, old.silent u fun x less => ?_, readerElsewhere move]
      · rfl
      · rw [← streams]
        exact h y (by omega)
      · rw [← streams]
        exact h x (by omega)

end RkQuic.Endpoint
