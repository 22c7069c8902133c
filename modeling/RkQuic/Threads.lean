import RkQuic.Event
import RkQuic.Locks
import RkQuic.Registry

/-! Which thread holds which lock: the calls of the boundary and the tasks of all endpoints,
operation by operation. A map is behind one lock, and an operation on it is one stay under
that lock. What is written, queued and answered is in `Endpoint` and in `Registry`; here are
the maps, the reference counts and the locks. -/
namespace RkQuic.Threads
open Locks Runs
open Registry (Handle)

inductive Lock where
  | registry
  | sessions (e : Nat)
  | streams (e : Nat)
  | events (e : Nat)
  | inner (k : Nat)
  deriving DecidableEq, Repr

def Lock.wide : Lock → Prop
  | .registry | .sessions _ | .streams _ => True
  | .events _ | .inner _ => False

inductive Call where
  | start
  | connect
  | stop (handle : Handle)
  | localPort (handle : Handle)
  | poll (handle : Handle)
  -- a payload that is null or no UTF-8 is refused before any lock is taken
  | sessionSend (handle : Handle) (session_id : SessionId) (reliable : Bool)
  | streamSend (handle : Handle) (session_id : SessionId) (stream_id : StreamId)
  | streamClose (handle : Handle) (session_id : SessionId) (stream_id : StreamId)
  | openStream (handle : Handle) (session_id : SessionId)
  deriving DecidableEq, Repr

inductive Method where
  | localPort
  | nextEvent
  | send (session_id : SessionId) (reliable : Bool)
  | streamSend (session_id : SessionId) (stream_id : StreamId)
  | streamClose (session_id : SessionId) (stream_id : StreamId)
  | openStream (session_id : SessionId)
  deriving DecidableEq, Repr

inductive Side where
  | server
  | client
  deriving DecidableEq, Repr

/-- The stays under the lock of a map, each under the name of the function it is in:
`connected` and `admitted` put a session in, `ended` takes it out; `opened` and `accepted`
put a stream in. -/
inductive MapOp where
  | lookup (handle : Handle) (method : Method)
  | remove (handle : Handle)
  | register (handle : Handle) (e : Nat)
  | send (e : Nat) (session_id : SessionId) (reliable : Bool)
  | openStream (e : Nat) (session_id : SessionId)
  | streamSend (e : Nat) (session_id : SessionId) (stream_id : StreamId)
  | streamClose (e : Nat) (session_id : SessionId) (stream_id : StreamId)
  | connected (e : Nat) (session_id : SessionId)
  | admitted (e : Nat) (session_id : SessionId)
  | ended (e : Nat) (side : Side) (session_id : SessionId)
  | purge (e : Nat) (session_id : SessionId)
  | opened (e : Nat) (session_id : SessionId) (stream_id : StreamId)
  | accepted (e : Nat) (side : Side) (session_id : SessionId) (stream_id : StreamId)
  | drain (e : Nat)
  deriving DecidableEq, Repr

def MapOp.lock : MapOp → Lock
  | .lookup _ _ | .remove _ | .register _ _ => .registry
  | .send e _ _ | .openStream e _ | .connected e _ | .admitted e _ | .ended e _ _ | .drain e => .sessions e
  | .streamSend e _ _ | .streamClose e _ _ | .purge e _ | .opened e _ _ | .accepted e _ _ _ => .streams e

inductive Sending where
  | openUni
  | opening
  | writeAll
  | finish
  deriving DecidableEq, Repr

/-- What is waited for with no lock at all. `dropping` is the runtime of a `start` or a
`connect` that failed; from `accept` on it is a task that waits. -/
inductive Await where
  | binding
  | dialing
  | dropping
  | send (e : Nat) (stage : Sending)
  | openBi (e : Nat) (session_id : SessionId)
  | opening (e : Nat) (session_id : SessionId)
  | accept (e : Nat)
  | incoming (e : Nat)
  | notFound (e : Nat)
  | requestAccept (e : Nat)
  | select (e : Nat) (side : Side) (session_id : SessionId)
  | readUni (e : Nat) (side : Side) (session_id : SessionId)
  | readBi (e : Nat) (session_id : SessionId) (stream_id : StreamId)
  deriving DecidableEq, Repr

def Await.task : Await → Option Nat
  | .accept e | .incoming e | .notFound e | .requestAccept e => some e
  | .select e _ _ | .readUni e _ _ | .readBi e _ _ => some e
  | _ => none

inductive Verb where
  | writeAll
  | finish
  deriving DecidableEq, Repr

/-- Where nothing is held. `letting` drops an `Arc<Endpoint>`, and `shutting` is the rest of
`Drop for Endpoint` after the sessions. -/
inductive Outside where
  | calling (c : Call)
  | awaiting (w : Await)
  | before (op : MapOp)
  | polling (e : Nat)
  | turning (e : Nat) (k : Nat) (verb : Verb)
  | numbering (e : Nat)
  | numberingClient (e : Nat)
  | numberingSession (e : Nat)
  | spawning (task rest : Outside)
  | letting (e : Nat)
  | shutting (e : Nat)
  deriving DecidableEq, Repr

inductive Displaced where
  | letting
  | before
  | draining
  | leaving
  | shutting
  deriving DecidableEq, Repr

inductive Pc where
  | outside (o : Outside)
  | inside (op : MapOp)
  | leaving (l : Lock) (rest : Option Outside)
  -- what an insertion has displaced is dropped under the registry's guard
  | displaced (e : Nat) (stage : Displaced)
  | receiving (e : Nat)
  | writing (e : Nat) (k : Nat) (verb : Verb)
  deriving DecidableEq, Repr

inductive Reply where
  | go
  -- from here on the network, the queue or the caller's input
  | answered
  | failed
  | mismatched
  | uni
  | bi (stream_id : StreamId)
  deriving DecidableEq, Repr

/-- `references` counts the `Arc`s of an endpoint; `spawned` are tasks not polled yet. -/
structure Shared where
  registry : Handle → Option Nat
  next : Handle
  fresh : Nat
  references : Nat → Nat
  sessions : Nat → SessionId → Bool
  nextSession : Nat → SessionId
  streams : Nat → SessionId × StreamId → Option Nat
  halves : Nat
  shut : Nat → Bool
  spawned : List Outside

namespace Shared

def clone (σ : Shared) (e : Nat) : Shared :=
  {σ with references := Function.update σ.references e (σ.references e + 1)}

def setSession (σ : Shared) (e : Nat) (session_id : SessionId) (there : Bool) : Shared :=
  {σ with sessions := Function.update σ.sessions e (Function.update (σ.sessions e) session_id there)}

def setStream (σ : Shared) (e : Nat) (key : SessionId × StreamId) (half : Option Nat) : Shared :=
  {σ with streams := Function.update σ.streams e (Function.update (σ.streams e) key half)}

def insertStream (σ : Shared) (e : Nat) (key : SessionId × StreamId) : Shared :=
  {setStream σ e key (some σ.halves) with halves := σ.halves + 1}

/- `connect` and `start` make the maps before anyone else can see them. -/
def create (σ : Shared) : Shared :=
  {σ with
    fresh := σ.fresh + 1
    references := Function.update σ.references σ.fresh 0
    sessions := Function.update σ.sessions σ.fresh fun _ => false
    nextSession := Function.update σ.nextSession σ.fresh 1
    streams := Function.update σ.streams σ.fresh fun _ => none
    shut := Function.update σ.shut σ.fresh false}

end Shared

def Method.enter (e : Nat) : Method → Outside
  | .localPort => .letting e
  | .nextEvent => .polling e
  | .send session_id reliable => .before (.send e session_id reliable)
  | .streamSend session_id stream_id => .before (.streamSend e session_id stream_id)
  | .streamClose session_id stream_id => .before (.streamClose e session_id stream_id)
  | .openStream session_id => .before (.openStream e session_id)

def Call.enter : Call → Outside
  | .start => .awaiting .binding
  | .connect => .awaiting .dialing
  | .stop handle => .before (.remove handle)
  | .localPort handle => .before (.lookup handle .localPort)
  | .poll handle => .before (.lookup handle .nextEvent)
  | .sessionSend handle session_id reliable => .before (.lookup handle (.send session_id reliable))
  | .streamSend handle session_id stream_id => .before (.lookup handle (.streamSend session_id stream_id))
  | .streamClose handle session_id stream_id => .before (.lookup handle (.streamClose session_id stream_id))
  | .openStream handle session_id => .before (.lookup handle (.openStream session_id))

def MapOp.body (σ : Shared) : MapOp → Option Outside × Shared
  | .lookup handle method =>
    match σ.registry handle with
    | some e => (some (method.enter e), σ.clone e)
    | none => (none, σ)
  | .remove handle =>
    ((σ.registry handle).map .letting, {σ with registry := Function.update σ.registry handle none})
  | .register handle e =>
    (none, {σ with registry := Function.update σ.registry handle (some e)}.clone e)
  | .send e session_id reliable =>
    (some (if σ.sessions e session_id && reliable then .awaiting (.send e .openUni) else .letting e), σ)
  | .openStream e session_id =>
    (some (if σ.sessions e session_id then .awaiting (.openBi e session_id) else .letting e), σ)
  | .streamSend e session_id stream_id =>
    match σ.streams e (session_id, stream_id) with
    | some k => (some (.turning e k .writeAll), σ)
    | none => (some (.letting e), σ)
  | .streamClose e session_id stream_id =>
    match σ.streams e (session_id, stream_id) with
    | some k => (some (.turning e k .finish), σ.setStream e (session_id, stream_id) none)
    | none => (some (.letting e), σ)
  | .connected e session_id =>
    (some (.spawning (.awaiting (.select e .client session_id)) (.numbering e)), σ.setSession e session_id true)
  | .admitted e session_id => (some (.awaiting (.select e .server session_id)), σ.setSession e session_id true)
  | .ended e .server session_id => (some (.before (.purge e session_id)), σ.setSession e session_id false)
  | .ended e .client session_id => (none, σ.setSession e session_id false)
  | .purge e session_id =>
    (none, {σ with
      streams := Function.update σ.streams e fun key => if key.1 = session_id then none else σ.streams e key})
  | .opened e session_id stream_id =>
    (some (.spawning (.awaiting (.readBi e session_id stream_id)) (.letting e)),
      σ.insertStream e (session_id, stream_id))
  | .accepted e side session_id stream_id =>
    (some (.spawning (.awaiting (.readBi e session_id stream_id)) (.awaiting (.select e side session_id))),
      σ.insertStream e (session_id, stream_id))
  | .drain e => (some (.shutting e), {σ with sessions := Function.update σ.sessions e fun _ => false})

/- `HashMap::insert` returns what was there, and that is dropped before the guard is. -/
def MapOp.next (σ : Shared) (op : MapOp) : Pc × Shared :=
  match op, op.body σ with
  | .register handle _, (rest, after) =>
    match σ.registry handle with
    | some e => (.displaced e .letting, after)
    | none => (.leaving op.lock rest, after)
  | _, (rest, after) => (.leaving op.lock rest, after)

def Sending.next (e : Nat) : Sending → Outside
  | .openUni => .awaiting (.send e .opening)
  | .opening => .awaiting (.send e .writeAll)
  | .writeAll => .awaiting (.send e .finish)
  | .finish => .letting e

def Await.next (σ : Shared) : Await → Reply → Option (Option Outside × Shared)
  | .binding, .answered => some (some (.spawning (.awaiting (.accept σ.fresh)) (.numbering σ.fresh)), σ.create)
  | .dialing, .answered => some (some (.numberingClient σ.fresh), σ.create)
  | .binding, .failed | .dialing, .failed => some (some (.awaiting .dropping), σ)
  | .dropping, .answered => some (none, σ)
  | .send e stage, .answered => some (some (stage.next e), σ)
  | .send e _, .failed => some (some (.letting e), σ)
  | .openBi e session_id, .answered => some (some (.awaiting (.opening e session_id)), σ)
  | .opening e session_id, .bi stream_id => some (some (.before (.opened e session_id stream_id)), σ)
  | .openBi e _, .failed | .opening e _, .failed => some (some (.letting e), σ)
  | .accept e, .answered => some (some (.spawning (.awaiting (.incoming e)) (.awaiting (.accept e))), σ)
  | .incoming e, .answered => some (some (.awaiting (.requestAccept e)), σ)
  | .incoming e, .mismatched => some (some (.awaiting (.notFound e)), σ)
  | .requestAccept e, .answered => some (some (.numberingSession e), σ)
  | .incoming _, .failed | .requestAccept _, .failed | .notFound _, .answered => some (none, σ)
  | .select e side session_id, .answered => some (some (.awaiting (.select e side session_id)), σ)
  | .select e side session_id, .uni => some (some (.awaiting (.readUni e side session_id)), σ)
  | .select e side session_id, .bi stream_id => some (some (.before (.accepted e side session_id stream_id)), σ)
  | .select e side session_id, .failed => some (some (.before (.ended e side session_id)), σ)
  | .readUni e side session_id, .answered | .readUni e side session_id, .failed =>
    some (some (.awaiting (.select e side session_id)), σ)
  | .readBi _ _ _, .answered | .readBi _ _ _, .failed => some (none, σ)
  | _, _ => none

/- The last `Arc` that is dropped runs `Drop for Endpoint`. -/
def letGo (σ : Shared) (e : Nat) : Bool × Shared :=
  (σ.references e = 1, {σ with references := Function.update σ.references e (σ.references e - 1)})

def Outside.next (σ : Shared) : Outside → Reply → Option (Option Pc × Shared)
  | .calling c, .go => some (some (.outside c.enter), σ)
  | .calling _, .failed => some (none, σ)
  | .awaiting w, reply => (w.next σ reply).map fun (rest, after) => (rest.map .outside, after)
  | .before op, .go => some (some (.inside op), σ)
  | .polling e, .go => some (some (.receiving e), σ)
  | .turning e k verb, .go => some (some (.writing e k verb), σ)
  | .numbering e, .go => some (some (.outside (.before (.register σ.next e))), {σ with next := σ.next + 1})
  | .numberingClient e, .go => some (some (.outside (.before (.connected e σ.next))), {σ with next := σ.next + 1})
  | .numberingSession e, .go =>
    some (some (.outside (.before (.admitted e (σ.nextSession e)))),
      {σ with nextSession := Function.update σ.nextSession e (σ.nextSession e + 1)})
  | .spawning task rest, .go => some (some (.outside rest), {σ with spawned := task :: σ.spawned})
  | .letting e, .go =>
    match letGo σ e with
    | (true, after) => some (some (.outside (.before (.drain e))), after)
    | (false, after) => some (none, after)
  | .shutting e, .go => some (none, {σ with shut := Function.update σ.shut e true})
  | _, _ => none

def Displaced.next (σ : Shared) (e : Nat) : Displaced → Pc × Shared
  | .letting =>
    match letGo σ e with
    | (true, after) => (.displaced e .before, after)
    | (false, after) => (.leaving .registry none, after)
  | .before => (.displaced e .draining, σ)
  | .draining => (.displaced e .leaving, ((MapOp.drain e).body σ).2)
  | .leaving => (.displaced e .shutting, σ)
  | .shutting => (.leaving .registry none, {σ with shut := Function.update σ.shut e true})

def next (σ : Shared) : Pc → Reply → Option (Option Pc × Shared)
  | .outside o, reply => o.next σ reply
  | .inside op, .go => some (some (op.next σ).1, (op.next σ).2)
  | .leaving _ rest, .go => some (rest.map .outside, σ)
  | .displaced e stage, .go => some (some (stage.next σ e).1, (stage.next σ e).2)
  | .receiving e, .answered | .receiving e, .failed => some (some (.leaving (.events e) (some (.letting e))), σ)
  | .writing e k _, .answered | .writing e k _, .failed => some (some (.leaving (.inner k) (some (.letting e))), σ)
  | _, _ => none

def Outside.op : Outside → Op Lock
  | .awaiting _ => .wait
  | .before op => .acquire op.lock
  | .polling e => .acquire (.events e)
  | .turning _ k _ => .acquire (.inner k)
  | _ => .run

def op : Pc → Op Lock
  | .outside o => o.op
  | .inside _ => .run
  | .leaving l _ => .release l
  | .displaced e .before => .acquire (.sessions e)
  | .displaced e .leaving => .release (.sessions e)
  | .displaced _ _ => .run
  | .receiving _ | .writing _ _ _ => .wait

def held : Pc → List Lock
  | .outside _ => []
  | .inside op => [op.lock]
  | .leaving l _ => [l]
  | .displaced e .draining | .displaced e .leaving => [.sessions e, .registry]
  | .displaced _ _ => [.registry]
  | .receiving e => [.events e]
  | .writing _ k _ => [.inner k]

def starts (σ : Shared) : Pc → Option Shared
  | .outside (.calling _) => some σ
  | .outside task => if task ∈ σ.spawned then some {σ with spawned := σ.spawned.erase task} else none
  | _ => none

def cancels (σ : Shared) : Pc → Bool
  | .outside (.awaiting w) => w.task.any σ.shut
  | _ => false

def code : Code Shared Pc Lock Reply := ⟨op, next, held, starts, cancels⟩

def init : State Shared Pc Lock :=
  {shared := ⟨fun _ => none, 1, 0, fun _ => 0, fun _ _ => false, fun _ => 1, fun _ _ => none, 0, fun _ => false, []⟩
   pcs := fun _ => none
   owner := fun _ => none
   passed := fun _ => 0}

def Lock.leaf (l : Lock) : Prop := l ≠ .registry

def Lock.rank : Lock → Nat
  | .registry => 0
  | _ => 1

def left : Pc → Nat
  | .inside _ => 7
  | .displaced _ .letting => 6
  | .displaced _ .before => 5
  | .displaced _ .draining => 4
  | .displaced _ .leaving => 3
  | .displaced _ .shutting => 2
  | .leaving _ _ => 1
  | _ => 0

theorem lockWide (o : MapOp) : o.lock.wide := by
  cases o <;> trivial

def Follows (before after : List Lock) : Op Lock → Prop
  | .acquire l => after = l :: before
  | .release l => before = l :: after
  | .wait | .run => after = before

theorem heldOutside (rest : Option Outside) : heldAt code (rest.map Pc.outside) = [] := by
  cases rest <;> rfl

theorem outsideFollows {σ : Shared} {o r pc' σ'} (moved : Outside.next σ o r = some (pc', σ')) :
    Follows [] (heldAt code pc') o.op := by
  cases o with
  | awaiting w =>
    simp only [Outside.next, Option.map_eq_some_iff, Prod.mk.injEq] at moved
    obtain ⟨⟨rest, after⟩, -, rfl, rfl⟩ := moved
    exact heldOutside rest
  | letting e =>
    cases r <;> simp only [Outside.next, reduceCtorEq] at moved
    split at moved <;> (cases moved; rfl)
  | calling c => cases r <;> cases moved <;> rfl
  | before op => cases r <;> cases moved; rfl
  | polling e => cases r <;> cases moved; rfl
  | turning e k verb => cases r <;> cases moved; rfl
  | numbering e => cases r <;> cases moved; rfl
  | numberingClient e => cases r <;> cases moved; rfl
  | numberingSession e => cases r <;> cases moved; rfl
  | spawning task rest => cases r <;> cases moved; rfl
  | shutting e => cases r <;> cases moved; rfl

theorem mapOpHeld (σ : Shared) (o : MapOp) : held (o.next σ).1 = [o.lock] := by
  unfold MapOp.next
  split
  · split <;> rfl
  · rfl

theorem follows {σ : Shared} {pc r pc' σ'} (moved : next σ pc r = some (pc', σ')) :
    Follows (held pc) (heldAt code pc') (op pc) := by
  cases pc with
  | outside o => exact outsideFollows moved
  | inside o =>
    cases r <;> cases moved
    exact mapOpHeld σ o
  | leaving l rest =>
    cases r <;> cases moved
    show [l] = l :: heldAt code (rest.map Pc.outside)
    rw [heldOutside]
  | displaced e stage =>
    cases r <;> cases moved
    cases stage with
    | letting =>
      show held (Displaced.next σ e .letting).1 = [Lock.registry]
      rw [Displaced.next]
      split <;> rfl
    | before => rfl
    | draining => rfl
    | leaving => rfl
    | shutting => rfl
  | receiving e => cases r <;> cases moved <;> rfl
  | writing e k verb => cases r <;> cases moved <;> rfl

theorem mapOpLeft (σ : Shared) (o : MapOp) : left (o.next σ).1 < left (.inside o) := by
  unfold MapOp.next
  split
  · split <;> (rw [left, left]; omega)
  · rw [left, left]
    omega

theorem displacedLeft (σ : Shared) (e : Nat) (stage : Displaced) :
    left (stage.next σ e).1 < left (.displaced e stage) := by
  cases stage with
  | letting =>
    rw [Displaced.next]
    split <;> (rw [left, left]; omega)
  | before => exact Nat.lt_add_one _
  | draining => exact Nat.lt_add_one _
  | leaving => exact Nat.lt_add_one _
  | shutting => exact Nat.lt_add_one _

theorem takesUnder {pc : Pc} {l : Lock} (hop : op pc = .acquire l) :
    held pc = [] ∨ held pc = [.registry] ∧ ∃ e, l = .sessions e := by
  cases pc with
  | outside o => exact .inl rfl
  | displaced e stage =>
    cases stage <;> cases hop
    exact .inr ⟨rfl, e, rfl⟩
  | _ => cases hop

theorem disciplined : Disciplined code Lock.wide Lock.leaf Lock.rank left .go where
  starts := by
    intro σ pc σ' starts
    cases pc <;> first | rfl | cases starts
  cancels := by
    intro σ pc cancels
    cases pc <;> first | rfl | cases cancels
  once := by
    intro pc
    cases pc with
    | displaced e stage => cases stage <;> simp [code, held]
    | _ => simp [code, held]
  acquire := by
    intro σ pc r pc' σ' l hop moved
    have after := follows moved
    rwa [show op pc = .acquire l from hop] at after
  release := by
    intro σ pc r pc' σ' l hop moved
    have after := follows moved
    rwa [show op pc = .release l from hop] at after
  still := by
    intro σ pc r pc' σ' hop moved
    have after := follows moved
    rcases hop with hop | hop
    · rwa [show op pc = .wait from hop] at after
    · rwa [show op pc = .run from hop] at after
  ordered := by
    intro pc l hop m hm
    rcases takesUnder hop with none | ⟨one, e, rfl⟩
    · rw [show code.held pc = [] from none] at hm
      cases hm
    · -- the drop of a displaced endpoint drains its sessions under the registry's guard
      rw [show code.held pc = [.registry] from one] at hm
      cases List.mem_singleton.mp hm
      exact Nat.zero_lt_one
  waits := by
    intro pc hop m hm
    cases pc with
    | outside o => cases hm
    | receiving e => cases List.mem_singleton.mp hm; exact id
    | writing e k verb => cases List.mem_singleton.mp hm; exact id
    | displaced e stage => cases stage <;> cases hop
    | _ => cases hop
  narrow := by
    intro pc l hop narrow m hm
    rcases takesUnder hop with none | ⟨-, e, rfl⟩
    · rw [show code.held pc = [] from none] at hm
      cases hm
    · exact absurd trivial narrow
  under := by
    intro pc l hop m hm leafy
    rcases takesUnder hop with none | ⟨one, -⟩
    · rw [show code.held pc = [] from none] at hm
      cases hm
    · rw [show code.held pc = [.registry] from one] at hm
      exact leafy (List.mem_singleton.mp hm)
  above := by
    intro pc l hop some
    rcases takesUnder hop with none | ⟨-, e, rfl⟩
    · exact absurd none some
    · exact Lock.noConfusion
  goes := by
    intro σ pc ready
    cases pc with
    | outside o =>
      rcases ready with ⟨m, hm, -⟩ | ⟨l, hop, broad⟩
      · cases hm
      · cases o <;> first | exact ⟨_, rfl⟩ | cases hop
    | inside o => exact ⟨_, rfl⟩
    | leaving l rest => exact ⟨_, rfl⟩
    | displaced e stage => exact ⟨_, rfl⟩
    | receiving e =>
      rcases ready with ⟨m, hm, broad⟩ | ⟨l, hop, -⟩
      · cases List.mem_singleton.mp hm
        exact broad.elim
      · cases hop
    | writing e k verb =>
      rcases ready with ⟨m, hm, broad⟩ | ⟨l, hop, -⟩
      · cases List.mem_singleton.mp hm
        exact broad.elim
      · cases hop
  less := by
    intro σ pc pc' σ' inside moved still
    cases pc with
    | outside o =>
      obtain ⟨m, hm, -⟩ := inside
      cases hm
    | inside o =>
      cases moved
      exact mapOpLeft σ o
    | leaving l rest =>
      obtain ⟨m, hm, -⟩ := still
      obtain ⟨o, -, rfl⟩ := Option.map_eq_some_iff.mp (Prod.mk.inj (Option.some.inj moved)).1
      cases hm
    | displaced e stage =>
      cases moved
      exact displacedLeft σ e stage
    | receiving e => cases moved
    | writing e k verb => cases moved

theorem ownedInit : Owned code init := by
  intro l i
  exact ⟨fun h => (by cases h), fun h => (by cases h)⟩

def CarriesOut (i : Nat) (op : MapOp) (s : State Shared Pc Lock) (as : List (Label Pc Reply)) : Prop :=
  ∃ u v, Takes (step code) s as u (.go i .go) v ∧ u.pcs i = some (.inside op) ∧ v.shared = (op.next u.shared).2

theorem insideCarriesOut {i : Nat} {op : MapOp} {s t : State Shared Pc Lock} {as} (silent : Quiet .go as)
    (ran : run (step code) s as = some t) (here : s.pcs i = some (.inside op)) (more : s.passed i < t.passed i) :
    CarriesOut i op s as := by
  obtain ⟨before, after, u, v, rfl, first, there, -, one, -⟩ := goesFrom silent ran here more
  refine ⟨u, v, ⟨before, after, rfl, first, one⟩, there, ?_⟩
  obtain ⟨pc, pc', went⟩ := goes one
  cases there.symm.trans went.here
  exact (congrArg Prod.snd (Option.some.inj went.moved)).symm

theorem beforeCarriesOut {i : Nat} {op : MapOp} {s t : State Shared Pc Lock} {as} (silent : Quiet .go as)
    (ran : run (step code) s as = some t) (here : s.pcs i = some (.outside (.before op)))
    (more : s.passed i < t.passed i) : CarriesOut i op s as := by
  obtain ⟨before, after, u, v, rfl, first, there, same, one, rest⟩ := goesFrom silent ran here more
  obtain ⟨pc, pc', went⟩ := goes one
  cases there.symm.trans went.here
  have stands : v.pcs i = some (.inside op) :=
    went.mine.trans (congrArg Prod.fst (Option.some.inj went.moved)).symm
  have kept : v.passed i = u.passed i := by
    have does : Does u i v (.acquire op.lock) := went.does
    obtain ⟨-, -, passed⟩ := does
    exact congrFun passed i
  obtain ⟨w, x, ⟨middle, last, rfl, ran', one'⟩, there', effect⟩ :=
    insideCarriesOut (fun a ha => silent a (by simp [ha])) rest stands (by rwa [kept, same])
  refine ⟨w, x, ⟨before ++ .go i .go :: middle, last, by simp, ?_, one'⟩, there', effect⟩
  exact runAppend.mpr ⟨u, first, runCons.mpr ⟨v, one, ran'⟩⟩

theorem neverStalled {labels s} (ran : run (step code) init labels = some s) :
    (∀ i pc, s.pcs i = some pc → (op pc = .wait ∨ ∃ l, op pc = .acquire l ∧ ¬ l.wide) →
      ∀ l, l.wide → s.owner l ≠ some i) ∧
    (∀ i, ¬ Relation.TransGen (WaitsFor code s) i i) ∧
    (∀ i op, s.pcs i = some (.outside (.before op)) ∨ s.pcs i = some (.inside op) →
      ∃ as t, Quiet .go as ∧ run (step code) s as = some t ∧ CarriesOut i op s as ∧
        ∀ l, l.wide → t.owner l ≠ some i) ∧
    ∀ i l, l.wide → s.owner l = some i →
      ∃ as t, Quiet .go as ∧ run (step code) s as = some t ∧ ∀ m, m.wide → t.owner m ≠ some i := by
  have owned := ownedRun disciplined ownedInit ran
  have narrowed {as t i} (ran' : run (step code) s as = some t) (narrow : ∀ m ∈ heldAt code (t.pcs i), ¬ m.wide) :
      ∀ m, m.wide → t.owner m ≠ some i :=
    fun m broad has => narrow m ((ownedRun disciplined owned ran' m i).mp has) broad
  refine ⟨?_, noCycle disciplined owned, ?_, ?_⟩
  · intro i pc here waits l broad
    exact waitsNarrow disciplined owned here waits broad
  · rintro i op (here | here)
    · obtain ⟨as, t, silent, ran', more, narrow⟩ :=
        getsThrough disciplined owned here (.inr ⟨op.lock, rfl, lockWide op⟩)
      exact ⟨as, t, silent, ran', beforeCarriesOut silent ran' here more, narrowed ran' narrow⟩
    · obtain ⟨as, t, silent, ran', more, narrow⟩ :=
        getsThrough disciplined owned here (.inl ⟨op.lock, List.mem_singleton_self _, lockWide op⟩)
      exact ⟨as, t, silent, ran', insideCarriesOut silent ran' here more, narrowed ran' narrow⟩
  · intro i l broad has
    obtain ⟨pc, here, holds⟩ := heldSome ((owned l i).mp has)
    obtain ⟨as, t, silent, ran', -, narrow⟩ := getsThrough disciplined owned here (.inl ⟨l, holds, broad⟩)
    exact ⟨as, t, silent, ran', narrowed ran' narrow⟩

def crowd : List (Label Pc Reply) :=
  [[.spawn 0 (.outside (.calling .start)), .go 0 .go, .go 0 .answered], List.replicate 5 (.go 0 .go),
    [.spawn 1 (.outside (.awaiting (.accept 0))), .go 1 .answered, .go 1 .go],
    [.spawn 2 (.outside (.awaiting (.incoming 0))), .go 2 .answered, .go 2 .answered], List.replicate 4 (.go 2 .go),
    [.go 2 (.bi 4)], List.replicate 3 (.go 2 .go),
    [.spawn 3 (.outside (.calling (.streamSend 1 1 4)))], List.replicate 8 (.go 3 .go),
    [.spawn 4 (.outside (.calling (.streamSend 1 1 4)))], List.replicate 4 (.go 4 .go),
    [.spawn 5 (.outside (.calling (.streamSend 1 1 4)))], List.replicate 5 (.go 5 .go)].flatten

theorem neverStalledCrowd :
    ∃ s, run (step code) init crowd = some s ∧ s.pcs 3 = some (.writing 0 0 .writeAll) ∧
      s.owner (.streams 0) = some 5 ∧ s.owner (.streams 0) ≠ some 3 ∧
      ∃ as t, Quiet .go as ∧ run (step code) s as = some t ∧ CarriesOut 4 (.streamSend 0 1 4) s as ∧
        ∀ l, l.wide → t.owner l ≠ some 4 := by
  have stands : (run (step code) init crowd).map (fun s => (s.pcs 3, s.pcs 4, s.owner (.streams 0))) =
      some (some (.writing 0 0 .writeAll), some (.outside (.before (.streamSend 0 1 4))), some 5) := by
    decide +kernel
  obtain ⟨s, ran, at_s⟩ := Option.map_eq_some_iff.mp stands
  simp only [Prod.mk.injEq] at at_s
  obtain ⟨writes, pending, taken⟩ := at_s
  obtain ⟨narrow, -, through, -⟩ := neverStalled ran
  exact ⟨s, ran, writes, taken, narrow 3 _ writes (.inl rfl) (.streams 0) trivial, through 4 _ (.inl pending)⟩

end RkQuic.Threads
