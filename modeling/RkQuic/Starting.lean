import RkQuic.AllOrNothing
import RkQuic.Worker

/-! A start from one end to the other: the turn of the worker isolate that was given a
configuration, over the library that it hands it to. Whatever else the process does goes on
between any two requests; what it has no part in is the last error, which is the thread's. -/
namespace RkQuic.Starting
open Config ConfigJson Creating Ffi Json Outcomes Programs Runs Schemas Worker

/-! What a creating call does, by what it has come to. -/

def connectPlan (lib : Library) (config : ParsedClientConfig) : Outcome Refusal UInt16 := do
  idleRange lib config.idle_timeout
  lib.runtime.mapErr noRuntime
  lib.clientEndpoint.mapErr fun e => (.bindFailed, "no client endpoint: " ++ e)
  (lib.dial config.url).mapErr fun e => (connectStatus lib e, "connect " ++ config.url ++ ": " ++ e)
  lib.localAddr.unwrapOr 0

def clientPlan (lib : Library) (config_json : Option Bytes) : Outcome Refusal UInt16 := do
  let config ← readConfig config_json lib.clientJson
  let parsed ← config.parse lib.debug
  connectPlan lib parsed

def concluded (o : Outcome Refusal UInt16) (makes : UInt16 → World) (w : World) : Status × World :=
  match o with
  | .ok port => (.ok, makes port)
  | .err (status, message) => (status, {w with lastError := some message})
  | .panicked => (.panic, cleared w)

section Plans
variable {lib : Library}

theorem serverConcludes (config_json : Option Bytes) (w : World) : rkQuicServerStart lib config_json w =
    concluded (serverPlan lib config_json) (fun port => {started w port with cells := put w.cells .handle w.next}) w := by
  rw [rkQuicServerStart, serverPlanned, guarded, clearLastError, writeBind, liftBind]
  cases serverPlan lib config_json <;> rfl

def enroll (port : UInt16) : Call World (Handle × SessionId) := do
  let session_id ← nextHandle
  let handle ← nextHandle
  insert handle ⟨[session_id], [], true, port⟩
  pure (handle, session_id)

theorem connectPlanned (config : ParsedClientConfig) : connect lib config = .lift (connectPlan lib config) >>= enroll := by
  simp only [connect, connectPlan, liftTwice]
  rfl

theorem clientPlanned (config_json : Option Bytes) : clientConnect lib config_json =
    clearLastError >>= fun _ => .lift (clientPlan lib config_json) >>= fun port => enroll port >>= fun made =>
      writeOut .handle made.1 >>= fun _ => writeOut .session made.2 := by
  simp only [clientConnect, clientPlan, connectPlanned, bodyAssoc, liftTwice]

theorem clientConcludes (config_json : Option Bytes) (w : World) : rkQuicClientConnect lib config_json w =
    concluded (clientPlan lib config_json)
      (fun port => {connected w port with cells := put (put w.cells .handle (w.next + 1)) .session w.next}) w := by
  rw [rkQuicClientConnect, clientPlanned, guarded, clearLastError, writeBind, liftBind]
  cases clientPlan lib config_json <;> rfl

def Proper (o : Outcome Refusal UInt16) : Prop := ∀ refusal, o = .err refusal → refusal.1 ≠ .ok

theorem madeDraws {entry : Entry} {w v : World} (made : Made lib w entry v) : v.drawn = w.drawn + entry.draws := by
  cases made <;> rfl

def nowhere : World := ⟨fun _ => none, 1, 0, none, fun _ => none⟩

theorem serverProper (config_json : Option Bytes) : Proper (serverPlan lib config_json) := by
  intro refusal same
  have makes := callMakes lib (.server config_json) nowhere
  simp only [Entry.call, serverConcludes, same, concluded] at makes
  rcases makes with ⟨-, made⟩ | ⟨bad, -⟩
  · cases madeDraws made
  · exact bad

theorem clientProper (config_json : Option Bytes) : Proper (clientPlan lib config_json) := by
  intro refusal same
  have makes := callMakes lib (.client config_json) nowhere
  simp only [Entry.call, clientConcludes, same, concluded] at makes
  rcases makes with ⟨-, made⟩ | ⟨bad, -⟩
  · cases madeDraws made
  · exact bad

end Plans
/-! The isolate and the library. -/

def textAt (s : Isolate) (p : Nat) : Option Bytes :=
  match s.blocks p with
  | some (.text bytes) => some bytes
  | _ => none

def entry (s : Isolate) : Native → Option Entry
  | .serverStart json _ => some (.server (textAt s json))
  | .clientConnect json _ _ => some (.client (textAt s json))
  | .clientOpenStream handle session_id _ => some (.stream handle session_id)
  | _ => none

def outs : Native → List (Nat × Out)
  | .serverStart _ out => [(out, .handle)]
  | .clientConnect _ out session => [(out, .handle), (session, .session)]
  | .clientOpenStream _ _ out => [(out, .stream)]
  | _ => []

def lending (call : Native) (w : World) : World :=
  {w with cells := fun o => if o ∈ (outs call).map Prod.snd then some 0 else none}

def portOf (w : World) (handle : Handle) : Option UInt16 := (w.registry handle).map Endpoint.local_port

/- `rk_quic_server_local_port`. -/
def rkQuicServerLocalPort (handle : Handle) (w : World) : Status × Option UInt16 × World :=
  match portOf w handle with
  | some port => (.ok, some port, cleared w)
  | none => (.unknownHandle, none, cleared w)

def serves (lib : Library) (s : Isolate) (w : World) : Request → Answer → Option World
  | .native (.serverLocalPort handle out), .status status written =>
    match rkQuicServerLocalPort handle w with
    | (told, port, v) => if status = told ∧ (port.map UInt16.toUInt64).getD (written out) = written out then some v else none
  | .native call, .status status written =>
    match entry s call with
    | none => none
    | some entry =>
      match entry.call lib (lending call w) with
      | (told, v) =>
        if status = told ∧ (told = .ok → ∀ o ∈ outs call, v.cells o.2 = some (written o.1)) then some v else none
  | .lastErrorRaw, .pointer p message => if p.map (fun _ => message) = w.lastError then some (cleared w) else none
  | _, _ => some w

/-- What has happened so far is history: `calls` are the calls of the library and `moves` are what
the others have done, each by the worlds before and after it. -/
structure Site where
  isolate : Isolate
  world : World
  calls : List (World × World)
  moves : List (World × World)

def noted (w v : World) : Request → List (World × World)
  | .native _ => [(w, v)]
  | _ => []

section Device
variable (lib : Library) (others : Nat → World → World)

def answers (s : Site) (request : Request) (r : Answer) : Option Site :=
  let w := others s.moves.length s.world
  (Worker.answers s.isolate request r).bind fun isolate =>
    (serves lib s.isolate w request r).map fun v => ⟨isolate, v, s.calls ++ noted w v request, s.moves ++ [(s.world, w)]⟩

/- Which requests the isolate may make is its own matter. -/
def device : Device Request Answer Site := ⟨fun _ _ => True, answers lib others⟩

end Device

section Requests
variable {lib : Library} {others : Nat → World → World} {D : Site → Prop} {s t u : Site}

def Spared (moves : List (World × World)) (handle : Handle) (port : UInt16) : Prop :=
  ∀ move ∈ moves, portOf move.1 handle = some port → portOf move.2 handle = some port

structure Since (s t : Site) : Prop where
  calls : t.calls = s.calls
  moves : s.moves ⊆ t.moves
  port : ∀ handle port, Spared t.moves handle port → portOf s.world handle = some port → portOf t.world handle = some port

theorem sinceSelf (s : Site) : Since s s := ⟨rfl, fun _ => id, fun _ _ _ => id⟩

theorem sinceTrans (first : Since s t) (second : Since t u) : Since s u where
  calls := second.calls.trans first.calls
  moves := fun _ member => second.moves (first.moves member)
  port := fun handle port spared before =>
    second.port handle port spared (first.port handle port (fun move member => spared move (second.moves member)) before)

theorem sinceMoved {isolate : Isolate} {w v : World} (same : portOf v = portOf w) :
    Since s ⟨isolate, v, s.calls ++ [], s.moves ++ [(s.world, w)]⟩ where
  calls := List.append_nil _
  moves := List.subset_append_left ..
  port := fun handle port spared before => by
    dsimp only
    rw [same]
    exact spared (s.world, w) (List.mem_append_right _ (List.mem_singleton_self _)) before

def plain : Request → Bool
  | .native _ | .lastErrorRaw => false
  | _ => true

structure Aside (s : Site) (isolate : Isolate) (t : Site) : Prop where
  isolate : t.isolate = isolate
  since : Since s t

theorem asidePlain {request : Request} {r : Answer} (apart : plain request = true)
    (answered : answers lib others s request r = some t) :
    ∃ isolate, Worker.answers s.isolate request r = some isolate ∧ Aside s isolate t := by
  obtain ⟨isolate, own, served⟩ := Option.bind_eq_some_iff.mp answered
  obtain ⟨v, serves_, rfl⟩ := Option.map_eq_some_iff.mp served
  have same : v = others s.moves.length s.world ∧ noted (others s.moves.length s.world) v request = [] := by
    cases request <;> cases apart <;> cases serves_ <;> exact ⟨rfl, rfl⟩
  refine ⟨isolate, own, rfl, ?_⟩
  rw [same.2]
  exact sinceMoved (congrArg portOf same.1)

theorem siteMalloc {Q : Option Nat → Site → Prop} {bytes : Bytes} (during : D s)
    (given : ∀ p t, s.isolate.blocks p = none → Aside s (s.isolate.put p (some (.text bytes))) t → Q (some p) t)
    (full : ∀ t, Aside s s.isolate t → Q none t) : Safely (device lib others) D Q (malloc bytes) s := by
  refine safelyAsk during trivial fun r t answered => ?_
  obtain ⟨isolate, own, aside⟩ := asidePlain rfl answered
  cases r <;> simp only [Worker.answers] at own <;> try cases own
  · split at own <;> cases own
    exact given _ t (by assumption) aside
  · exact full t aside

theorem siteCalloc {Q : Option Nat → Site → Prop} (during : D s)
    (given : ∀ p t, s.isolate.blocks p = none → Aside s (s.isolate.put p (some (.cell 0))) t → Q (some p) t)
    (full : ∀ t, Aside s s.isolate t → Q none t) : Safely (device lib others) D Q calloc s := by
  refine safelyAsk during trivial fun r t answered => ?_
  obtain ⟨isolate, own, aside⟩ := asidePlain rfl answered
  cases r <;> simp only [Worker.answers] at own <;> try cases own
  · split at own <;> cases own
    exact given _ t (by assumption) aside
  · exact full t aside

theorem siteValue {Q : Option UInt64 → Site → Prop} {p : Nat} {n : UInt64} (during : D s)
    (there : s.isolate.blocks p = some (.cell n)) (next : ∀ t, Aside s s.isolate t → Q (some n) t) :
    Safely (device lib others) D Q (value p) s := by
  refine safelyAsk during trivial fun r t answered => ?_
  obtain ⟨isolate, own, aside⟩ := asidePlain rfl answered
  cases r <;> simp only [Worker.answers] at own <;> try cases own
  split at own <;> cases own
  rename_i same
  cases there.symm.trans same
  exact next t aside

theorem siteAssign {Q : Option Unit → Site → Prop} {handle : Handle} (during : D s)
    (next : ∀ t, Aside s {s.isolate with handle := handle} t → Q (some ()) t) :
    Safely (device lib others) D Q (perform (.assign handle)) s := by
  refine safelyAsk during trivial fun r t answered => ?_
  obtain ⟨isolate, own, aside⟩ := asidePlain rfl answered
  cases r <;> cases own
  exact next t aside

theorem sitePost {Q : Option Unit → Site → Prop} {id : Nat} {reply : Reply} (during : D s)
    (next : ∀ t, Aside s (s.isolate.tell id reply) t → Q (some ()) t) :
    Safely (device lib others) D Q (perform (.post id reply)) s := by
  refine safelyAsk during trivial fun r t answered => ?_
  obtain ⟨isolate, own, aside⟩ := asidePlain rfl answered
  cases r <;> cases own
  exact next t aside

theorem siteFrees {Q : Option Unit → Site → Prop} (ps : List Nat)
    (during : ∀ t : Site, t.isolate.posted = s.isolate.posted → Since s t → D t)
    (next : ∀ t : Site, t.isolate.posted = s.isolate.posted → Since s t → Q (some ()) t) :
    Safely (device lib others) D Q (frees ps) s := by
  have free (p : Nat) {Q : Option Unit → Site → Prop} {s : Site} (during : D s)
      (next : ∀ t : Site, t.isolate.posted = s.isolate.posted → Since s t → Q (some ()) t) :
      Safely (device lib others) D Q (perform (.free p)) s := by
    refine safelyAsk during trivial fun r t answered => ?_
    obtain ⟨isolate, own, aside⟩ := asidePlain rfl answered
    cases r <;> cases own
    exact next t (by rw [aside.isolate]; rfl) aside.since
  induction ps generalizing s with
  | nil => exact next s rfl (sinceSelf s)
  | cons p more ih =>
    cases more with
    | nil => exact free p (during s rfl (sinceSelf s)) next
    | cons q more =>
      refine safelyBind (free p (during s rfl (sinceSelf s)) fun t posted since => ?_)
      exact ih (fun u posted' since' => during u (posted'.trans posted) (sinceTrans since since'))
        fun u posted' since' => next u (posted'.trans posted) (sinceTrans since since')

theorem siteNative {Q : Option RkQuicStatus → Site → Prop} {call : Native} {e : Entry} {w v : World} {told : Status}
    (during : D s) (named : entry s.isolate call = some e) (before : w = others s.moves.length s.world)
    (concludes : e.call lib (lending call w) = (told, v))
    (good : ∀ t written, told = .ok → t.isolate = (s.isolate.ask call .ok written).write call.cells written → t.world = v →
      t.calls = s.calls ++ [(w, v)] → (∀ o ∈ outs call, v.cells o.2 = some (written o.1)) → Q (some .ok) t)
    (bad : ∀ t written, told ≠ .ok → t.isolate = s.isolate.ask call told written → t.world = v →
      t.calls = s.calls ++ [(w, v)] → Q (some (RkQuicStatus.ofStatus told)) t) : Safely (device lib others) D Q (native call) s := by
  refine safelyAsk during trivial fun r t answered => ?_
  obtain ⟨isolate, own, served⟩ := Option.bind_eq_some_iff.mp answered
  obtain ⟨v', serves_, rfl⟩ := Option.map_eq_some_iff.mp served
  rw [← before] at serves_ ⊢
  cases r <;> simp only [Worker.answers] at own <;> try cases own
  rename_i status written
  have served : status = told ∧ (told = .ok → ∀ o ∈ outs call, v.cells o.2 = some (written o.1)) ∧ v' = v := by
    cases call <;> cases named <;> simp only [serves, entry, concludes] at serves_ <;> split at serves_ <;> cases serves_ <;>
      rename_i both <;> exact ⟨both.1, both.2, rfl⟩
  obtain ⟨rfl, wrote, rfl⟩ := served
  simp only [statusCrosses]
  by_cases done : status = .ok
  · subst done
    exact good _ written rfl (by dsimp only; exact if_pos rfl) rfl rfl (wrote rfl)
  · exact bad _ written done (by dsimp only; exact if_neg done) rfl rfl

theorem sitePort {Q : Option Unit → Site → Prop} {handle : Handle} {out : Nat} (during : D s)
    (there : s.isolate.blocks out = some (.cell 0))
    (next : ∀ t n, t.isolate.blocks out = some (.cell n) → t.isolate.posted = s.isolate.posted →
      n.toUInt16 = (portOf (others s.moves.length s.world) handle).getD 0 →
      t.calls = s.calls ++ [(others s.moves.length s.world, t.world)] →
      t.moves = s.moves ++ [(s.world, others s.moves.length s.world)] → Q (some ()) t) :
    Safely (device lib others) D Q (perform (.native (.serverLocalPort handle out))) s := by
  refine safelyAsk during trivial fun r t answered => ?_
  obtain ⟨isolate, own, served⟩ := Option.bind_eq_some_iff.mp answered
  obtain ⟨v, serves_, rfl⟩ := Option.map_eq_some_iff.mp served
  cases r <;> simp only [Worker.answers] at own <;> try cases own
  rename_i status written
  simp only [serves, rkQuicServerLocalPort] at serves_
  cases listed : portOf (others s.moves.length s.world) handle with
  | none =>
    simp only [listed] at serves_
    split at serves_ <;> cases serves_
    rename_i both
    have unwritten : ¬ status = .ok := by rw [both.1]; decide
    simp only [if_neg unwritten]
    exact next _ 0 there rfl (by rw [listed]; rfl) rfl rfl
  | some port =>
    simp only [listed] at serves_
    split at serves_ <;> cases serves_
    rename_i both
    simp only [if_pos both.1]
    refine next _ (written out) (if_pos (List.mem_singleton_self _)) rfl ?_ rfl rfl
    rw [listed, ← both.2]
    simp

theorem siteTakes {Q : Option (Option String) → Site → Prop} (own : ∀ n v, (others n v).lastError = v.lastError)
    (during : ∀ t : Site, t.isolate.posted = s.isolate.posted → Since s t → D t)
    (next : ∀ t : Site, t.isolate.posted = s.isolate.posted → Since s t → Q (some (s.world.lastError.map spoken)) t) :
    Safely (device lib others) D Q takeLastError s := by
  refine safelyBind (safelyAsk (during s rfl (sinceSelf s)) trivial fun r t answered => ?_)
  obtain ⟨isolate, mine, served⟩ := Option.bind_eq_some_iff.mp answered
  obtain ⟨v, serves_, rfl⟩ := Option.map_eq_some_iff.mp served
  cases r <;> simp only [Worker.answers] at mine <;> try cases mine
  rename_i pointer message
  simp only [serves] at serves_
  split at serves_ <;> cases serves_
  rename_i told
  rw [own] at told
  cases pointer with
  | none =>
    cases mine
    have silent : s.world.lastError.map spoken = none := by rw [← told]; rfl
    rw [silent] at next
    exact next _ rfl (sinceMoved rfl)
  | some p =>
    have said : s.world.lastError.map spoken = some (spoken message) := by rw [← told]; rfl
    rw [said] at next
    dsimp only at mine
    split at mine <;> cases mine
    have there : (s.isolate.hold p (some (EventJson.intoOwnedCString message))).strings p =
        some (EventJson.intoOwnedCString message) := Function.update_self ..
    refine safelyBind (safelyAsk (during _ rfl (sinceMoved rfl)) trivial fun r t answered => ?_)
    obtain ⟨isolate, read, aside⟩ := asidePlain rfl answered
    cases r <;> simp only [Worker.answers] at read <;> try cases read
    rename_i text
    split at read <;> cases read
    rename_i sentence
    rw [there, Option.bind_some, ownedReads] at sentence
    subst sentence
    have posted : t.isolate.posted = s.isolate.posted := by rw [aside.isolate]; rfl
    have since : Since s t := by
      refine sinceTrans ?_ aside.since
      exact sinceMoved rfl
    refine safelyBind (safelyAsk (during t posted since) trivial fun r u answered => ?_)
    obtain ⟨isolate, freed, last⟩ := asidePlain rfl answered
    cases r <;> cases freed
    exact next u (by rw [last.isolate]; exact posted) (sinceTrans since last.since)

theorem siteRefused {Q : Option Unit → Site → Prop} {id : Nat} {status : RkQuicStatus}
    (own : ∀ n v, (others n v).lastError = v.lastError)
    (during : ∀ t : Site, t.isolate.posted = s.isolate.posted → Since s t → D t)
    (next : ∀ t : Site, t.isolate.posted = s.isolate.posted ++ [(id, .status status (s.world.lastError.map spoken))] →
      Since s t → Q (some ()) t) :
    Safely (device lib others) D Q (refused id status) s :=
  safelyBind (siteTakes own during fun t posted since => sitePost (during t posted since) fun u aside =>
    next u (by rw [aside.isolate, Isolate.tell, posted]) (sinceTrans since aside.since))

end Requests
/-! The two turns. -/

section Turns
variable {lib : Library} {others : Nat → World → World} {s : Site} {id : Nat}

def Refuses (s : Site) (reply : Reply) (status : Status) (detail : Option String) : Prop :=
  (∃ w v, s.calls = [(w, v)] ∧ v.registry = w.registry) ∧ reply = .status (RkQuicStatus.ofStatus status) detail

def Reports (made : UInt16 → Site → Reply → Prop) (o : Outcome Refusal UInt16) (s : Site) (reply : Reply) : Prop :=
  match o with
  | .ok port => made port s reply
  | .err (status, message) => Refuses s reply status (some (spoken message))
  | .panicked => Refuses s reply .panic none

def Started (port : UInt16) (s : Site) (reply : Reply) : Prop :=
  ∃ w v u u', s.calls = [(w, v), (u, u')] ∧
    v.registry = Function.update w.registry w.next (some ⟨[], [], true, port⟩) ∧
    reply = .started w.next ((portOf u w.next).getD 0) ∧ (Spared s.moves w.next port → portOf u w.next = some port)

def Connected (port : UInt16) (s : Site) (reply : Reply) : Prop :=
  ∃ w v, s.calls = [(w, v)] ∧
    v.registry = Function.update w.registry (w.next + 1) (some ⟨[w.next], [], true, port⟩) ∧
    reply = .connected (w.next + 1) w.next

section Concluded
variable {o : Outcome Refusal UInt16} {makes : UInt16 → World} {w : World}

theorem concludedOk (proper : Proper o) (done : (concluded o makes w).1 = .ok) : ∃ port, o = .ok port := by
  cases o with
  | ok port => exact ⟨port, rfl⟩
  | err refusal => exact absurd done (proper refusal rfl)
  | panicked => cases done

theorem concludedReports {made : UInt16 → Site → Reply → Prop} {call : Native} {s : Site} {told : Status} {v : World}
    (same : concluded o makes (lending call w) = (told, v)) (failed : told ≠ .ok) (after : s.calls = [(w, v)])
    (world : s.world = v) :
    Reports made o s (.status (RkQuicStatus.ofStatus told) (s.world.lastError.map spoken)) := by
  cases o with
  | ok port => cases same; exact absurd rfl failed
  | err refusal => cases same; rw [world]; exact ⟨⟨_, _, after, rfl⟩, rfl⟩
  | panicked => cases same; rw [world]; exact ⟨⟨_, _, after, rfl⟩, rfl⟩

end Concluded

variable {P : Site → Reply → Prop}

def Replied (s : Site) (id : Nat) (P : Site → Reply → Prop) (t : Site) : Prop :=
  ∃ reply, t.isolate.posted = s.isolate.posted ++ [(id, reply)] ∧ P t reply

def Told (s : Site) (id : Nat) (P : Site → Reply → Prop) (t : Site) : Prop :=
  t.isolate.posted = s.isolate.posted ∨ Replied s id P t

def Ended (s : Site) (id : Nat) (P : Site → Reply → Prop) (a : Option Unit) (t : Site) : Prop :=
  Told s id P t ∧ (a = some () → Replied s id P t)

def Lasting (P : Site → Reply → Prop) : Prop := ∀ t u reply, Since t u → P t reply → P u reply

theorem startedLasts (port : UInt16) : Lasting (Started port) := by
  rintro t u reply since ⟨w, v, x, y, calls, registry, same, spared⟩
  exact ⟨w, v, x, y, since.calls.trans calls, registry, same,
    fun all => spared fun move member => all move (since.moves member)⟩

theorem connectedLasts (port : UInt16) : Lasting (Connected port) := by
  rintro t u reply since ⟨w, v, calls, made⟩
  exact ⟨w, v, since.calls.trans calls, made⟩

theorem reportsLast {made : UInt16 → Site → Reply → Prop} (lasting : ∀ port, Lasting (made port))
    (o : Outcome Refusal UInt16) : Lasting (Reports made o) := by
  intro t u reply since
  have refuses {status : Status} {detail : Option String} (old : Refuses t reply status detail) :
      Refuses u reply status detail := by
    obtain ⟨⟨w, v, calls, none_⟩, same⟩ := old
    exact ⟨⟨w, v, since.calls.trans calls, none_⟩, same⟩
  cases o with
  | ok port => exact lasting port t u reply since
  | err | panicked => exact refuses

theorem repliedOn {t u : Site} (lasting : Lasting P) (posted : u.isolate.posted = t.isolate.posted) (since : Since t u)
    (old : Replied s id P t) : Replied s id P u := by
  obtain ⟨reply, there, fits⟩ := old
  exact ⟨reply, posted.trans there, lasting t u reply since fits⟩

theorem cleansUp {t : Site} (ps : List Nat) (lasting : Lasting P) (old : Replied s id P t) :
    Safely (device lib others) (Told s id P) (fun b u => Ended s id P (b.bind fun _ => some ()) u) (frees ps) t :=
  siteFrees ps (fun _ posted since => .inr (repliedOn lasting posted since old)) fun _ posted since =>
    ⟨.inr (repliedOn lasting posted since old), fun _ => repliedOn lasting posted since old⟩

theorem givesUp {t : Site} (ps : List Nat) {status : RkQuicStatus} (lasting : Lasting P)
    (own : ∀ n v, (others n v).lastError = v.lastError) (posted : t.isolate.posted = s.isolate.posted)
    (fits : P t (.status status (t.world.lastError.map spoken))) :
    Safely (device lib others) (Told s id P)
      (fun a u => Safely (device lib others) (Told s id P) (fun b v => Ended s id P (b.bind fun _ => a) v) (frees ps) u)
      (refused id status) t :=
  siteRefused own (fun _ same _ => .inl (same.trans posted)) fun u there since =>
    cleansUp ps lasting ⟨_, there.trans (by rw [posted]), lasting t u _ since fits⟩

theorem textThere {isolate : Isolate} {p q : Nat} {bytes : Bytes} (there : isolate.blocks p = some (.text bytes))
    (free : isolate.blocks q = none) (b : Option Block) : (isolate.put q b).blocks p = some (.text bytes) := by
  rw [putOther fun same => by rw [same, free] at there; cases there]
  exact there

theorem staysSilent {t : Site} (ps : List Nat) (posted : t.isolate.posted = s.isolate.posted) :
    Safely (device lib others) (Told s id P) (fun b u => Ended s id P (b.bind fun _ => none) u) (frees ps) t :=
  siteFrees ps (fun _ same _ => .inl (same.trans posted)) fun _ same _ => ⟨.inl (same.trans posted), nofun⟩

theorem tellsPort {t : Site} {w v : World} {port : UInt16} (ps : List Nat)
    (posted : t.isolate.posted = s.isolate.posted) (calls : t.calls = [(w, v)])
    (registry : v.registry = Function.update w.registry w.next (some ⟨[], [], true, port⟩))
    (listed : Spared t.moves w.next port → portOf t.world w.next = some port) :
    Safely (device lib others) (Told s id (Started port))
      (fun a u => Safely (device lib others) (Told s id (Started port))
        (fun b v => Ended s id (Started port) (b.bind fun _ => a) v) (frees ps) u)
      (startedOn id w.next) t := by
  have silent {t : Site} (posted : t.isolate.posted = s.isolate.posted) : Told s id (Started port) t := .inl posted
  refine safelyBind (siteCalloc (silent posted) (fun portOut u freeOut first => ?_)
    fun u aside => staysSilent ps (by rw [aside.isolate, posted]))
  have posted : u.isolate.posted = s.isolate.posted := by rw [first.isolate]; exact posted
  have cell : u.isolate.blocks portOut = some (.cell 0) := by rw [first.isolate, putSame]
  refine safelyEnsure (safelyBind (sitePort (silent posted) cell fun v' n there same read after moved => ?_))
  refine safelyBind (siteValue (silent (same.trans posted)) there fun x aside => ?_)
  have still : x.isolate.posted = s.isolate.posted := by rw [aside.isolate, same, posted]
  refine sitePost (silent still) fun y last => ?_
  have replied : Replied s id (Started port) y := by
    refine ⟨_, by rw [last.isolate, Isolate.tell, still], w, v, others u.moves.length u.world, v'.world, ?_, registry, ?_, ?_⟩
    · rw [last.since.calls, aside.since.calls, after, first.since.calls, calls]
      rfl
    · rw [read]
    · intro spared
      have earlier : Spared v'.moves w.next port := fun move member =>
        spared move (last.since.moves (aside.since.moves member))
      have before : Spared u.moves w.next port := fun move member =>
        earlier move (moved ▸ List.mem_append_left _ member)
      refine earlier (u.world, others u.moves.length u.world) (moved ▸ List.mem_append_right _ (List.mem_singleton_self _)) ?_
      exact first.since.port _ _ before (listed fun move member => before move (first.since.moves member))
  exact siteFrees _ (fun _ posted since => .inr (repliedOn (startedLasts port) posted since replied)) fun _ posted since =>
    cleansUp ps (startedLasts port) (repliedOn (startedLasts port) posted since replied)

theorem startTurn (handle : Handle) (own : ∀ n v, (others n v).lastError = v.lastError) (fresh : s.calls = [])
    (configJson : List (String × Value String)) :
    Safely (device lib others)
      (Told s id (Reports Started (serverPlan lib (some (toNativeUtf8 (jsonEncode configJson))))))
      (Ended s id (Reports Started (serverPlan lib (some (toNativeUtf8 (jsonEncode configJson))))))
      (turn id handle (.start configJson)) s := by
  have proper := @serverProper lib (some (toNativeUtf8 (jsonEncode configJson)))
  have concludes := @serverConcludes lib (some (toNativeUtf8 (jsonEncode configJson)))
  generalize serverPlan lib (some (toNativeUtf8 (jsonEncode configJson))) = o at proper concludes ⊢
  have silent {t : Site} (posted : t.isolate.posted = s.isolate.posted) : Told s id (Reports Started o) t :=
    .inl posted
  refine safelyBind (siteMalloc (silent rfl) (fun json t freeJson first => ?_)
    fun t aside => ⟨silent (by rw [aside.isolate]), nofun⟩)
  have text : t.isolate.blocks json = some (.text (toNativeUtf8 (jsonEncode configJson))) := by rw [first.isolate, putSame]
  have posted : t.isolate.posted = s.isolate.posted := by rw [first.isolate]; rfl
  refine safelyBind (siteCalloc (silent posted) (fun out u freeOut second => ?_)
    fun u aside => ⟨silent (by rw [aside.isolate, posted]), nofun⟩)
  have calls : u.calls = [] := second.since.calls.trans (first.since.calls.trans fresh)
  have posted : u.isolate.posted = s.isolate.posted := by rw [second.isolate]; exact posted
  have named : entry u.isolate (.serverStart json out) = some (.server (some (toNativeUtf8 (jsonEncode configJson)))) := by
    rw [entry, textAt, second.isolate, textThere text freeOut]
  refine safelyEnsure (safelyBind (siteNative (silent posted) named rfl ((concludes _).trans Prod.mk.eta.symm)
    (fun v written done isolate world after wrote => ?_) fun v written failed isolate world after => ?_))
  · obtain ⟨port, rfl⟩ := concludedOk proper done
    have number : written out = (others u.moves.length u.world).next := (Option.some.inj (wrote _ (List.mem_singleton_self _))).symm
    have there : v.isolate.blocks out = some (.cell (others u.moves.length u.world).next) := by
      rw [isolate, writeBlocks, Native.cells, if_pos (List.mem_singleton_self _), number]
    have posted : v.isolate.posted = s.isolate.posted := by rw [isolate]; exact posted
    refine safelyBind (siteValue (silent posted) there fun x third => ?_)
    have posted : x.isolate.posted = s.isolate.posted := by rw [third.isolate, posted]
    refine safelyBind (siteAssign (silent posted) fun y fourth => ?_)
    rw [calls, List.nil_append] at after
    refine tellsPort [json, out] (by rw [fourth.isolate]; exact posted)
      (fourth.since.calls.trans (third.since.calls.trans after)) rfl fun spared => ?_
    refine fourth.since.port _ _ spared (third.since.port _ _ (fun move member => spared move (fourth.since.moves member)) ?_)
    rw [world]
    simp [portOf, concluded, started, lending]
  · simp only [Option.elim, ne_eq, RkQuicStatus.ofStatusOk, failed, not_false_eq_true, if_true]
    rw [calls, List.nil_append] at after
    exact givesUp [json, out] (reportsLast startedLasts o) own (by rw [isolate]; exact posted)
      (concludedReports Prod.mk.eta.symm failed after world)

theorem connectTurn (handle : Handle) (own : ∀ n v, (others n v).lastError = v.lastError) (fresh : s.calls = [])
    (configJson : List (String × Value String)) :
    Safely (device lib others)
      (Told s id (Reports Connected (clientPlan lib (some (toNativeUtf8 (jsonEncode configJson))))))
      (Ended s id (Reports Connected (clientPlan lib (some (toNativeUtf8 (jsonEncode configJson))))))
      (turn id handle (.connect configJson)) s := by
  have proper := @clientProper lib (some (toNativeUtf8 (jsonEncode configJson)))
  have concludes := @clientConcludes lib (some (toNativeUtf8 (jsonEncode configJson)))
  generalize clientPlan lib (some (toNativeUtf8 (jsonEncode configJson))) = o at proper concludes ⊢
  have silent {t : Site} (posted : t.isolate.posted = s.isolate.posted) : Told s id (Reports Connected o) t := .inl posted
  refine safelyBind (siteMalloc (silent rfl) (fun json t freeJson first => ?_)
    fun t aside => ⟨silent (by rw [aside.isolate]), nofun⟩)
  have text : t.isolate.blocks json = some (.text (toNativeUtf8 (jsonEncode configJson))) := by rw [first.isolate, putSame]
  have posted : t.isolate.posted = s.isolate.posted := by rw [first.isolate]; rfl
  refine safelyBind (siteCalloc (silent posted) (fun out u freeOut second => ?_)
    fun u aside => ⟨silent (by rw [aside.isolate, posted]), nofun⟩)
  have text : u.isolate.blocks json = some (.text (toNativeUtf8 (jsonEncode configJson))) := by
    rw [second.isolate, textThere text freeOut]
  have cell : u.isolate.blocks out = some (.cell 0) := by rw [second.isolate, putSame]
  have posted : u.isolate.posted = s.isolate.posted := by rw [second.isolate]; exact posted
  refine safelyBind (siteCalloc (silent posted) (fun session v freeSession third => ?_)
    fun v aside => ⟨silent (by rw [aside.isolate, posted]), nofun⟩)
  have calls : v.calls = [] := third.since.calls.trans (second.since.calls.trans (first.since.calls.trans fresh))
  have posted : v.isolate.posted = s.isolate.posted := by rw [third.isolate]; exact posted
  have named : entry v.isolate (.clientConnect json out session) =
      some (.client (some (toNativeUtf8 (jsonEncode configJson)))) := by
    rw [entry, textAt, third.isolate, textThere text freeSession]
  refine safelyEnsure (safelyBind (siteNative (silent posted) named rfl ((concludes _).trans Prod.mk.eta.symm)
    (fun x written done isolate world after wrote => ?_) fun x written failed isolate world after => ?_))
  · obtain ⟨port, rfl⟩ := concludedOk proper done
    -- the session is numbered before the endpoint
    have handle : written out = (others v.moves.length v.world).next + 1 :=
      (Option.some.inj (wrote (out, .handle) List.mem_cons_self)).symm
    have number : written session = (others v.moves.length v.world).next :=
      (Option.some.inj (wrote (session, .session) (List.mem_cons_of_mem _ (List.mem_singleton_self _)))).symm
    have posted : x.isolate.posted = s.isolate.posted := by rw [isolate]; exact posted
    have there : x.isolate.blocks out = some (.cell (written out)) := by simp [isolate, writeBlocks, Native.cells]
    refine safelyBind (siteValue (silent posted) there fun y fourth => ?_)
    have posted : y.isolate.posted = s.isolate.posted := by rw [fourth.isolate, posted]
    refine safelyBind (siteAssign (silent posted) fun z fifth => ?_)
    have posted : z.isolate.posted = s.isolate.posted := by rw [fifth.isolate]; exact posted
    have there : z.isolate.blocks session = some (.cell (written session)) := by
      rw [fifth.isolate]
      dsimp only
      rw [fourth.isolate, isolate]
      simp [writeBlocks, Native.cells]
    refine safelyBind (siteValue (silent posted) there fun z' sixth => ?_)
    have posted : z'.isolate.posted = s.isolate.posted := by rw [sixth.isolate, posted]
    refine sitePost (silent posted) fun z'' last => cleansUp [json, out, session] (reportsLast connectedLasts _) ?_
    rw [calls, List.nil_append] at after
    have calls := last.since.calls.trans (sixth.since.calls.trans (fifth.since.calls.trans (fourth.since.calls.trans after)))
    refine ⟨_, by rw [last.isolate, Isolate.tell, posted], _, _, calls, rfl, ?_⟩
    rw [handle, number]
  · simp only [Option.elim, ne_eq, RkQuicStatus.ofStatusOk, failed, not_false_eq_true, if_true]
    rw [calls, List.nil_append] at after
    exact givesUp [json, out, session] (reportsLast connectedLasts o) own (by rw [isolate]; exact posted)
      (concludedReports Prod.mk.eta.symm failed after world)

/-! What is decided is decided on the configuration that the program gave. -/

def serverVerdict (lib : Library) (config : ServerConfig) : Outcome Refusal UInt16 := do
  let parsed ← config.parse lib
  startPlan lib parsed

def clientVerdict (lib : Library) (config : ClientConfig) : Outcome Refusal UInt16 := do
  let parsed ← config.parse lib.debug
  connectPlan lib parsed

def unreadable (e : String) : Outcome Refusal UInt16 := .err (invalid ("configJson is not the expected shape: " ++ e))

def Decides (idleTimeout : Duration) (verdict o : Outcome Refusal UInt16) : Prop :=
  (0 ≤ idleTimeout.inMilliseconds → o = verdict) ∧ (idleTimeout.inMilliseconds < 0 → ∃ e, o = unreadable e)

variable {Object : String → List (String × Value String) → Prop}

theorem serverDecides (derived : Derived lib Object) (written : Written Object) (config : QuicServerConfig) :
    Decides config.idleTimeout (serverVerdict lib config.native)
      (serverPlan lib (some (toNativeUtf8 (jsonEncode config.toJson)))) := by
  refine ⟨fun positive => ?_, fun negative => ?_⟩
  · rw [serverPlan, (serverCrosses derived written config _).mpr ⟨positive, rfl⟩]
    rfl
  · obtain ⟨e, refused⟩ := serverUncrossed derived written negative
    exact ⟨e, by rw [serverPlan, refused]; rfl⟩

theorem clientDecides (derived : Derived lib Object) (written : Written Object) (config : QuicClientConfig) :
    Decides config.idleTimeout (clientVerdict lib config.native)
      (clientPlan lib (some (toNativeUtf8 (jsonEncode config.toJson)))) := by
  refine ⟨fun positive => ?_, fun negative => ?_⟩
  · rw [clientPlan, (clientCrosses derived written config _).mpr ⟨positive, rfl⟩]
    rfl
  · obtain ⟨e, refused⟩ := clientUncrossed derived written negative
    exact ⟨e, by rw [clientPlan, refused]; rfl⟩

theorem configsAnswered {handle : Handle} (derived : Derived lib Object) (written : Written Object)
    (own : ∀ n v, (others n v).lastError = v.lastError) (fresh : s.calls = []) :
    (∀ (config : QuicServerConfig) rs x t,
      run (advance (device lib others)) (turn id handle (.start config.toJson), s) rs = some (x, t) →
        ∃ o, Decides config.idleTimeout (serverVerdict lib config.native) o ∧ Told s id (Reports Started o) t ∧
          (x = .done () → Replied s id (Reports Started o) t)) ∧
    ∀ (config : QuicClientConfig) rs x t,
      run (advance (device lib others)) (turn id handle (.connect config.toJson), s) rs = some (x, t) →
        ∃ o, Decides config.idleTimeout (clientVerdict lib config.native) o ∧ Told s id (Reports Connected o) t ∧
          (x = .done () → Replied s id (Reports Connected o) t) := by
  have ends {P : Site → Reply → Prop} {x : Dart Unit} {t : Site}
      (safe : Safely (device lib others) (Told s id P) (Ended s id P) x t) :
      Told s id P t ∧ (x = .done () → Replied s id P t) := by
    cases x with
    | done a => exact ⟨safe.1, fun _ => safe.2 rfl⟩
    | thrown => exact ⟨safe.1, nofun⟩
    | act request next => exact ⟨safe.1, nofun⟩
  refine ⟨fun config rs x t ran => ?_, fun config rs x t ran => ?_⟩
  · exact ⟨_, serverDecides derived written config, ends (safelyRun (startTurn handle own fresh config.toJson) ran)⟩
  · exact ⟨_, clientDecides derived written config, ends (safelyRun (connectTurn handle own fresh config.toJson) ran)⟩

end Turns

def busy (_ : Nat) (w : World) : World := {started w 5353 with lastError := w.lastError}

def blank : Site := ⟨⟨fun _ => none, fun _ => none, 0, [], []⟩, freshWorld, [], []⟩

def goesWell : List Answer :=
  [.address 0, .address 1, .status .ok fun _ => 4, .number 4, .done, .address 2, .status .ok fun _ => 4433, .number 4433,
    .done, .done, .done, .done]

theorem callGoes {lib : Library} {others : Nat → World → World} {s : Site} {call : Native} {e : Entry} {v : World}
    {written : Nat → UInt64} {next : Answer → Dart Unit} (named : entry s.isolate call = some e)
    (concludes : e.call lib (lending call (others s.moves.length s.world)) = (.ok, v))
    (wrote : ∀ o ∈ outs call, v.cells o.2 = some (written o.1)) :
    advance (device lib others) (.act (.native call) next, s) (.status .ok written) =
      some (next (.status .ok written), ⟨(s.isolate.ask call .ok written).write call.cells written, v,
        s.calls ++ [(others s.moves.length s.world, v)], s.moves ++ [(s.world, others s.moves.length s.world)]⟩) := by
  have served : serves lib s.isolate (others s.moves.length s.world) (.native call) (.status .ok written) = some v := by
    cases call <;> cases named <;> simp only [serves, entry, concludes] <;> exact if_pos ⟨trivial, fun _ => wrote⟩
  simp only [advance, device, answers, Worker.answers, if_true, Option.bind_some, served, Option.map_some]
  rfl

theorem startGoes {lib : Library} {configJson : List (String × Value String)}
    (plan : serverPlan lib (some (toNativeUtf8 (jsonEncode configJson))) = .ok 4433) :
    ∃ t, run (advance (device lib busy)) (turn 7 0 (.start configJson), blank) goesWell = some (.done (), t) ∧
      t.isolate.posted = [(7, .started 4 4433)] := by
  have concludes := @serverConcludes lib (some (toNativeUtf8 (jsonEncode configJson)))
  rw [plan] at concludes
  refine ⟨_, runCons.mpr ⟨_, rfl, runCons.mpr ⟨_, rfl, runCons.mpr ⟨_, callGoes rfl (concludes _) ?_, rfl⟩⟩⟩, rfl⟩
  intro o member
  cases List.mem_singleton.mp member
  rfl

theorem configsAnsweredBusy : ∃ t o, Decides spelledOut.idleTimeout (serverVerdict decoding spelledOut.native) o ∧
    Replied blank 7 (Reports Started o) t ∧ t.isolate.posted = [(7, .started 4 4433)] := by
  have verdict : serverVerdict decoding spelledOut.native = .ok 4433 := by decide +kernel
  have plan := ((serverDecides decodingDerived decodesWritten spelledOut).1 (by decide)).trans verdict
  obtain ⟨t, ran, posted⟩ := startGoes plan
  have own (n : Nat) (w : World) : (busy n w).lastError = w.lastError := rfl
  have fresh : blank.calls = [] := rfl
  obtain ⟨o, decides, -, replies⟩ := (configsAnswered decodingDerived decodesWritten own fresh).1 spelledOut _ _ t ran
  exact ⟨t, o, decides, replies rfl, posted⟩

end RkQuic.Starting
