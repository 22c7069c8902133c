import RkQuic.EventQueue
import RkQuic.LastError

/-! Who owns the strings that the library allocates. A string is handed over by writing its
address for the caller, and given back with `rk_quic_string_free`; the caller frees only what it
was given. Where the allocator puts a string is its own affair. -/
namespace RkQuic.Ownership
open Channel Creating LastError Runs

/-- `heap` is what has been allocated and not taken back, by address; `held` is history: what the
caller has been given and has not freed. -/
structure Memory where
  slots : Nat → Option String
  queues : Handle → Option (SyncChannel Event)
  heap : Nat → Option Bytes
  held : Nat → Bool

inductive Op where
  | polls (thread : Nat) (handle : Handle) (timeout_ms : UInt32) (out_json : Bool) (p : Nat)
  | reads (thread : Nat) (p : Nat)
  | calls (thread : Nat) (entry : LastError.Entry) (b : Below)
  | frees (s : Option Nat)
  | registers (handle : Handle)
  | removes (handle : Handle)
  | emits (handle : Handle) (event : Event)

/- `CString::into_raw`: `p` is where the allocator puts it, which it does where nothing is. -/
def Memory.intoRaw (m : Memory) (p : Nat) (s : Bytes) : Option Memory :=
  match m.heap p with
  | none => some {m with heap := Function.update m.heap p (some s)}
  | some _ => none

/- `write_out`, through a pointer that may be null. -/
def Memory.writeOut (m : Memory) (out : Bool) (p : Nat) : Memory :=
  if out then {m with held := Function.update m.held p true} else m

def Memory.forget (m : Memory) (thread : Nat) : Memory := {m with slots := Function.update m.slots thread none}

/- An event always serialises. -/
def poll (m : Memory) (thread : Nat) (handle : Handle) (out_json : Bool) (p : Nat) : Option (Status × Memory) :=
  let m := m.forget thread
  match m.queues handle with
  | none => some (.unknownHandle, m)
  | some events =>
    let (event, events) := EventQueue.nextEvent events
    let m := {m with queues := Function.update m.queues handle (some events)}
    match event with
    | none => some (.wouldBlock, m)
    | some event => (m.intoRaw p (EventJson.intoOwnedCString (EventJson.toJson event))).map fun m => (.ok, m.writeOut out_json p)

def rkQuicLastError (m : Memory) (thread : Nat) (p : Nat) : Option Memory :=
  match lastError (m.slots thread) with
  | none => some m
  | some s => ((m.forget thread).intoRaw p s).map fun m => m.writeOut true p

def rkQuicStringFree (m : Memory) : Option Nat → Option Memory
  | none => some m
  | some p =>
    if m.held p then
      some {m with heap := Function.update m.heap p none, held := Function.update m.held p false}
    else none

def step (m : Memory) : Op → Option Memory
  | .polls thread handle _ out_json p => (poll m thread handle out_json p).map Prod.snd
  | .reads thread p => rkQuicLastError m thread p
  | .calls thread entry b =>
    match entry with
    | .serverPoll _ _ => none
    | entry => some {m with slots := Function.update m.slots thread (entry.finish b (m.slots thread)).2}
  | .frees s => rkQuicStringFree m s
  | .registers handle =>
    some {m with queues := Function.update m.queues handle (some (.syncChannel EventQueue.eventQueueDepth))}
  | .removes handle => some {m with queues := Function.update m.queues handle none}
  | .emits handle event =>
    some {m with queues := Function.update m.queues handle ((m.queues handle).map fun tx => EventQueue.emit tx event)}

def init : Memory := ⟨fun _ => none, fun _ => none, fun _ => none, fun _ => false⟩

def Balanced (m : Memory) : Prop := ∀ p, (m.heap p).isSome = m.held p

def Memory.next (m : Memory) (handle : Handle) : Option Event :=
  (m.queues handle).bind fun events => (EventQueue.nextEvent events).1

def HandsOver (m : Memory) (op : Op) : Prop :=
  ∀ thread handle timeout_ms out_json p event v, op = .polls thread handle timeout_ms out_json p →
    m.next handle = some event → step m op = some v →
    v.held p = true ∧ v.heap p = some (Utf8.encode (EventJson.toJson event) ++ [0])

def Accountable (ops : List Op) : Prop :=
  ∀ before after m, ops = before ++ after → run step init before = some m →
    Balanced m ∧ ∀ op rest, after = op :: rest → HandsOver m op

/-- The step is not a poll with no place to write that finds an event. -/
def PollsSomewhere (m : Memory) (op : Op) : Prop :=
  ∀ thread handle timeout_ms p, op = .polls thread handle timeout_ms false p → m.next handle = none

/-! What one step does to the ledger. -/

inductive Deal (m : Memory) (op : Op) (v : Memory) : Prop where
  | aside (heap : v.heap = m.heap) (held : v.held = m.held)
  | gives (p : Nat) (s : Bytes) (free : m.heap p = none) (heap : v.heap = Function.update m.heap p (some s))
      (held : v.held = Function.update m.held p true)
  | loses (thread : Nat) (handle : Handle) (timeout_ms : UInt32) (p : Nat) (event : Event) (s : Bytes)
      (nowhere : op = .polls thread handle timeout_ms false p) (next : m.next handle = some event)
      (free : m.heap p = none) (heap : v.heap = Function.update m.heap p (some s)) (held : v.held = m.held)
  | takes (p : Nat) (mine : m.held p = true) (heap : v.heap = Function.update m.heap p none)
      (held : v.held = Function.update m.held p false)

theorem intoRawMoves {m v : Memory} {p : Nat} {s : Bytes} (done : m.intoRaw p s = some v) :
    m.heap p = none ∧ v.heap = Function.update m.heap p (some s) ∧ v.held = m.held := by
  unfold Memory.intoRaw at done
  split at done <;> cases done
  exact ⟨by assumption, rfl, rfl⟩

theorem pollMoves {m v : Memory} {thread : Nat} {handle : Handle} {out_json : Bool} {p : Nat} {status : Status}
    (done : poll m thread handle out_json p = some (status, v)) :
    (m.next handle = none ∧ v.heap = m.heap ∧ v.held = m.held) ∨
      ∃ event, m.next handle = some event ∧ m.heap p = none ∧
        v.heap = Function.update m.heap p (some (EventJson.intoOwnedCString (EventJson.toJson event))) ∧
        v.held = if out_json then Function.update m.held p true else m.held := by
  simp only [poll, Memory.forget] at done
  split at done
  · rename_i absent
    cases done
    exact .inl ⟨by rw [Memory.next, absent]; rfl, rfl, rfl⟩
  · rename_i events there
    have next : m.next handle = (EventQueue.nextEvent events).1 := by rw [Memory.next, there]; rfl
    rcases answer : EventQueue.nextEvent events with ⟨_ | event, rest⟩
    · rw [answer] at done next
      cases done
      exact .inl ⟨next, rfl, rfl⟩
    · rw [answer] at done next
      obtain ⟨u, raw, same⟩ := Option.map_eq_some_iff.mp done
      cases same
      obtain ⟨free, heap, held⟩ := intoRawMoves raw
      refine .inr ⟨event, next, free, ?_, ?_⟩
      · cases out_json <;> exact heap
      · cases out_json with
        | false => exact held
        | true => exact congrArg (Function.update · p true) held

theorem deals {m v : Memory} {op : Op} (one : step m op = some v) : Deal m op v := by
  cases op with
  | polls thread handle timeout_ms out_json p =>
    obtain ⟨⟨status, v⟩, done, rfl⟩ := Option.map_eq_some_iff.mp one
    rcases pollMoves done with ⟨-, heap, held⟩ | ⟨event, next, free, heap, held⟩
    · exact .aside heap held
    · cases out_json with
      | false => exact .loses thread handle timeout_ms p event _ rfl next free heap held
      | true => exact .gives p _ free heap held
  | reads thread p =>
    simp only [step, rkQuicLastError] at one
    split at one
    · cases one
      exact .aside rfl rfl
    · obtain ⟨u, raw, rfl⟩ := Option.map_eq_some_iff.mp one
      obtain ⟨free, heap, held⟩ := intoRawMoves raw
      refine .gives p _ free heap ?_
      rw [Memory.writeOut, if_pos rfl, held]
      rfl
  | calls thread entry b =>
    simp only [step] at one
    split at one <;> cases one
    exact .aside rfl rfl
  | frees s =>
    cases s with
    | none => cases one; exact .aside rfl rfl
    | some p =>
      simp only [step, rkQuicStringFree] at one
      split at one <;> cases one
      exact .takes p (by assumption) rfl rfl
  | registers handle | removes handle | emits handle event => cases one; exact .aside rfl rfl

theorem balancedStep {m v : Memory} {op : Op} (balanced : Balanced m) (somewhere : PollsSomewhere m op)
    (one : step m op = some v) : Balanced v := by
  intro q
  cases deals one with
  | aside heap held => rw [heap, held]; exact balanced q
  | gives p s free heap held =>
    rw [heap, held]
    by_cases same : q = p
    · simp [same]
    · simpa [same] using balanced q
  | loses thread handle timeout_ms p event s nowhere next =>
    rw [somewhere thread handle timeout_ms p nowhere] at next
    cases next
  | takes p mine heap held =>
    rw [heap, held]
    by_cases same : q = p
    · simp [same]
    · simpa [same] using balanced q

theorem lostUnbalanced {m v : Memory} {p : Nat} {s : Bytes} (balanced : Balanced m) (free : m.heap p = none)
    (heap : v.heap = Function.update m.heap p (some s)) (held : v.held = m.held) : ¬ Balanced v := by
  intro after
  have before := balanced p
  have now := after p
  rw [heap, held, Function.update_self, ← before, free] at now
  cases now

theorem lostForever {m v : Memory} {ops : List Op} {p : Nat} (ran : run step m ops = some v) (there : m.heap p ≠ none)
    (lost : m.held p = false) : v.heap p = m.heap p ∧ v.held p = false := by
  refine runKeeps (P := fun v => v.heap p = m.heap p ∧ v.held p = false) (fun u op v old one => ?_) ⟨rfl, lost⟩ ran
  have used : ∀ q, u.heap q = none → p ≠ q := by
    rintro q free rfl
    exact there (old.1.symm.trans free)
  cases deals one with
  | aside heap held => rw [heap, held]; exact old
  | gives q s free heap held =>
    rw [heap, held, Function.update_of_ne (used q free), Function.update_of_ne (used q free)]
    exact old
  | loses thread handle timeout_ms q event s nowhere next free heap held =>
    rw [heap, held, Function.update_of_ne (used q free)]
    exact old
  | takes q mine heap held =>
    have other : p ≠ q := by
      rintro rfl
      rw [old.2] at mine
      cases mine
    rw [heap, held, Function.update_of_ne other, Function.update_of_ne other]
    exact old

theorem handsOver {m : Memory} {op : Op} (somewhere : PollsSomewhere m op) : HandsOver m op := by
  rintro thread handle timeout_ms out_json p event v rfl next one
  obtain ⟨⟨status, v⟩, done, rfl⟩ := Option.map_eq_some_iff.mp one
  rcases pollMoves done with ⟨none_, -⟩ | ⟨event', next', -, heap, held⟩
  · rw [none_] at next
    cases next
  · cases next.symm.trans next'
    cases out_json with
    | false =>
      rw [somewhere thread handle timeout_ms p rfl] at next
      cases next
    | true =>
      have json : EventJson.intoOwnedCString (EventJson.toJson event) = Utf8.encode (EventJson.toJson event) ++ [0] := by
        rw [EventJson.intoOwnedCString, EventJson.cStringJson, Ffi.toNativeUtf8]
      exact ⟨by simp [held], by simp [heap, json]⟩

theorem stringsAccountedFor {ops : List Op} {m : Memory} (ran : run step init ops = some m) :
    Accountable ops ↔ Along step PollsSomewhere init ops := by
  constructor
  · intro accountable
    refine alongEach.mpr ?_
    rintro before op after u rfl reached thread handle timeout_ms p rfl
    obtain ⟨balanced, -⟩ := accountable before _ u rfl reached
    obtain ⟨u', reached', rest⟩ := runAppend.mp ran
    cases reached.symm.trans reached'
    obtain ⟨v, one, -⟩ := runCons.mp rest
    obtain ⟨still, -⟩ := accountable _ after v (by simp) (runSnoc.mpr ⟨u, reached, one⟩)
    obtain ⟨⟨status, v⟩, done, rfl⟩ := Option.map_eq_some_iff.mp one
    rcases pollMoves done with ⟨none_, -⟩ | ⟨event, -, free, heap, held⟩
    · exact none_
    · exact absurd still (lostUnbalanced balanced free heap held)
  · rintro met before after u rfl reached
    obtain ⟨sofar, later⟩ := (alongAppend reached).mp met
    refine ⟨alongKeeps (fun m op v => balancedStep) (fun p => rfl) sofar reached, ?_⟩
    rintro op rest rfl
    exact handsOver later.1

def closedNews : Event := .sessionClosed 7 "gone"

def polledNowhere : List Op := [.registers 1, .emits 1 closedNews, .polls 0 1 0 false 0]

theorem eventSwallowed : ∃ m, run step init polledNowhere = some m ∧ ¬ Accountable polledNowhere ∧
    m.next 1 = none ∧ ∀ ops v, run step m ops = some v → v.heap 0 ≠ none ∧ v.held 0 = false := by
  have seen : (run step init polledNowhere).map (fun m => ((m.heap 0).isSome, m.held 0, m.next 1)) =
      some (true, false, none) := by decide +kernel
  obtain ⟨m, ran, same⟩ := Option.map_eq_some_iff.mp seen
  simp only [Prod.mk.injEq] at same
  obtain ⟨there, lost, taken⟩ := same
  have there : m.heap 0 ≠ none := Option.isSome_iff_ne_none.mp there
  refine ⟨m, ran, fun accountable => ?_, taken, fun ops v more => ?_⟩
  · have balanced := (accountable polledNowhere [] m (by simp) ran).1 0
    rw [lost] at balanced
    exact there (Option.isSome_eq_false_iff.mp balanced |> Option.isNone_iff_eq_none.mp)
  · obtain ⟨stays, never⟩ := lostForever more there lost
    exact ⟨stays ▸ there, never⟩

def polledAndFreed : List Op :=
  [.registers 1, .polls 0 1 0 false 0, .emits 1 closedNews, .polls 0 1 5000 true 0, .frees (some 0), .frees none]

def pollsSafely (m : Memory) : Op → Bool
  | .polls _ handle _ false _ => (m.next handle).isNone
  | _ => true

theorem stringsAccountedForFreed : (run step init polledAndFreed).isSome = true ∧ Accountable polledAndFreed := by
  have there : (run step init polledAndFreed).isSome = true := by decide +kernel
  obtain ⟨m, ran⟩ := Option.isSome_iff_exists.mp there
  have checked : checks step pollsSafely init polledAndFreed = true := by decide +kernel
  refine ⟨there, (stringsAccountedFor ran).mpr (alongChecks (fun m op checked => ?_) checked)⟩
  rintro thread handle timeout_ms p rfl
  simpa [pollsSafely] using checked

end RkQuic.Ownership
