import RkQuic.ConfigJson
import RkQuic.Creating
import RkQuic.EventJson
import RkQuic.Programs

/-! `pollLoop`: the isolate that waits for events, request by request. What it asks is the allocator
of package:ffi, `rk_quic_server_poll` in its two parts, and the port of the events. -/
namespace RkQuic.Poller
open Creating (Handle)
open ConfigJson EventJson Ffi Programs

def pollSlice : Duration := ⟨200000, by decide, by decide⟩

inductive Request where
  | calloc
  | lookup (handle : Handle) (out_json : Nat)
  | nextEvent (timeout_ms : UInt32) (out_json : Nat)
  | value (out : Nat)
  | toDartString (p : Nat)
  | stringFree (p : Nat)
  | setNull (out : Nat)
  | send (json : String)
  | free (out : Nat)
  deriving DecidableEq, Repr

inductive Answer where
  | address (p : Nat)
  | noMemory
  | done
  | found (there : Bool)
  | event (e : Event) (p : Nat)
  | expired
  | pointer (p : Option Nat)
  | text (s : Option String)
  deriving DecidableEq, Repr

/-- `blocks` are the pointers that Dart has allocated and not freed, and `strings` what it was given
by the library and has not given back. `holding` is a poll that keeps the endpoint it has found.
`refused`, `taken` and `posted` are history: an unknown handle, and what the library has handed over
and the port been sent. -/
structure Isolate where
  blocks : Nat → Option (Option Nat)
  strings : Nat → Option Bytes
  holding : Bool
  refused : Bool
  taken : List Event
  posted : List String

def Isolate.put (s : Isolate) (out : Nat) (b : Option (Option Nat)) : Isolate :=
  {s with blocks := Function.update s.blocks out b}

def Isolate.hold (s : Isolate) (p : Nat) (b : Option Bytes) : Isolate :=
  {s with strings := Function.update s.strings p b}

def answers (s : Isolate) : Request → Answer → Option Isolate
  | .calloc, .address p => if s.blocks p = none then some (s.put p (some none)) else none
  | .calloc, .noMemory => some s
  | .lookup _ out_json, .found there => some {s.put out_json (some none) with holding := there, refused := !there}
  | .nextEvent _ out_json, .event e p =>
    if s.strings p = none then
      some {(s.put out_json (some (some p))).hold p (some (intoOwnedCString (toJson e))) with
        holding := false, taken := s.taken ++ [e]}
    else none
  | .nextEvent _ _, .expired => some {s with holding := false}
  | .value out, .pointer p => if s.blocks out = some p then some s else none
  | .toDartString p, .text t => if (s.strings p).bind toDartString = t then some s else none
  | .stringFree p, .done => some (s.hold p none)
  | .setNull out, .done => some (s.put out (some none))
  | .send json, .done => some {s with posted := s.posted ++ [json]}
  | .free out, .done => some (s.put out none)
  | _, _ => none

def able (s : Isolate) : Request → Prop
  | .lookup _ out | .value out | .setNull out | .free out => s.blocks out ≠ none
  | .nextEvent _ out => s.blocks out ≠ none ∧ s.holding = true
  | .toDartString p | .stringFree p => s.strings p ≠ none
  | .calloc | .send _ => True

def device : Device Request Answer Isolate := ⟨able, answers⟩

abbrev Dart := Program Request Answer

def calloc : Dart Nat :=
  .ask .calloc fun
    | .address p => some p
    | _ => none

def perform (request : Request) : Dart Unit := .ask request fun _ => some ()

/- The wait is capped. A poll that has found its endpoint keeps it until the wait is over. -/
def serverPoll (handle : Handle) (timeout_ms : UInt32) (out_json : Nat) : Dart Status := do
  let found ← .ask (.lookup handle out_json) fun
    | .found there => some there
    | _ => none
  if found = false then pure .unknownHandle
  else
    .ask (.nextEvent (min timeout_ms 60000) out_json) fun
      | .event _ _ => some .ok
      | .expired => some .wouldBlock
      | _ => none

def turn (handle : Handle) (out : Nat) : Dart Bool := do
  let status ← serverPoll handle (UInt32.ofNat pollSlice.inMilliseconds.toNat) out
  let status := statusFromWireName (toDartString (asCStr status))
  if status = .ok then do
    let pointer ← .ask (.value out) fun
      | .pointer p => some p
      | _ => none
    match pointer with
    | some p => do
      let json ← .ask (.toDartString p) fun
        | .text t => t
        | _ => none
      perform (.stringFree p)
      perform (.setNull out)
      perform (.send json)
      pure true
    | none => pure true
  else pure (decide (status = .wouldBlock))

def pollLoop (handle : Handle) : Loop Request Answer Nat := ⟨calloc, turn handle, fun out => perform (.free out)⟩

def newIsolate : Isolate := ⟨fun _ => none, fun _ => none, false, false, [], []⟩

def cells (out : Nat) (c : Option Nat) : Nat → Option (Option Nat) := Function.update (fun _ => none) out (some c)

structure Even (s : Isolate) : Prop where
  strings : s.strings = fun _ => none
  posted : s.posted = s.taken.map toJson

structure During (s : Isolate) : Prop where
  cell : s.blocks = (fun _ => none) ∨ ∃ out c, s.blocks = cells out c
  hand : Even s ∨ ∃ before e, s.taken = before ++ [e] ∧ s.posted = before.map toJson ∧
    (s.strings = (fun _ => none) ∨ ∃ p, s.strings = Function.update (fun _ => none) p (some (intoOwnedCString (toJson e))))

structure Between (out : Nat) (s : Isolate) : Prop where
  even : Even s
  cell : s.blocks = cells out none
  holding : s.holding = false
  refused : s.refused = false

structure Refused (out : Nat) (s : Isolate) : Prop where
  even : Even s
  cell : s.blocks = cells out none
  refused : s.refused = true

structure Left (s : Isolate) : Prop where
  even : Even s
  blocks : s.blocks = fun _ => none
  ended : s.refused = true ∨ s.taken = []

structure Handed (out p : Nat) (e : Event) (s t : Isolate) : Prop where
  cell : t.blocks = cells out (some p)
  strings : t.strings = Function.update (fun _ => none) p (some (intoOwnedCString (toJson e)))
  taken : t.taken = s.taken ++ [e]
  posted : t.posted = s.posted
  holding : t.holding = false
  refused : t.refused = false

section Turn
variable {s : Isolate} {handle : Handle} {out : Nat}

theorem cellsAt (out : Nat) (c : Option Nat) : cells out c out = some c := Function.update_self ..

theorem cellsPut (out : Nat) (c d : Option Nat) : Function.update (cells out c) out (some d) = cells out d :=
  Function.update_idem ..

theorem cellsFree (out : Nat) (c : Option Nat) : Function.update (cells out c) out none = fun _ => none := by
  rw [cells, Function.update_idem, Function.update_eq_self]

theorem duringEven (cell : s.blocks = (fun _ => none) ∨ ∃ out c, s.blocks = cells out c) (even : Even s) : During s :=
  ⟨cell, .inl even⟩

theorem pollSafely {timeout_ms : UInt32} (between : Between out s) :
    Safely device During (fun status t => (status = some .ok ∧ ∃ p e, Handed out p e s t) ∨
      (status = some .wouldBlock ∧ Between out t) ∨ (status = some .unknownHandle ∧ Refused out t))
      (serverPoll handle timeout_ms out) s := by
  obtain ⟨even, cell, holding, refused⟩ := between
  have there : s.blocks out ≠ none := by rw [cell, cellsAt]; simp
  refine safelyBind (safelyAsk (duringEven (.inr ⟨out, none, cell⟩) even) there fun r t answered => ?_)
  cases r <;> simp only [device, answers] at answered <;> try cases answered
  rename_i found
  have cleared : Function.update s.blocks out (some none) = cells out none := by rw [cell, cellsPut]
  cases found with
  | false => exact .inr (.inr ⟨rfl, ⟨even.strings, even.posted⟩, cleared, rfl⟩)
  | true =>
    refine safelyAsk (duringEven (.inr ⟨out, none, cleared⟩) ⟨even.strings, even.posted⟩)
      ⟨by simp [Isolate.put], rfl⟩ fun r t answered => ?_
    cases r <;> simp only [device, answers] at answered <;> try cases answered
    · split at answered <;> cases answered
      rename_i e p _
      refine .inl ⟨rfl, p, e, ?_, ?_, rfl, rfl, rfl, rfl⟩
      · simp only [Isolate.hold, Isolate.put, cleared, cellsPut]
      · simp only [Isolate.hold, Isolate.put, even.strings]
    · exact .inr (.inl ⟨rfl, ⟨even.strings, even.posted⟩, cleared, rfl, rfl⟩)

theorem turnSafely (between : Between out s) :
    Safely device During (fun again t => if again = some true then Between out t else Refused out t) (turn handle out) s := by
  refine safelyBind (safelyMono (fun status t polled => ?_) (pollSafely between))
  rcases polled with ⟨rfl, p, e, cell, strings, taken, posted, holding, refused⟩ | ⟨rfl, next⟩ | ⟨rfl, ended⟩
  · have during (u : Isolate) (blocks : ∃ c, u.blocks = cells out c) (sent : u.posted = s.posted) (took : u.taken = t.taken)
        (left : u.strings = (fun _ => none) ∨
          u.strings = Function.update (fun _ => none) p (some (intoOwnedCString (toJson e)))) : During u :=
      ⟨.inr ⟨out, blocks⟩, .inr ⟨s.taken, e, took.trans taken, sent.trans between.even.posted,
        left.imp_right fun same => ⟨p, same⟩⟩⟩
    simp only [Option.elim, statusCrosses]
    refine safelyBind (safelyAsk (during t ⟨_, cell⟩ posted rfl (.inr strings)) ?_ fun r u answered => ?_)
    · show t.blocks out ≠ none
      rw [cell, cellsAt]
      simp
    cases r <;> simp only [device, answers] at answered <;> try cases answered
    split at answered <;> cases answered
    rename_i pointer same
    rw [cell, cellsAt] at same
    cases same
    have held : t.strings p = some (intoOwnedCString (toJson e)) := by rw [strings, Function.update_self]
    refine safelyBind (safelyAsk (during t ⟨_, cell⟩ posted rfl (.inr strings)) ?_ fun r u answered => ?_)
    · show t.strings p ≠ none
      simp [held]
    cases r <;> simp only [device, answers] at answered <;> try cases answered
    split at answered <;> cases answered
    rename_i text read
    rw [held, Option.bind_some, show toDartString (intoOwnedCString (toJson e)) = some (toJson e) from polledJson e] at read
    subst read
    have back : Function.update t.strings p none = fun _ => none := by
      rw [strings, Function.update_idem, Function.update_eq_self]
    refine safelyBind (safelyAsk (during t ⟨_, cell⟩ posted rfl (.inr strings)) ?_ fun r u answered => ?_)
    · show t.strings p ≠ none
      simp [held]
    cases r <;> cases answered
    refine safelyBind (safelyAsk (during (t.hold p none) ⟨_, cell⟩ posted rfl (.inl back)) ?_ fun r u answered => ?_)
    · show t.blocks out ≠ none
      rw [cell, cellsAt]
      simp
    cases r <;> cases answered
    have cleared : Function.update t.blocks out (some none) = cells out none := by rw [cell, cellsPut]
    refine safelyBind (safelyAsk (during ((t.hold p none).put out (some none)) ⟨_, cleared⟩ posted rfl (.inl back)) trivial
      fun r u answered => ?_)
    cases r <;> cases answered
    refine ⟨⟨back, ?_⟩, cleared, holding, refused⟩
    show t.posted ++ [toJson e] = t.taken.map toJson
    rw [posted, taken, between.even.posted, List.map_append, List.map_singleton]
  · simp only [Option.elim, statusCrosses]
    exact next
  · simp only [Option.elim, statusCrosses]
    exact ended

theorem leavesSafely (ended : Refused out s) :
    Safely device During (fun _ t => Left t) ((pollLoop handle).leave out) s := by
  show Safely device During (fun _ t => Left t) (perform (.free out)) s
  refine safelyAsk (duringEven (.inr ⟨out, none, ended.cell⟩) ended.even) ?_ fun r t answered => ?_
  · show s.blocks out ≠ none
    rw [ended.cell, cellsAt]
    simp
  · cases r <;> cases answered
    exact ⟨⟨ended.even.strings, ended.even.posted⟩, by rw [Isolate.put, ended.cell, cellsFree], .inl ended.refused⟩

theorem entersSafely : Looping device During Between Refused Left (.entering (pollLoop handle).enter) newIsolate := by
  show Safely device During (fun out t => out.elim (Left t) fun out => Between out t) calloc newIsolate
  refine safelyAsk (duringEven (.inl rfl) ⟨rfl, rfl⟩) trivial fun r t answered => ?_
  cases r <;> simp only [device, answers] at answered <;> try cases answered
  · exact ⟨⟨rfl, rfl⟩, rfl, rfl, rfl⟩
  · exact ⟨⟨rfl, rfl⟩, rfl, .inr rfl⟩

end Turn

/-! What an answer does to what the isolate has taken and sent on. -/

def Request.shared : Request → Bool
  | .lookup _ _ | .nextEvent _ _ => true
  | _ => false

inductive Told (s t : Isolate) : Request → Answer → Prop where
  | aside {request a} (own : request.shared = false) (taken : t.taken = s.taken) (posted : t.posted = s.posted)
      (holding : t.holding = s.holding) (refused : t.refused = s.refused) : Told s t request a
  | looked {handle out there} (taken : t.taken = s.taken) (posted : t.posted = s.posted) (holding : t.holding = there)
      (refused : t.refused = !there) : Told s t (.lookup handle out) (.found there)
  | took {timeout_ms out e p} (taken : t.taken = s.taken ++ [e]) (posted : t.posted = s.posted) (holding : t.holding = false)
      (refused : t.refused = s.refused) : Told s t (.nextEvent timeout_ms out) (.event e p)
  | waited {timeout_ms out} (taken : t.taken = s.taken) (posted : t.posted = s.posted) (holding : t.holding = false)
      (refused : t.refused = s.refused) : Told s t (.nextEvent timeout_ms out) .expired
  | sent {json} (taken : t.taken = s.taken) (posted : t.posted = s.posted ++ [json]) (holding : t.holding = s.holding)
      (refused : t.refused = s.refused) : Told s t (.send json) .done

theorem told {s t : Isolate} {request : Request} {a : Answer} (answered : answers s request a = some t) :
    Told s t request a := by
  cases request with
  | lookup handle out => cases a <;> cases answered; exact .looked rfl rfl rfl rfl
  | nextEvent timeout_ms out =>
    cases a <;> simp only [answers] at answered <;> try cases answered
    · split at answered <;> cases answered
      exact .took rfl rfl rfl rfl
    · exact .waited rfl rfl rfl rfl
  | send json => cases a <;> cases answered; exact .sent rfl rfl rfl rfl
  | _ =>
    cases a <;> simp only [answers] at answered <;> try cases answered
    all_goals first
      | exact .aside rfl rfl rfl rfl rfl
      | (split at answered <;> cases answered; exact .aside rfl rfl rfl rfl rfl)

theorem sentGrows {s t : Isolate} {request : Request} {a : Answer} (told : Told s t request a) :
    t.posted = s.posted ++ t.posted.drop s.posted.length := by
  cases told with
  | aside _ _ posted | looked _ posted | took _ posted | waited _ posted => rw [posted]; simp
  | sent _ posted => rw [posted]; simp

theorem nowDuring {p : Part Request Answer Nat} {s : Isolate} (looping : Looping device During Between Refused Left p s) :
    During s := by
  have between {out : Nat} (now : Between out s) : During s := duringEven (.inr ⟨out, none, now.cell⟩) now.even
  have refused {out : Nat} (now : Refused out s) : During s := duringEven (.inr ⟨out, none, now.cell⟩) now.even
  have left (now : Left s) : During s := duringEven (.inl now.blocks) now.even
  cases p with
  | left => exact left looping
  | entering rest =>
    cases rest with
    | act => exact looping.1
    | done out => exact between looping
    | thrown => exact left looping
  | turning out rest =>
    cases rest with
    | act => exact looping.1
    | done again =>
      cases again with
      | false => exact refused looping
      | true => exact between looping
    | thrown => exact refused looping
  | leaving rest =>
    cases rest with
    | act => exact looping.1
    | done | thrown => exact left looping

theorem turnWithin (handle : Handle) (out : Nat) : (turn handle out).Within 7 := by
  have polls (timeout_ms : UInt32) : (serverPoll handle timeout_ms out).Within 2 := by
    refine withinBind (m := 1) (n := 1) (withinAsk _ _) fun found => ?_
    split
    · exact trivial
    · exact withinAsk _ _
  refine withinBind (n := 5) (polls _) fun status => ?_
  dsimp only
  split
  · refine withinBind (n := 4) (withinAsk _ _) fun pointer => ?_
    split
    · exact withinBind (n := 3) (withinAsk _ _) fun json => withinBind (n := 2) (withinAsk _ _) fun _ =>
        withinBind (n := 1) (withinAsk _ _) fun _ => withinBind (n := 0) (withinAsk _ _) fun _ => trivial
    · exact trivial
  · exact trivial

end RkQuic.Poller
