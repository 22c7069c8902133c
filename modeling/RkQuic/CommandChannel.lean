import RkQuic.Runs

/-! `CommandChannel`: a reply goes to the call that has its id. Who replies is left open
here: a reply may be missing, come twice or have an id that nobody asked with, and the
channel may be disposed at any moment. -/
namespace RkQuic
open Runs

/-- `_pending` with its ids in the order they were put in; a completer is named by its id.
`completed` is history. -/
structure CommandChannel (π : Type) where
  nextId : Nat
  pending : List Nat
  listening : Bool
  completed : List (Nat × π)
  deriving DecidableEq, Repr

namespace CommandChannel
variable {π : Type}

def fresh (first : Nat) : CommandChannel π := ⟨first, [], true, []⟩

def send (c : CommandChannel π) : CommandChannel π := {c with nextId := c.nextId + 1, pending := c.pending ++ [c.nextId]}

def receive (c : CommandChannel π) (id : Nat) (payload : π) : CommandChannel π :=
  if c.listening = true ∧ id ∈ c.pending then
    {c with pending := c.pending.erase id, completed := c.completed ++ [(id, payload)]}
  else c

/-! `dispose` up to its `await`, and after it. -/

def cancel (c : CommandChannel π) : CommandChannel π := {c with listening := false}

def orphan (gone : π) (c : CommandChannel π) : CommandChannel π :=
  {c with pending := [], completed := c.completed ++ c.pending.map (·, gone)}

inductive Label (π : Type) where
  | send
  | receive (id : Nat) (payload : π)
  | cancel
  | orphan
  deriving DecidableEq, Repr

def step (gone : π) (c : CommandChannel π) : Label π → Option (CommandChannel π)
  | .send => some (send c)
  | .receive id payload => some (receive c id payload)
  | .cancel => some (cancel c)
  | .orphan => if c.listening then none else some (orphan gone c)

structure Accounted (first : Nat) (c : CommandChannel π) : Prop where
  known : ∀ id, id ∈ c.pending ∨ id ∈ c.completed.map Prod.fst ↔ first ≤ id ∧ id < c.nextId
  once : (c.pending ++ c.completed.map Prod.fst).Nodup

theorem accountedFresh (first : Nat) : Accounted first (fresh first : CommandChannel π) := by
  constructor
  · intro id
    simp only [fresh, List.map_nil, List.not_mem_nil, or_self, false_iff]
    omega
  · exact List.nodup_nil

variable {first : Nat} {c : CommandChannel π}

theorem accountedSend (within : first ≤ c.nextId) (old : Accounted first c) : Accounted first (send c) := by
  constructor
  · intro id
    have before := old.known id
    simp only [send, List.mem_append, List.mem_singleton]
    rw [or_right_comm, before]
    omega
  · have new : c.nextId ∉ c.pending ++ c.completed.map Prod.fst := by
      rw [List.mem_append, old.known]
      omega
    have grown := List.nodup_cons.mpr ⟨new, old.once⟩
    refine (List.Perm.nodup_iff ?_).mp grown
    simpa [send] using (@List.perm_middle _ c.nextId c.pending (c.completed.map Prod.fst)).symm

theorem accountedReceive {id : Nat} {payload : π} (old : Accounted first c) :
    Accounted first (receive c id payload) := by
  unfold receive
  split
  · rename_i here
    have pending := List.perm_cons_erase here.2
    constructor
    · intro other
      rw [← old.known other, pending.mem_iff]
      simp only [List.map_append, List.map_cons, List.map_nil, List.mem_append, List.mem_cons, List.not_mem_nil, or_false]
      tauto
    · have once := old.once
      refine (List.Perm.nodup_iff ?_).mp once
      simp only [List.map_append, List.map_cons, List.map_nil]
      refine (pending.append_right _).trans ?_
      rw [← List.append_assoc]
      exact (List.perm_append_singleton id _).symm
  · exact old

theorem accountedOrphan {gone : π} (old : Accounted first c) : Accounted first (orphan gone c) := by
  have ids : (orphan gone c).completed.map Prod.fst = c.completed.map Prod.fst ++ c.pending := by
    simp [orphan, Function.comp_def]
  constructor
  · intro id
    have known := old.known id
    rw [ids, List.mem_append]
    simp only [orphan, List.not_mem_nil, false_or]
    rw [or_comm, known]
  · rw [ids]
    simp only [orphan, List.nil_append]
    exact (List.perm_append_comm.nodup_iff).mp old.once

theorem accountedStep {gone : π} {label d} (one : step gone c label = some d)
    (old : first ≤ c.nextId ∧ Accounted first c) : first ≤ d.nextId ∧ Accounted first d := by
  cases label with
  | send =>
    cases Option.some.inj one
    exact ⟨Nat.le_succ_of_le old.1, accountedSend old.1 old.2⟩
  | receive id payload =>
    cases Option.some.inj one
    refine ⟨?_, accountedReceive old.2⟩
    unfold receive
    split <;> exact old.1
  | cancel =>
    cases Option.some.inj one
    exact ⟨old.1, old.2.known, old.2.once⟩
  | orphan =>
    simp only [step] at one
    split at one <;> cases one
    exact ⟨old.1, accountedOrphan old.2⟩

theorem accountedRun {gone : π} {labels} (ran : run (step gone) (fresh first) labels = some c) : Accounted first c :=
  (runKeeps (P := fun d => first ≤ d.nextId ∧ Accounted first d) (fun _ _ _ old one => accountedStep one old)
    ⟨Nat.le_refl _, accountedFresh first⟩ ran).2

theorem completedGrows {gone : π} {label d} (one : step gone c label = some d) : c.completed <+: d.completed := by
  cases label with
  | send | cancel =>
    cases Option.some.inj one
    exact List.prefix_refl _
  | receive id payload =>
    cases Option.some.inj one
    unfold receive
    split
    · exact List.prefix_append ..
    · exact List.prefix_refl _
  | orphan =>
    simp only [step] at one
    split at one <;> cases one
    exact List.prefix_append ..

theorem completedLasts {gone : π} {labels d} (ran : run (step gone) c labels = some d) : c.completed <+: d.completed :=
  runRelates (R := fun c d : CommandChannel π => c.completed <+: d.completed) (fun _ => List.prefix_refl _)
    (fun _ _ _ _ old one => old.trans (completedGrows one)) ran

theorem completedBy {gone : π} {labels} (ran : run (step gone) (fresh first) labels = some c) :
    ∀ id p, (id, p) ∈ c.completed → .receive id p ∈ labels ∨ p = gone := by
  refine runHistory (P := fun labels c => ∀ id p, (id, p) ∈ c.completed → .receive id p ∈ labels ∨ p = gone)
    (by simp [fresh]) (fun labels c label d _ old one id p member => ?_) ran
  have before : (id, p) ∈ c.completed → Label.receive id p ∈ labels ++ [label] ∨ p = gone := fun h =>
    (old id p h).imp_left (List.mem_append_left _)
  cases label with
  | send | cancel =>
    cases Option.some.inj one
    exact before member
  | receive other payload =>
    cases Option.some.inj one
    unfold receive at member
    split at member
    · rcases List.mem_append.mp member with early | now
      · exact before early
      · cases List.mem_singleton.mp now
        exact .inl (by simp)
    · exact before member
  | orphan =>
    simp only [step] at one
    split at one <;> cases one
    rcases List.mem_append.mp member with early | now
    · exact before early
    · obtain ⟨_, -, same⟩ := List.mem_map.mp now
      cases same
      exact .inr rfl

structure Disposable (gone : π) (first : Nat) (labels : List (Label π)) (c : CommandChannel π) : Prop where
  once : (c.completed.map Prod.fst).Nodup
  own : ∀ id p, (id, p) ∈ c.completed → (first ≤ id ∧ id < c.nextId) ∧ (.receive id p ∈ labels ∨ p = gone)
  all : ∀ before after b, labels = before ++ .orphan :: after → run (step gone) (fresh first) before = some b →
    ∀ id, first ≤ id → id < b.nextId → ∃ p, (id, p) ∈ c.completed

theorem disposable {gone : π} {labels} (ran : run (step gone) (fresh first) labels = some c) :
    Disposable gone first labels c := by
  have accounted := accountedRun ran
  refine ⟨(List.nodup_append.mp accounted.once).2.1, fun id p member => ⟨?_, completedBy ran id p member⟩, ?_⟩
  · exact (accounted.known id).mp (.inr (List.mem_map.mpr ⟨_, member, rfl⟩))
  · rintro before after b rfl early id old sent
    obtain ⟨b', same, rest⟩ := runAppend.mp ran
    cases Option.some.inj (early.symm.trans same)
    obtain ⟨d, one, last⟩ := runCons.mp rest
    simp only [step] at one
    split at one <;> cases one
    have known := ((@accountedOrphan π first b gone (accountedRun early)).known id).mpr ⟨old, sent⟩
    simp only [orphan, List.not_mem_nil, false_or] at known
    obtain ⟨⟨_, p⟩, member, rfl⟩ := List.mem_map.mp known
    exact ⟨p, (completedLasts last).subset member⟩

end CommandChannel
end RkQuic
