import Mathlib.Data.List.Basic
import Mathlib.Tactic

/-! A bounded channel whose sender never waits, and the bounded queue that gives up
its oldest entry. The two are told apart only by what they do when they are full. -/
namespace RkQuic.Channel

inductive TrySendError (α : Type) where
  | full (value : α)
  | disconnected (value : α)
  deriving DecidableEq, Repr

structure SyncChannel (α : Type) where
  bound : Nat
  waiting : List α
  receiver : Bool
  within : waiting.length ≤ bound
  deriving DecidableEq, Repr

namespace SyncChannel
variable {α : Type}

def syncChannel (bound : Nat) : SyncChannel α := ⟨bound, [], true, Nat.zero_le _⟩

def trySend (c : SyncChannel α) (value : α) : Except (TrySendError α) (SyncChannel α) :=
  if c.receiver = false then .error (.disconnected value)
  else if room : c.waiting.length < c.bound then
    .ok {c with waiting := c.waiting ++ [value], within := by simpa using room}
  else .error (.full value)

/- The head, or nothing once the wait for one has run out. -/
def recvTimeout (c : SyncChannel α) : Option α × SyncChannel α :=
  match h : c.waiting with
  | [] => (none, c)
  | value :: rest =>
    (some value, {c with waiting := rest, within := by have := c.within; simp [h] at this; omega})

theorem trySendRoom {c : SyncChannel α} (open_ : c.receiver = true)
    (room : c.waiting.length < c.bound) (value : α) :
    c.trySend value = .ok {c with waiting := c.waiting ++ [value], within := by simpa using room} := by
  simp [trySend, open_, room]

theorem trySendFull {c : SyncChannel α} (open_ : c.receiver = true)
    (full : ¬ c.waiting.length < c.bound) (value : α) : c.trySend value = .error (.full value) := by
  simp [trySend, open_, full]

@[simp] theorem recvWaiting (c : SyncChannel α) :
    c.recvTimeout.1 = c.waiting.head? ∧ c.recvTimeout.2.waiting = c.waiting.tail := by
  obtain ⟨bound, waiting, receiver, within⟩ := c
  cases waiting <;> simp [recvTimeout]

@[simp] theorem recvEnds (c : SyncChannel α) :
    c.recvTimeout.2.bound = c.bound ∧ c.recvTimeout.2.receiver = c.receiver := by
  obtain ⟨bound, waiting, receiver, within⟩ := c
  cases waiting <;> simp [recvTimeout]

end SyncChannel

section DropOldest
variable {α : Type} (bound : Nat)

def pushDroppingOldest (waiting : List α) (value : α) : List α :=
  if waiting.length < bound then waiting ++ [value] else waiting.tail ++ [value]

variable {bound}

theorem pushKeepsNewest (waiting : List α) (value : α) :
    value ∈ pushDroppingOldest bound waiting value := by
  unfold pushDroppingOldest
  split <;> simp

theorem pushWithin (positive : 0 < bound) {waiting : List α} (within : waiting.length ≤ bound)
    (value : α) : (pushDroppingOldest bound waiting value).length ≤ bound := by
  unfold pushDroppingOldest
  split
  · simp; omega
  · simp; omega

theorem pushIsSuffix {waiting : List α} (within : waiting.length ≤ bound) (positive : 0 < bound)
    (value : α) : pushDroppingOldest bound waiting value =
      (waiting ++ [value]).drop (waiting.length + 1 - bound) := by
  unfold pushDroppingOldest
  split
  · have : waiting.length + 1 - bound = 0 := by omega
    simp [this]
  · have : waiting.length + 1 - bound = 1 := by omega
    rw [this, List.drop_append_of_le_length (by omega), List.drop_one]

theorem pushesKeepSuffix (positive : 0 < bound) {waiting : List α}
    (within : waiting.length ≤ bound) (values : List α) :
    values.foldl (pushDroppingOldest bound) waiting =
      (waiting ++ values).drop (waiting.length + values.length - bound) := by
  induction values generalizing waiting with
  | nil =>
    have : waiting.length - bound = 0 := by omega
    simp [this]
  | cons value values ih =>
    rw [List.foldl_cons, ih (pushWithin positive within value), pushIsSuffix within positive value]
    have whole : (waiting ++ [value]).drop (waiting.length + 1 - bound) ++ values =
        (waiting ++ value :: values).drop (waiting.length + 1 - bound) := by
      rw [← List.drop_append_of_le_length (by simp)]
      simp
    rw [whole, List.drop_drop]
    congr 1
    simp only [List.length_drop, List.length_append, List.length_cons, List.length_nil]
    omega

theorem tailSnocSelf {waiting : List α} {value : α} (same : waiting.tail ++ [value] = waiting) :
    ∀ x ∈ waiting, x = value := by
  cases waiting with
  | nil => simp
  | cons a rest =>
    simp only [List.tail_cons] at same
    induction rest generalizing a with
    | nil => simpa using same.symm
    | cons b rest ih =>
      obtain ⟨hb, tail⟩ := List.cons.inj same
      have all := ih b tail
      intro x hx
      rcases List.mem_cons.mp hx with rfl | inside
      · exact hb ▸ all b List.mem_cons_self
      · exact all x inside

theorem tailSnocOfEqual {waiting : List α} {value : α} (nonempty : waiting ≠ [])
    (all : ∀ x ∈ waiting, x = value) : waiting.tail ++ [value] = waiting := by
  have rep := List.eq_replicate_of_mem all
  obtain ⟨n, hn⟩ : ∃ n, waiting.length = n + 1 :=
    ⟨waiting.length - 1, by have := List.length_pos_of_ne_nil nonempty; omega⟩
  rw [rep, hn, List.replicate_succ, List.tail_cons, ← List.replicate_succ', List.replicate_succ]

end DropOldest
end RkQuic.Channel
