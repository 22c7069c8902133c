import Mathlib.Logic.Function.Basic
import Mathlib.Data.List.Nodup
import Mathlib.Tactic

/-! Names that are given out once and used once, the numbers of a 64-bit counter as names,
and references that are counted. A party carries a name from the moment it is given until
it is put in a slot; an owner holds at most one reference. Nothing here knows who the
parties are. -/
namespace RkQuic.Naming

theorem updateSome {α β : Type} [DecidableEq α] {f : α → Option β} {a b : α} {v w : β}
    (h : Function.update f a (some v) b = some w) : (b = a ∧ w = v) ∨ (b ≠ a ∧ f b = some w) := by
  by_cases same : b = a
  · subst same
    rw [Function.update_self] at h
    exact .inl ⟨rfl, (Option.some.inj h).symm⟩
  · rw [Function.update_of_ne same] at h
    exact .inr ⟨same, h⟩

theorem updateKeeps {α β : Type} [DecidableEq α] {f : α → β} {a : α} {v : β} (same : f a = v) :
    Function.update f a v = f := by
  rw [← same, Function.update_eq_self]

theorem updateNone {α β : Type} [DecidableEq α] {f : α → Option β} {a b : α} {v : β}
    (h : Function.update f a none b = some v) : b ≠ a ∧ f b = some v := by
  by_cases same : b = a
  · subst same; simp at h
  · exact ⟨same, by simpa [same] using h⟩

section Names
variable {ι α : Type} {names more : List α} {fresh : Nat} {slot : Nat → α} {carrying : ι → Option α}

structure Names (names : List α) (fresh : Nat) (slot : Nat → α) (carrying : ι → Option α) : Prop where
  known : ∀ x, x < fresh → slot x ∈ names
  apart : ∀ x y, x < fresh → y < fresh → slot x = slot y → x = y
  coming : ∀ m u, carrying m = some u → u ∈ names ∧ ∀ x, x < fresh → slot x ≠ u
  alone : ∀ m n u, carrying m = some u → carrying n = some u → m = n

theorem namesMore (within : ∀ u ∈ names, u ∈ more) (old : Names names fresh slot carrying) :
    Names more fresh slot carrying :=
  ⟨fun x h => within _ (old.known x h), old.apart,
    fun m u h => ⟨within u (old.coming m u h).1, (old.coming m u h).2⟩, old.alone⟩

variable [DecidableEq ι]

theorem namesGiven {m : ι} {u : α} (unheard : u ∉ names) (within : ∀ v ∈ names, v ∈ more) (given : u ∈ more)
    (old : Names names fresh slot carrying) :
    Names more fresh slot (Function.update carrying m (some u)) := by
  refine ⟨fun x h => within _ (old.known x h), old.apart, fun n v h => ?_, fun n n' v h h' => ?_⟩
  · rcases updateSome h with ⟨-, rfl⟩ | ⟨-, was⟩
    · exact ⟨given, fun x less same => unheard (same ▸ old.known x less)⟩
    · exact ⟨within v (old.coming n v was).1, (old.coming n v was).2⟩
  · rcases updateSome h with ⟨rfl, rfl⟩ | ⟨-, was⟩ <;> rcases updateSome h' with ⟨rfl, same⟩ | ⟨-, was'⟩
    · rfl
    · exact absurd (old.coming _ _ was').1 unheard
    · exact absurd (same ▸ (old.coming _ _ was).1) unheard
    · exact old.alone n n' v was was'

theorem namesPlaced {m : ι} {u : α} (had : carrying m = some u) (old : Names names fresh slot carrying) :
    Names names (fresh + 1) (Function.update slot fresh u) (Function.update carrying m none) := by
  obtain ⟨known, unused⟩ := old.coming m u had
  have before : ∀ x, x < fresh → Function.update slot fresh u x = slot x :=
    fun x h => Function.update_of_ne (by omega) ..
  have newest : Function.update slot fresh u fresh = u := Function.update_self ..
  have cases_ : ∀ x, x < fresh + 1 → x < fresh ∨ x = fresh := fun x h => by omega
  refine ⟨fun x h => ?_, fun x y h h' same => ?_, fun n v h => ?_, fun n n' v h h' => ?_⟩
  · rcases cases_ x h with less | rfl
    · rw [before x less]; exact old.known x less
    · rw [newest]; exact known
  · rcases cases_ x h with less | rfl <;> rcases cases_ y h' with less' | rfl
    · rw [before x less, before y less'] at same
      exact old.apart x y less less' same
    · rw [before x less, newest] at same
      exact absurd same (unused x less)
    · rw [before y less', newest] at same
      exact absurd same.symm (unused y less')
    · rfl
  · obtain ⟨other, was⟩ := updateNone h
    refine ⟨(old.coming n v was).1, fun x less => ?_⟩
    rcases cases_ x less with less | rfl
    · rw [before x less]; exact (old.coming n v was).2 x less
    · rw [newest]
      rintro rfl
      exact other (old.alone n m u was had)
  · exact old.alone n n' v (updateNone h).2 (updateNone h').2

end Names

section Owners
variable {ι α : Type} [DecidableEq α] {owners : List ι} {holds : ι → Option α}

def owned (owners : List ι) (holds : ι → Option α) (a : α) : Nat :=
  owners.countP fun i => holds i = some a

theorem ownedNone {a : α} : owned owners holds a = 0 ↔ ∀ i ∈ owners, holds i ≠ some a := by
  simp [owned, List.countP_eq_zero]

theorem ownedSnoc {i : ι} {a : α} (idle : holds i = none) :
    owned (owners ++ [i]) holds a = owned owners holds a := by
  simp [owned, idle]

variable [DecidableEq ι]

theorem ownedAside {i : ι} (other : i ∉ owners) (v : Option α) (a : α) :
    owned owners (Function.update holds i v) a = owned owners holds a := by
  refine List.countP_congr fun j h => ?_
  have apart : j ≠ i := by
    rintro rfl
    exact other h
  rw [Function.update_of_ne apart]

theorem ownedUpdate {i : ι} (once : owners.Nodup) (member : i ∈ owners) (v : Option α) (a : α) :
    owned owners (Function.update holds i v) a + (if holds i = some a then 1 else 0) =
      owned owners holds a + (if v = some a then 1 else 0) := by
  induction owners with
  | nil => cases member
  | cons j rest ih =>
    obtain ⟨apart, later⟩ := List.nodup_cons.mp once
    simp only [owned, List.countP_cons, decide_eq_true_eq] at ih ⊢
    by_cases same : i = j
    · subst same
      have aside : owned rest (Function.update holds i v) a = owned rest holds a := ownedAside apart v a
      simp only [owned] at aside
      rw [Function.update_self, aside]
      omega
    · have inside : i ∈ rest := (List.mem_cons.mp member).resolve_left same
      rw [Function.update_of_ne (Ne.symm same)]
      have := ih later inside
      omega

end Owners

section Numbers

theorem nextNumber {value : UInt64} {n : Nat} (numbered : value = UInt64.ofNat n) :
    value + 1 = UInt64.ofNat (n + 1) := by
  rw [numbered, UInt64.ofNat_add n 1]
  rfl

theorem numbersApart {i j : Nat} (less : i < j) (near : j < i + 2 ^ 64) : UInt64.ofNat i ≠ UInt64.ofNat j := by
  intro same
  have nats := congrArg UInt64.toNat same
  simp only [UInt64.toNat_ofNat'] at nats
  omega

theorem numbersOnce {i j : Nat} (few : i < 2 ^ 64) (few' : j < 2 ^ 64) (same : UInt64.ofNat i = UInt64.ofNat j) :
    i = j := by
  rcases Nat.lt_trichotomy i j with less | rfl | less
  · exact absurd same (numbersApart less (by omega))
  · rfl
  · exact absurd same.symm (numbersApart less (by omega))

end Numbers
end RkQuic.Naming
