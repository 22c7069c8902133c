import RkQuic.Outcomes

/-! Two computations side by side. They match if who is told of refusals only cannot tell
them apart: both succeed, with related results, or both are refused in the same words, or both
panic. Two bodies go together if they match from every two states that are related, and leave
related states. Nothing here knows what a refusal or a state is. -/
namespace RkQuic.TwoRuns
open Outcomes

inductive Matches {ρ α β : Type} (R : α → β → Prop) : Outcome ρ α → Outcome ρ β → Prop where
  | ok {a b} (related : R a b) : Matches R (.ok a) (.ok b)
  | err (refusal : ρ) : Matches R (.err refusal) (.err refusal)
  | panicked : Matches R .panicked .panicked

section Outcome
variable {ρ ρ' α β γ δ : Type} {R : α → β → Prop} {S : γ → δ → Prop} {x : Outcome ρ α} {y : Outcome ρ β}

theorem matchesOf {z : Outcome ρ α} (same : x = z) : Matches Eq x z := by
  subst same
  cases x with
  | ok a => exact .ok rfl
  | err refusal => exact .err refusal
  | panicked => exact .panicked

theorem matchesFrom (both : Matches R x y) : Matches (fun a b => R a b ∧ x = .ok a ∧ y = .ok b) x y := by
  cases both with
  | ok related => exact .ok ⟨related, rfl, rfl⟩
  | err refusal => exact .err refusal
  | panicked => exact .panicked

theorem matchesBind {f : α → Outcome ρ γ} {g : β → Outcome ρ δ} (first : Matches R x y)
    (rest : ∀ a b, R a b → Matches S (f a) (g b)) : Matches S (x >>= f) (y >>= g) := by
  cases first with
  | ok related => exact rest _ _ related
  | err refusal => exact .err refusal
  | panicked => exact .panicked

theorem matchesIte {c : Prop} [Decidable c] {x' : Outcome ρ α} {y' : Outcome ρ β} (yes : c → Matches R x y)
    (no : ¬ c → Matches R x' y') : Matches R (if c then x else x') (if c then y else y') := by
  by_cases h : c
  · rw [if_pos h, if_pos h]
    exact yes h
  · rw [if_neg h, if_neg h]
    exact no h

theorem matchesMapErr (f : ρ → ρ') (both : Matches R x y) : Matches R (x.mapErr f) (y.mapErr f) := by
  cases both with
  | ok related => exact .ok related
  | err refusal => exact .err (f refusal)
  | panicked => exact .panicked

theorem matchesOkOr {o : Option α} {o' : Option β} (refusal : ρ) (both : Option.Rel R o o') :
    Matches R (.okOr refusal o) (.okOr refusal o') := by
  cases both with
  | some related => exact .ok related
  | none => exact .err refusal

end Outcome

def Together {σ τ ρ α β : Type} (I J : σ → τ → Prop) (R : α → β → Prop) (x : Body σ ρ α) (y : Body τ ρ β) : Prop :=
  ∀ s t, I s t → Matches R (x s).1 (y t).1 ∧ J (x s).2 (y t).2

section Body
variable {σ τ ρ α β γ δ : Type} {I J : σ → τ → Prop} {R : α → β → Prop} {S : γ → δ → Prop}

theorem togetherBind {x : Body σ ρ α} {y : Body τ ρ β} {f : α → Body σ ρ γ} {g : β → Body τ ρ δ}
    (first : Together I J R x y) (rest : ∀ a b, R a b → Together J J S (f a) (g b)) :
    Together I J S (x >>= f) (y >>= g) := by
  intro s t start
  obtain ⟨both, left⟩ := first s t start
  rw [bodyBind, bodyBind]
  rcases ran : x s with ⟨outcome, u⟩
  rcases ran' : y t with ⟨outcome', v⟩
  rw [ran, ran'] at both left
  cases both with
  | ok related => exact rest _ _ related u v left
  | err refusal => exact ⟨.err refusal, left⟩
  | panicked => exact ⟨.panicked, left⟩

theorem togetherLift {o : Outcome ρ α} {o' : Outcome ρ β} (both : Matches R o o') :
    Together I I R (Body.lift o) (Body.lift o') :=
  fun _ _ start => ⟨both, start⟩

theorem togetherRead {f : σ → α} {g : τ → β} (related : ∀ s t, I s t → R (f s) (g t)) :
    Together I I R (Body.read f : Body σ ρ α) (Body.read g) :=
  fun s t start => ⟨.ok (related s t start), start⟩

theorem togetherWrite {f : σ → σ} {g : τ → τ} (left : ∀ s t, I s t → J (f s) (g t)) :
    Together I J Eq (Body.write f : Body σ ρ Unit) (Body.write g) :=
  fun s t start => ⟨.ok rfl, left s t start⟩

theorem togetherPure {a : α} {b : β} (related : R a b) : Together I I R (pure a : Body σ ρ α) (pure b : Body τ ρ β) :=
  fun _ _ start => ⟨.ok related, start⟩

end Body
end RkQuic.TwoRuns
