import Mathlib.Tactic

/-! Computations that succeed, are refused or panic, alone and over a state. A refusal or a
panic keeps what has been done to the state by then, so "nothing was done" is something
to prove. Nothing here knows what a refusal or a state is. -/
namespace RkQuic.Outcomes

inductive Outcome (ρ α : Type) where
  | ok (a : α)
  | err (refusal : ρ)
  | panicked
  deriving DecidableEq, Repr

section Outcome
variable {ρ ρ' α β : Type}

def Outcome.bind : Outcome ρ α → (α → Outcome ρ β) → Outcome ρ β
  | .ok a, f => f a
  | .err refusal, _ => .err refusal
  | .panicked, _ => .panicked

instance : Monad (Outcome ρ) where
  pure := .ok
  bind := Outcome.bind

def Outcome.okOr (refusal : ρ) : Option α → Outcome ρ α
  | some a => .ok a
  | none => .err refusal

def Outcome.orPanic : Option α → Outcome ρ α
  | some a => .ok a
  | none => .panicked

def Outcome.mapErr (f : ρ → ρ') : Outcome ρ α → Outcome ρ' α
  | .ok a => .ok a
  | .err refusal => .err (f refusal)
  | .panicked => .panicked

def Outcome.unwrapOr (a : α) : Outcome ρ α → Outcome ρ' α
  | .ok b => .ok b
  | .err _ => .ok a
  | .panicked => .panicked

@[simp] theorem okBind (a : α) (f : α → Outcome ρ β) : Outcome.ok a >>= f = f a := rfl

@[simp] theorem errBind (refusal : ρ) (f : α → Outcome ρ β) : Outcome.err refusal >>= f = .err refusal := rfl

@[simp] theorem panickedBind (f : α → Outcome ρ β) : Outcome.panicked >>= f = .panicked := rfl

@[simp] theorem pureOk (a : α) : (pure a : Outcome ρ α) = .ok a := rfl

variable {x : Outcome ρ α} {f : α → Outcome ρ β}

theorem bindOk {b : β} : x >>= f = .ok b ↔ ∃ a, x = .ok a ∧ f a = .ok b := by
  cases x <;> simp

theorem bindErr {refusal : ρ} : x >>= f = .err refusal ↔ x = .err refusal ∨ ∃ a, x = .ok a ∧ f a = .err refusal := by
  cases x <;> simp

theorem bindPanicked : x >>= f = .panicked ↔ x = .panicked ∨ ∃ a, x = .ok a ∧ f a = .panicked := by
  cases x <;> simp

variable {refusal r : ρ} {o : Option α} {a : α}

@[simp] theorem okOrOk : Outcome.okOr refusal o = .ok a ↔ o = some a := by
  cases o <;> simp [Outcome.okOr]

@[simp] theorem okOrErr : Outcome.okOr refusal o = .err r ↔ o = none ∧ refusal = r := by
  cases o <;> simp [Outcome.okOr]

@[simp] theorem okOrPanicked : Outcome.okOr refusal o ≠ .panicked := by
  cases o <;> simp [Outcome.okOr]

@[simp] theorem orPanicOk : (Outcome.orPanic o : Outcome ρ α) = .ok a ↔ o = some a := by
  cases o <;> simp [Outcome.orPanic]

@[simp] theorem orPanicErr : Outcome.orPanic o ≠ .err r := by
  cases o <;> simp [Outcome.orPanic]

@[simp] theorem orPanicPanicked : (Outcome.orPanic o : Outcome ρ α) = .panicked ↔ o = none := by
  cases o <;> simp [Outcome.orPanic]

@[simp] theorem mapErrOk {g : ρ → ρ'} : x.mapErr g = .ok a ↔ x = .ok a := by
  cases x <;> simp [Outcome.mapErr]

@[simp] theorem mapErrErr {g : ρ → ρ'} {r : ρ'} : x.mapErr g = .err r ↔ ∃ e, x = .err e ∧ g e = r := by
  cases x <;> simp [Outcome.mapErr]

@[simp] theorem mapErrPanicked {g : ρ → ρ'} : x.mapErr g = .panicked ↔ x = .panicked := by
  cases x <;> simp [Outcome.mapErr]

@[simp] theorem unwrapOrErr {r : ρ'} : x.unwrapOr a ≠ .err r := by
  cases x <;> simp [Outcome.unwrapOr]

theorem mapErrAll {g : ρ → ρ'} {P : ρ' → Prop} (each : ∀ e, P (g e)) : ∀ r, x.mapErr g = .err r → P r := by
  intro r refused
  obtain ⟨e, -, rfl⟩ := mapErrErr.mp refused
  exact each e

end Outcome

def Body (σ ρ α : Type) := σ → Outcome ρ α × σ

section Body
variable {σ ρ α β γ : Type}

def Body.bind (x : Body σ ρ α) (f : α → Body σ ρ β) : Body σ ρ β := fun s =>
  match x s with
  | (.ok a, t) => f a t
  | (.err refusal, t) => (.err refusal, t)
  | (.panicked, t) => (.panicked, t)

instance : Monad (Body σ ρ) where
  pure a := fun s => (.ok a, s)
  bind := Body.bind

def Body.lift (x : Outcome ρ α) : Body σ ρ α := fun s => (x, s)

def Body.read (f : σ → α) : Body σ ρ α := fun s => (.ok (f s), s)

def Body.write (f : σ → σ) : Body σ ρ Unit := fun s => (.ok (), f s)

theorem bodyBind (x : Body σ ρ α) (f : α → Body σ ρ β) (s : σ) : (x >>= f) s =
    match x s with
    | (.ok a, t) => f a t
    | (.err refusal, t) => (.err refusal, t)
    | (.panicked, t) => (.panicked, t) := rfl

@[simp] theorem bodyPure (a : α) (s : σ) : (pure a : Body σ ρ α) s = (.ok a, s) := rfl

theorem liftBind (x : Outcome ρ α) (f : α → Body σ ρ β) (s : σ) : (Body.lift x >>= f) s =
    match x with
    | .ok a => f a s
    | .err refusal => (.err refusal, s)
    | .panicked => (.panicked, s) := by
  cases x <;> rfl

theorem bodyAssoc (x : Body σ ρ α) (f : α → Body σ ρ β) (g : β → Body σ ρ γ) :
    (x >>= f) >>= g = x >>= fun a => f a >>= g := by
  funext s
  simp only [bodyBind]
  rcases x s with ⟨_ | _ | _, t⟩ <;> rfl

theorem liftTwice (x : Outcome ρ α) (f : α → Outcome ρ β) (g : β → Body σ ρ γ) :
    Body.lift x >>= (fun a => Body.lift (f a) >>= g) = Body.lift (x >>= f) >>= g := by
  funext s
  cases x <;> rfl

@[simp] theorem writeBind (f : σ → σ) (g : Unit → Body σ ρ β) (s : σ) : (Body.write f >>= g) s = g () (f s) := rfl

@[simp] theorem readBind (f : σ → α) (g : α → Body σ ρ β) (s : σ) : (Body.read f >>= g) s = g (f s) s := rfl

/-- From `P` the computation leads to `Q` where it succeeds, and to `E` where it is refused or,
with no refusal, panics. -/
def Triple (P : σ → Prop) (x : Body σ ρ α) (Q : α → σ → Prop) (E : Option ρ → σ → Prop) : Prop :=
  ∀ s, P s →
    match x s with
    | (.ok a, t) => Q a t
    | (.err refusal, t) => E (some refusal) t
    | (.panicked, t) => E none t

variable {P : σ → Prop} {M : α → σ → Prop} {Q : β → σ → Prop} {E : Option ρ → σ → Prop}

theorem tripleBind {x : Body σ ρ α} {f : α → Body σ ρ β} (first : Triple P x M E)
    (rest : ∀ a, Triple (M a) (f a) Q E) : Triple P (x >>= f) Q E := by
  intro s start
  have led := first s start
  rw [bodyBind]
  rcases ran : x s with ⟨outcome, t⟩
  rw [ran] at led
  cases outcome with
  | ok a => exact rest a t led
  | err refusal => exact led
  | panicked => exact led

theorem tripleLift {o : Outcome ρ β} (good : ∀ b, o = .ok b → ∀ s, P s → Q b s)
    (bad : ∀ refusal, o = .err refusal → ∀ s, P s → E (some refusal) s)
    (panics : ∀ s, P s → E none s) : Triple P (Body.lift o) Q E := by
  intro s start
  cases o with
  | ok b => exact good b rfl s start
  | err refusal => exact bad refusal rfl s start
  | panicked => exact panics s start

theorem tripleAside {o : Outcome ρ α} (bad : ∀ refusal, o = .err refusal → ∀ s, P s → E (some refusal) s)
    (panics : ∀ s, P s → E none s) : Triple P (Body.lift o) (fun a s => o = .ok a ∧ P s) E :=
  tripleLift (fun _ h _ start => ⟨h, start⟩) bad panics

theorem tripleLayer {o : Outcome ρ α} {f : α → Body σ ρ β}
    (bad : ∀ refusal, o = .err refusal → ∀ s, P s → E (some refusal) s) (panics : ∀ s, P s → E none s)
    (rest : ∀ a, o = .ok a → Triple P (f a) Q E) : Triple P (Body.lift o >>= f) Q E :=
  tripleBind (tripleAside bad panics) fun a s after => rest a after.1 s after.2

theorem tripleWrite {f : σ → σ} {Q : Unit → σ → Prop} (good : ∀ s, P s → Q () (f s)) :
    Triple P (Body.write f : Body σ ρ Unit) Q E :=
  good

theorem tripleRead {f : σ → β} (good : ∀ s, P s → Q (f s) s) : Triple P (Body.read f : Body σ ρ β) Q E :=
  good

end Body
end RkQuic.Outcomes
