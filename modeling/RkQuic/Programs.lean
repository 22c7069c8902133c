import RkQuic.Runs

/-! Programs that make one request after another, and may be cut off before any of them.
What they ask is a device: the requests that may be made of it, and what it becomes with an
answer. A program that throws runs its `finally` parts; one that is cut off runs nothing more.
Nothing here knows what is asked. -/
namespace RkQuic.Programs
open Runs

inductive Program (ο ρ α : Type) where
  | done (a : α)
  | thrown
  | act (request : ο) (next : ρ → Program ο ρ α)

section Program
variable {ο ρ α β : Type}

def Program.bind : Program ο ρ α → (α → Program ο ρ β) → Program ο ρ β
  | .done a, f => f a
  | .thrown, _ => .thrown
  | .act request next, f => .act request fun r => (next r).bind f

instance : Monad (Program ο ρ) where
  pure := .done
  bind := Program.bind

/- An answer that cannot be read is thrown. -/
def Program.ask (request : ο) (read : ρ → Option α) : Program ο ρ α :=
  .act request fun r =>
    match read r with
    | some a => .done a
    | none => .thrown

/- `try` and `finally`. -/
def Program.ensure (body : Program ο ρ α) (cleanup : Program ο ρ Unit) : Program ο ρ α :=
  match body with
  | .done a => cleanup.bind fun _ => .done a
  | .thrown => cleanup.bind fun _ => .thrown
  | .act request next => .act request fun r => (next r).ensure cleanup

end Program

structure Device (ο ρ σ : Type) where
  able : σ → ο → Prop
  answers : σ → ο → ρ → Option σ

section Device
variable {ο ρ σ α β : Type} (device : Device ο ρ σ)

def advance (x : Program ο ρ α × σ) (r : ρ) : Option (Program ο ρ α × σ) :=
  match x.1 with
  | .act request next => (device.answers x.2 request r).map fun t => (next r, t)
  | .done _ | .thrown => none

/-- Whatever is answered, the program asks only what may be asked, with `D` at every request,
and ends in `Q`, which is told what it returns, or nothing where it throws. -/
def Safely (D : σ → Prop) (Q : Option α → σ → Prop) : Program ο ρ α → σ → Prop
  | .done a, s => Q (some a) s
  | .thrown, s => Q none s
  | .act request next, s =>
    D s ∧ device.able s request ∧ ∀ r t, device.answers s request r = some t → Safely D Q (next r) t

variable {device} {D : σ → Prop} {s : σ}

theorem safelyMono {Q R : Option α → σ → Prop} (weaker : ∀ a s, Q a s → R a s) {x : Program ο ρ α}
    (safe : Safely device D Q x s) : Safely device D R x s := by
  induction x generalizing s with
  | done a => exact weaker _ _ safe
  | thrown => exact weaker _ _ safe
  | act request next ih => exact ⟨safe.1, safe.2.1, fun r t answered => ih r (safe.2.2 r t answered)⟩

theorem safelyBind {Q : Option β → σ → Prop} {x : Program ο ρ α} {f : α → Program ο ρ β}
    (safe : Safely device D (fun a t => a.elim (Q none t) fun a => Safely device D Q (f a) t) x s) :
    Safely device D Q (x >>= f) s := by
  induction x generalizing s with
  | done a => exact safe
  | thrown => exact safe
  | act request next ih => exact ⟨safe.1, safe.2.1, fun r t answered => ih r (safe.2.2 r t answered)⟩

/- What the clean-up throws takes the place of what the body returns. -/
theorem safelyEnsure {Q : Option α → σ → Prop} {cleanup : Program ο ρ Unit} {x : Program ο ρ α}
    (safe : Safely device D (fun a t => Safely device D (fun b u => Q (b.bind fun _ => a) u) cleanup t) x s) :
    Safely device D Q (x.ensure cleanup) s := by
  induction x generalizing s with
  | done a => exact safelyBind (safelyMono (fun b u last => by cases b <;> exact last) safe)
  | thrown => exact safelyBind (safelyMono (fun b u last => by cases b <;> exact last) safe)
  | act request next ih => exact ⟨safe.1, safe.2.1, fun r t answered => ih r (safe.2.2 r t answered)⟩

theorem safelyAsk {Q : Option α → σ → Prop} {request : ο} {read : ρ → Option α} (during : D s)
    (able : device.able s request) (next : ∀ r t, device.answers s request r = some t → Q (read r) t) :
    Safely device D Q (.ask request read) s := by
  refine ⟨during, able, fun r t answered => ?_⟩
  have after := next r t answered
  cases answer : read r with
  | none =>
    simp only [answer] at after ⊢
    exact after
  | some a =>
    simp only [answer] at after ⊢
    exact after

variable {Q : Option α → σ → Prop} {x y : Program ο ρ α × σ}

theorem safelyAdvance {r : ρ} (safe : Safely device D Q x.1 x.2) (one : advance device x r = some y) :
    Safely device D Q y.1 y.2 := by
  obtain ⟨_ | _ | ⟨request, next⟩, s⟩ := x
  · cases one
  · cases one
  · obtain ⟨t, answered, rfl⟩ := Option.map_eq_some_iff.mp one
    exact safe.2.2 r t answered

theorem safelyRun {rs : List ρ} (safe : Safely device D Q x.1 x.2) (ran : run (advance device) x rs = some y) :
    Safely device D Q y.1 y.2 :=
  runKeeps (P := fun x => Safely device D Q x.1 x.2) (fun _ _ _ old one => safelyAdvance old one) safe ran

end Device

/-! A `while (true)` in a `try`: what goes before it, one turn after another for as long as they
answer `true`, and the `finally`. -/

structure Loop (ο ρ α : Type) where
  enter : Program ο ρ α
  turn : α → Program ο ρ Bool
  leave : α → Program ο ρ Unit

inductive Part (ο ρ α : Type) where
  | entering (rest : Program ο ρ α)
  | turning (a : α) (rest : Program ο ρ Bool)
  | leaving (rest : Program ο ρ Unit)
  | left

section Loop
variable {ο ρ σ α β : Type}

def Program.request : Program ο ρ α → Option ο
  | .act request _ => some request
  | .done _ | .thrown => none

def Part.request : Part ο ρ α → Option ο
  | .entering rest => rest.request
  | .turning _ rest => rest.request
  | .leaving rest => rest.request
  | .left => none

def Loop.next (l : Loop ο ρ α) : Part ο ρ α → Option (Part ο ρ α)
  | .entering (.done a) => some (.turning a (l.turn a))
  | .entering .thrown => some .left
  | .turning a (.done true) => some (.turning a (l.turn a))
  | .turning a (.done false) | .turning a .thrown => some (.leaving (l.leave a))
  | .leaving (.done ()) | .leaving .thrown => some .left
  | .entering (.act _ _) | .turning _ (.act _ _) | .leaving (.act _ _) | .left => none

def advancePart (device : Device ο ρ σ) (x : Part ο ρ α × σ) (r : ρ) : Option (Part ο ρ α × σ) :=
  match x.1 with
  | .entering rest => (advance device (rest, x.2) r).map fun y => (.entering y.1, y.2)
  | .turning a rest => (advance device (rest, x.2) r).map fun y => (.turning a y.1, y.2)
  | .leaving rest => (advance device (rest, x.2) r).map fun y => (.leaving y.1, y.2)
  | .left => none

def Looping (device : Device ο ρ σ) (D : σ → Prop) (I E : α → σ → Prop) (F : σ → Prop) : Part ο ρ α → σ → Prop
  | .entering rest, s => Safely device D (fun a t => a.elim (F t) fun a => I a t) rest s
  | .turning a rest, s => Safely device D (fun again t => if again = some true then I a t else E a t) rest s
  | .leaving rest, s => Safely device D (fun _ t => F t) rest s
  | .left, s => F s

variable {device : Device ο ρ σ} {D : σ → Prop} {I E : α → σ → Prop} {F : σ → Prop} {l : Loop ο ρ α}

theorem loopingNext {p q : Part ο ρ α} {s : σ}
    (turns : ∀ a s, I a s → Safely device D (fun again t => if again = some true then I a t else E a t) (l.turn a) s)
    (leaves : ∀ a s, E a s → Safely device D (fun _ t => F t) (l.leave a) s)
    (old : Looping device D I E F p s) (next : l.next p = some q) : Looping device D I E F q s := by
  cases p with
  | entering rest =>
    cases rest <;> cases next
    · exact turns _ _ old
    · exact old
  | turning a rest =>
    cases rest with
    | act => cases next
    | thrown => cases next; exact leaves _ _ old
    | done again =>
      cases again <;> cases next
      · exact leaves _ _ old
      · exact turns _ _ old
  | leaving rest => cases rest <;> cases next <;> exact old
  | left => cases next

theorem loopingAdvance {p q : Part ο ρ α} {s t : σ} {r : ρ} (old : Looping device D I E F p s)
    (one : advancePart device (p, s) r = some (q, t)) : Looping device D I E F q t := by
  cases p with
  | left => cases one
  | entering rest | turning _ rest | leaving rest =>
    obtain ⟨y, step, same⟩ := Option.map_eq_some_iff.mp one
    cases same
    exact safelyAdvance (x := (_, s)) old step

def Program.Within : Program ο ρ α → Nat → Prop
  | .done _, _ | .thrown, _ => True
  | .act _ next, n => ∃ m, n = m + 1 ∧ ∀ r, (next r).Within m

theorem withinMore {m n : Nat} (more : m ≤ n) {x : Program ο ρ α} (within : x.Within m) : x.Within n := by
  induction x generalizing m n with
  | done | thrown => exact trivial
  | act request next ih =>
    obtain ⟨k, rfl, rest⟩ := within
    exact ⟨n - 1, by omega, fun r => ih r (by omega) (rest r)⟩

theorem withinBind {m n : Nat} {x : Program ο ρ α} {f : α → Program ο ρ β} (first : x.Within m)
    (then_ : ∀ a, (f a).Within n) :
    (x >>= f).Within (m + n) := by
  induction x generalizing m with
  | done a => exact withinMore (by omega) (then_ a)
  | thrown => exact trivial
  | act request next ih =>
    obtain ⟨k, rfl, rest⟩ := first
    exact ⟨k + n, by omega, fun r => ih r (rest r)⟩

theorem withinAsk (request : ο) (read : ρ → Option α) : (Program.ask request read).Within 1 := by
  refine ⟨0, rfl, fun r => ?_⟩
  dsimp only
  cases read r <;> exact trivial

theorem advanceOf {x : Program ο ρ α} {s t : σ} {request : ο} {r : ρ} (asks : x.request = some request)
    (answers : device.answers s request r = some t) : ∃ y, advance device (x, s) r = some (y, t) := by
  cases x with
  | done | thrown => cases asks
  | act request' next =>
    cases asks
    exact ⟨next r, by simp [advance, answers]⟩

theorem advancePartOf {p : Part ο ρ α} {s t : σ} {request : ο} {r : ρ} (asks : p.request = some request)
    (answers : device.answers s request r = some t) : ∃ q, advancePart device (p, s) r = some (q, t) := by
  cases p with
  | left => cases asks
  | entering rest | turning _ rest | leaving rest =>
    obtain ⟨y, one⟩ := advanceOf (x := rest) asks answers
    simp only [advancePart, one, Option.map_some]
    exact ⟨_, rfl⟩

theorem advanceAnswers {x : Program ο ρ α} {y : Program ο ρ α × σ} {s : σ} {r : ρ}
    (one : advance device (x, s) r = some y) :
    ∃ request, x.request = some request ∧ device.answers s request r = some y.2 := by
  cases x with
  | done | thrown => cases one
  | act request next =>
    obtain ⟨t, answered, rfl⟩ := Option.map_eq_some_iff.mp one
    exact ⟨request, rfl, answered⟩

theorem advancePartAnswers {p q : Part ο ρ α} {s t : σ} {r : ρ} (one : advancePart device (p, s) r = some (q, t)) :
    ∃ request, p.request = some request ∧ device.answers s request r = some t := by
  cases p with
  | left => cases one
  | entering rest | turning _ rest | leaving rest =>
    obtain ⟨y, step, same⟩ := Option.map_eq_some_iff.mp one
    cases same
    exact advanceAnswers step

theorem loopingAsks {p : Part ο ρ α} {s : σ} {request : ο} (old : Looping device D I E F p s)
    (asks : p.request = some request) : D s ∧ device.able s request := by
  cases p with
  | left => cases asks
  | entering rest | turning _ rest | leaving rest =>
    cases rest <;> cases asks
    exact ⟨old.1, old.2.1⟩

end Loop
end RkQuic.Programs
