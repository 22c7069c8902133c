import Mathlib.Data.List.Basic
import Mathlib.Tactic

/-! Runs of a partial transition function, and the order of entries in a log.
A label is one atomic step of one party, so a list of labels is one interleaving
of all of them. Nothing here knows what the states or the labels are. -/
namespace RkQuic.Runs

section Run
variable {σ α : Type} (step : σ → α → Option σ)

def run (s : σ) : List α → Option σ
  | [] => some s
  | a :: as => (step s a).bind (fun t => run t as)

variable {step}

@[simp] theorem runNil (s : σ) : run step s [] = some s := rfl

theorem runCons {s t : σ} {a as} :
    run step s (a :: as) = some t ↔ ∃ u, step s a = some u ∧ run step u as = some t := by
  simp [run, Option.bind_eq_some_iff]

theorem runAppend {s t : σ} {as bs : List α} :
    run step s (as ++ bs) = some t ↔ ∃ u, run step s as = some u ∧ run step u bs = some t := by
  induction as generalizing s with
  | nil => simp
  | cons a as ih =>
    simp only [List.cons_append, runCons, ih]
    constructor
    · rintro ⟨v, hv, u, hu, ht⟩
      exact ⟨u, ⟨v, hv, hu⟩, ht⟩
    · rintro ⟨u, ⟨v, hv, hu⟩, ht⟩
      exact ⟨v, hv, u, hu, ht⟩

theorem runSnoc {s t : σ} {a : α} {as} :
    run step s (as ++ [a]) = some t ↔ ∃ u, run step s as = some u ∧ step u a = some t := by
  simp [runAppend, runCons]

theorem runKeeps {P : σ → Prop} (one : ∀ s a t, P s → step s a = some t → P t)
    {s t : σ} {as} (start : P s) (ran : run step s as = some t) : P t := by
  induction as generalizing s with
  | nil => cases Option.some.inj ran; exact start
  | cons a as ih =>
    obtain ⟨u, hu, rest⟩ := runCons.mp ran
    exact ih (one s a u start hu) rest

theorem runRelates {R : σ → σ → Prop} (refl : ∀ s, R s s)
    (more : ∀ s t a u, R s t → step t a = some u → R s u)
    {s t : σ} {as} (ran : run step s as = some t) : R s t :=
  runKeeps (P := R s) (fun u a v => more s u a v) (refl s) ran

theorem runHistory {s₀ : σ} {P : List α → σ → Prop} (start : P [] s₀)
    (one : ∀ as s a t, run step s₀ as = some s → P as s → step s a = some t → P (as ++ [a]) t)
    {as s} (ran : run step s₀ as = some s) : P as s := by
  induction as using List.reverseRecOn generalizing s with
  | nil => cases Option.some.inj ran; exact start
  | append_singleton as a ih =>
    obtain ⟨u, before, last⟩ := runSnoc.mp ran
    exact one as u a s before (ih before) last

theorem runContinues {s₀ : σ} {P : σ → Prop}
    (one : ∀ as s a t, run step s₀ as = some s → P s → step s a = some t → P t)
    {as bs : List α} {s t : σ} (ran : run step s₀ as = some s) (start : P s) (more : run step s bs = some t) :
    P t := by
  induction bs generalizing as s with
  | nil => cases Option.some.inj more; exact start
  | cons b bs ih =>
    obtain ⟨u, first, rest⟩ := runCons.mp more
    exact ih (runSnoc.mpr ⟨s, ran, first⟩) (one as s b u ran start first) rest

/-- The run from `s₀` over `as` takes the step `a` from `u` to `v`. -/
def Takes (step : σ → α → Option σ) (s₀ : σ) (as : List α) (u : σ) (a : α) (v : σ) : Prop :=
  ∃ before after, as = before ++ a :: after ∧ run step s₀ before = some u ∧ step u a = some v

theorem takesSplit {s₀ s u v : σ} {a : α} {as} (ran : run step s₀ as = some s)
    (takes : Takes step s₀ as u a v) :
    ∃ before after, as = before ++ a :: after ∧ run step s₀ before = some u ∧ step u a = some v ∧
      run step v after = some s := by
  obtain ⟨before, after, rfl, first, one⟩ := takes
  obtain ⟨u', first', rest⟩ := runAppend.mp ran
  cases Option.some.inj (first.symm.trans first')
  obtain ⟨v', one', rest⟩ := runCons.mp rest
  cases Option.some.inj (one.symm.trans one')
  exact ⟨before, after, rfl, first, one, rest⟩

/-- Every step of the run meets `G`, a condition on the step and on the state before it. -/
def Along (step : σ → α → Option σ) (G : σ → α → Prop) : σ → List α → Prop
  | _, [] => True
  | s, a :: as => G s a ∧ ∀ t, step s a = some t → Along step G t as

theorem alongKeeps {P : σ → Prop} {G : σ → α → Prop}
    (one : ∀ s a t, P s → G s a → step s a = some t → P t)
    {s t : σ} {as} (start : P s) (met : Along step G s as) (ran : run step s as = some t) : P t := by
  induction as generalizing s with
  | nil => cases Option.some.inj ran; exact start
  | cons a as ih =>
    obtain ⟨u, hu, rest⟩ := runCons.mp ran
    exact ih (one s a u start met.1 hu) (met.2 u hu) rest

theorem alongAppend {G : σ → α → Prop} {s t : σ} {as bs} (ran : run step s as = some t) :
    Along step G s (as ++ bs) ↔ Along step G s as ∧ Along step G t bs := by
  induction as generalizing s with
  | nil => cases Option.some.inj ran; simp [Along]
  | cons a as ih =>
    obtain ⟨u, hu, rest⟩ := runCons.mp ran
    simp only [List.cons_append, Along, hu, Option.some.injEq, forall_eq', ih rest, and_assoc]

theorem alongOf {P : σ → Prop} {G : σ → α → Prop} (one : ∀ s a t, P s → step s a = some t → P t)
    (met : ∀ s a, P s → G s a) {s : σ} (start : P s) (as : List α) : Along step G s as := by
  induction as generalizing s with
  | nil => trivial
  | cons a as ih => exact ⟨met s a start, fun t ht => ih (one s a t start ht)⟩

theorem alongMono {G H : σ → α → Prop} (weaker : ∀ s a, G s a → H s a) {s : σ} {as}
    (met : Along step G s as) : Along step H s as := by
  induction as generalizing s with
  | nil => trivial
  | cons a as ih => exact ⟨weaker s a met.1, fun t ht => ih (met.2 t ht)⟩

theorem alongForall {P : α → Prop} {s : σ} {as} (all : ∀ a ∈ as, P a) :
    Along step (fun _ a => P a) s as := by
  induction as generalizing s with
  | nil => trivial
  | cons a as ih =>
    exact ⟨all a List.mem_cons_self, fun t _ => ih fun b hb => all b (List.mem_cons_of_mem _ hb)⟩

theorem alongEach {G : σ → α → Prop} {s : σ} {as} : Along step G s as ↔
    ∀ before a after u, as = before ++ a :: after → run step s before = some u → G u a := by
  induction as generalizing s with
  | nil => simp [Along]
  | cons a as ih =>
    constructor
    · rintro met (_ | ⟨b, before⟩) c after u same ran
      · cases same
        cases Option.some.inj ran
        exact met.1
      · cases same
        obtain ⟨v, first, rest⟩ := runCons.mp ran
        exact ih.mp (met.2 v first) before c after u rfl rest
    · intro each
      refine ⟨each [] a as s rfl rfl, fun t one => ih.mpr fun before b after u same ran => ?_⟩
      exact each (a :: before) b after u (by rw [same]; rfl) (runCons.mpr ⟨t, one, ran⟩)

def checks (step : σ → α → Option σ) (check : σ → α → Bool) : σ → List α → Bool
  | _, [] => true
  | s, a :: as =>
    check s a &&
      match step s a with
      | some t => checks step check t as
      | none => true

theorem alongChecks {G : σ → α → Prop} {check : σ → α → Bool} (sound : ∀ s a, check s a = true → G s a)
    {s : σ} {as} (checked : checks step check s as = true) : Along step G s as := by
  induction as generalizing s with
  | nil => trivial
  | cons a as ih =>
    obtain ⟨here, rest⟩ := (Bool.and_eq_true ..).mp checked
    refine ⟨sound s a here, fun t one => ih ?_⟩
    rwa [one] at rest

def noted {β : Type} (step : σ → α → Option σ) (f : σ → α → Option β) : σ → List α → List β
  | _, [] => []
  | s, a :: as =>
    (f s a).toList ++
      match step s a with
      | some t => noted step f t as
      | none => []

theorem notedAppend {β : Type} {f : σ → α → Option β} {s t : σ} {as bs} (ran : run step s as = some t) :
    noted step f s (as ++ bs) = noted step f s as ++ noted step f t bs := by
  induction as generalizing s with
  | nil => cases Option.some.inj ran; rfl
  | cons a as ih =>
    obtain ⟨u, hu, rest⟩ := runCons.mp ran
    simp only [List.cons_append, noted, hu, ih rest, List.append_assoc]

theorem notedSnoc {β : Type} {f : σ → α → Option β} {s t : σ} {as a} (ran : run step s as = some t) :
    noted step f s (as ++ [a]) = noted step f s as ++ (f t a).toList := by
  rw [notedAppend ran, noted]
  cases step t a <;> simp [noted]

end Run

section Log
variable {ε : Type}

def Precedes (P Q : ε → Prop) (log : List ε) : Prop :=
  ∀ before e after, log = before ++ e :: after → Q e → ∃ f ∈ before, P f

def Silences (P Q : ε → Prop) (log : List ε) : Prop :=
  ∀ before e after, log = before ++ e :: after → P e → ∀ f ∈ after, ¬ Q f

theorem splitSnoc {log before after : List ε} {x e : ε} (h : log ++ [x] = before ++ e :: after) :
    (log = before ∧ e = x ∧ after = []) ∨ ∃ rest, after = rest ++ [x] ∧ log = before ++ e :: rest := by
  rcases List.eq_nil_or_concat after with rfl | ⟨rest, y, rfl⟩
  · have := List.append_inj' h rfl
    exact .inl ⟨this.1, (List.cons.inj this.2).1.symm, rfl⟩
  · have split : log ++ [x] = (before ++ e :: rest) ++ [y] := by simpa using h
    have := List.append_inj' split rfl
    exact .inr ⟨rest, by rw [(List.cons.inj this.2).1]; simp, this.1⟩

theorem precedesNil {P Q : ε → Prop} : Precedes P Q [] := by
  intro before e after h
  simp at h

theorem precedesSnoc {P Q : ε → Prop} {log : List ε} {x : ε} (old : Precedes P Q log)
    (new : Q x → ∃ f ∈ log, P f) : Precedes P Q (log ++ [x]) := by
  intro before e after h he
  rcases splitSnoc h with ⟨rfl, rfl, -⟩ | ⟨rest, -, split⟩
  · exact new he
  · exact old before e rest split he

theorem silencesNil {P Q : ε → Prop} : Silences P Q [] := by
  intro before e after h
  simp at h

theorem silencesSnoc {P Q : ε → Prop} {log : List ε} {x : ε} (old : Silences P Q log)
    (new : Q x → ∀ f ∈ log, ¬ P f) : Silences P Q (log ++ [x]) := by
  intro before e after h he f hf
  rcases splitSnoc h with ⟨rfl, rfl, rfl⟩ | ⟨rest, rfl, split⟩
  · simp at hf
  · rcases List.mem_append.mp hf with inside | last
    · exact old before e rest split he f inside
    · cases List.mem_singleton.mp last
      intro hx
      exact new hx e (by simp [split]) he

end Log

section Steps
variable {σ α : Type} {step : σ → α → Option σ}

theorem takesSnoc {s₀ s u v : σ} {a b : α} {as} (ran : run step s₀ as = some s) :
    Takes step s₀ (as ++ [a]) u b v ↔ Takes step s₀ as u b v ∨ (u = s ∧ b = a ∧ step s a = some v) := by
  constructor
  · rintro ⟨before, after, split, first, one⟩
    rcases splitSnoc split with ⟨rfl, rfl, -⟩ | ⟨rest, -, split⟩
    · cases ran.symm.trans first
      exact .inr ⟨rfl, rfl, one⟩
    · exact .inl ⟨before, rest, split, first, one⟩
  · rintro (⟨before, after, rfl, first, one⟩ | ⟨rfl, rfl, one⟩)
    · exact ⟨before, after ++ [a], by simp, first, one⟩
    · exact ⟨as, [], rfl, ran, one⟩

end Steps
end RkQuic.Runs
