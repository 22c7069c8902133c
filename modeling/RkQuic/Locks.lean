import Mathlib.Logic.Relation
import RkQuic.Runs

/-! Threads that take locks. What a thread holds is read off from where it stands, so the
discipline of a program is a matter of its code alone, and what follows from it holds in
every interleaving. Nothing here knows what the locks guard. -/
namespace RkQuic.Locks
open Runs

inductive Op (L : Type) where
  | acquire (l : L)
  | release (l : L)
  | wait
  | run
  deriving DecidableEq, Repr

/-- `next` is where a thread stands after its operation, if not at its end, with what it has
done to the shared data; `held` is what it holds, the last taken first. A thread may begin
where it `starts` and may be dropped where it `cancels`. -/
structure Code (σ Pc L R : Type) where
  op : Pc → Op L
  next : σ → Pc → R → Option (Option Pc × σ)
  held : Pc → List L
  starts : σ → Pc → Option σ
  cancels : σ → Pc → Bool

/-- `passed` is history: how many locks a thread has given back. -/
structure State (σ Pc L : Type) where
  shared : σ
  pcs : Nat → Option Pc
  owner : L → Option Nat
  passed : Nat → Nat

inductive Label (Pc R : Type) where
  | spawn (i : Nat) (pc : Pc)
  | go (i : Nat) (reply : R)
  | cancel (i : Nat)
  deriving DecidableEq, Repr

section Step
variable {σ Pc L R : Type} [DecidableEq L] (code : Code σ Pc L R)

def perform (s : State σ Pc L) (i : Nat) (pc : Option Pc) (shared : σ) : Op L → Option (State σ Pc L)
  | .acquire l =>
    if s.owner l = none then
      some {s with shared := shared, pcs := Function.update s.pcs i pc, owner := Function.update s.owner l (some i)}
    else none
  | .release l =>
    some {shared := shared, pcs := Function.update s.pcs i pc, owner := Function.update s.owner l none,
          passed := Function.update s.passed i (s.passed i + 1)}
  | .wait | .run => some {s with shared := shared, pcs := Function.update s.pcs i pc}

def step (s : State σ Pc L) : Label Pc R → Option (State σ Pc L)
  | .spawn i pc =>
    match s.pcs i with
    | some _ => none
    | none =>
      match code.starts s.shared pc with
      | none => none
      | some shared => some {s with shared := shared, pcs := Function.update s.pcs i (some pc)}
  | .cancel i =>
    match s.pcs i with
    | none => none
    | some pc => if code.cancels s.shared pc then some {s with pcs := Function.update s.pcs i none} else none
  | .go i reply =>
    match s.pcs i with
    | none => none
    | some pc =>
      match code.next s.shared pc reply with
      | none => none
      | some (pc', shared) => perform s i pc' shared (code.op pc)

def heldAt : Option Pc → List L
  | none => []
  | some pc => code.held pc

/-- A `wide` lock is not held where a thread waits for anything but a wide lock; under a
`leaf` nothing is taken, and what is taken under another lock is a leaf. Under a wide lock
the reply `quiet` is enough to go on, and `left` counts what is still to be done there. -/
structure Disciplined (wide leaf : L → Prop) (rank : L → Nat) (left : Pc → Nat) (quiet : R) : Prop where
  starts : ∀ σ pc σ', code.starts σ pc = some σ' → code.held pc = []
  cancels : ∀ σ pc, code.cancels σ pc = true → code.held pc = []
  once : ∀ pc, (code.held pc).Nodup
  acquire : ∀ σ pc r pc' σ' l, code.op pc = .acquire l → code.next σ pc r = some (pc', σ') →
    heldAt code pc' = l :: code.held pc
  release : ∀ σ pc r pc' σ' l, code.op pc = .release l → code.next σ pc r = some (pc', σ') →
    code.held pc = l :: heldAt code pc'
  still : ∀ σ pc r pc' σ', code.op pc = .wait ∨ code.op pc = .run → code.next σ pc r = some (pc', σ') →
    heldAt code pc' = code.held pc
  ordered : ∀ pc l, code.op pc = .acquire l → ∀ m ∈ code.held pc, rank m < rank l
  waits : ∀ pc, code.op pc = .wait → ∀ m ∈ code.held pc, ¬ wide m
  narrow : ∀ pc l, code.op pc = .acquire l → ¬ wide l → ∀ m ∈ code.held pc, ¬ wide m
  under : ∀ pc l, code.op pc = .acquire l → ∀ m ∈ code.held pc, ¬ leaf m
  above : ∀ pc l, code.op pc = .acquire l → code.held pc ≠ [] → leaf l
  goes : ∀ σ pc, ((∃ m ∈ code.held pc, wide m) ∨ ∃ l, code.op pc = .acquire l ∧ wide l) →
    ∃ done, code.next σ pc quiet = some done
  less : ∀ σ pc pc' σ', (∃ m ∈ code.held pc, wide m) → code.next σ pc quiet = some (some pc', σ') →
    (∃ m ∈ code.held pc', wide m) → left pc' < left pc

def Owned (s : State σ Pc L) : Prop := ∀ l i, s.owner l = some i ↔ l ∈ heldAt code (s.pcs i)

def WaitsFor (s : State σ Pc L) (i j : Nat) : Prop :=
  ∃ pc l, s.pcs i = some pc ∧ code.op pc = .acquire l ∧ s.owner l = some j

variable {code}

inductive Does (s : State σ Pc L) (i : Nat) (t : State σ Pc L) : Op L → Prop where
  | acquire {l} (free : s.owner l = none) (owner : t.owner = Function.update s.owner l (some i))
      (passed : t.passed = s.passed) : Does s i t (.acquire l)
  | release {l} (owner : t.owner = Function.update s.owner l none)
      (passed : t.passed = Function.update s.passed i (s.passed i + 1)) : Does s i t (.release l)
  | wait (owner : t.owner = s.owner) (passed : t.passed = s.passed) : Does s i t .wait
  | run (owner : t.owner = s.owner) (passed : t.passed = s.passed) : Does s i t .run

structure Goes (code : Code σ Pc L R) (s : State σ Pc L) (i : Nat) (r : R) (t : State σ Pc L) (pc : Pc)
    (pc' : Option Pc) : Prop where
  here : s.pcs i = some pc
  moved : code.next s.shared pc r = some (pc', t.shared)
  pcs : t.pcs = Function.update s.pcs i pc'
  does : Does s i t (code.op pc)

theorem goes {s t : State σ Pc L} {i r} (one : step code s (.go i r) = some t) : ∃ pc pc', Goes code s i r t pc pc' := by
  cases here : s.pcs i with
  | none => simp [step, here] at one
  | some pc =>
    cases moved : code.next s.shared pc r with
    | none => simp [step, here, moved] at one
    | some done =>
      obtain ⟨pc', shared⟩ := done
      simp only [step, here, moved] at one
      cases hop : code.op pc with
      | acquire l =>
        rw [hop, perform] at one
        split at one
        · next free =>
          cases one
          exact ⟨pc, pc', here, moved, rfl, hop ▸ .acquire free rfl rfl⟩
        · cases one
      | release l =>
        rw [hop, perform] at one
        cases one
        exact ⟨pc, pc', here, moved, rfl, hop ▸ .release rfl rfl⟩
      | wait =>
        rw [hop, perform] at one
        cases one
        exact ⟨pc, pc', here, moved, rfl, hop ▸ .wait rfl rfl⟩
      | run =>
        rw [hop, perform] at one
        cases one
        exact ⟨pc, pc', here, moved, rfl, hop ▸ .run rfl rfl⟩

theorem Goes.mine {s t : State σ Pc L} {i r pc pc'} (went : Goes code s i r t pc pc') : t.pcs i = pc' := by
  rw [went.pcs, Function.update_self]

theorem Goes.others {s t : State σ Pc L} {i r pc pc'} (went : Goes code s i r t pc pc') {k : Nat} (other : k ≠ i) :
    t.pcs k = s.pcs k := by
  rw [went.pcs, Function.update_of_ne other]

theorem Does.more {s t : State σ Pc L} {i op} (does : Does s i t op) (k : Nat) : s.passed k ≤ t.passed k := by
  cases does with
  | release owner passed =>
    rw [passed]
    by_cases same : k = i
    · subst same
      simp
    · simp [same]
  | acquire _ _ passed | wait _ passed | run _ passed => exact (congrFun passed k).ge

theorem Does.others {s t : State σ Pc L} {i op} (does : Does s i t op) {k : Nat} (other : k ≠ i) :
    t.passed k = s.passed k := by
  cases does with
  | release owner passed => rw [passed, Function.update_of_ne other]
  | acquire _ _ passed | wait _ passed | run _ passed => exact congrFun passed k

theorem passedRun {s t : State σ Pc L} {as} (ran : run (step code) s as = some t) (k : Nat) :
    s.passed k ≤ t.passed k := by
  refine runRelates (R := fun s t => s.passed k ≤ t.passed k) (fun s => le_rfl) ?_ ran
  intro s t a u before one
  refine before.trans ?_
  cases a with
  | spawn i pc =>
    simp only [step] at one
    split at one
    · cases one
    · split at one
      · cases one
      · cases one
        exact le_rfl
  | cancel i =>
    simp only [step] at one
    split at one
    · cases one
    · split at one
      · cases one
        exact le_rfl
      · cases one
  | go i r =>
    obtain ⟨pc, pc', went⟩ := goes one
    exact went.does.more k

omit [DecidableEq L] in
theorem ownedMoved {s t : State σ Pc L} {i : Nat} {pc : Option Pc} (owned : Owned code s)
    (pcs : t.pcs = Function.update s.pcs i pc) (same : heldAt code pc = heldAt code (s.pcs i))
    (owner : t.owner = s.owner) : Owned code t := by
  intro l j
  rw [owner, pcs, owned l j]
  by_cases mine : j = i
  · subst mine
    rw [Function.update_self, same]
  · rw [Function.update_of_ne mine]

def Quiet (quiet : R) (as : List (Label Pc R)) : Prop := ∀ a ∈ as, ∃ j, a = .go j quiet

theorem goesFrom {quiet : R} {i : Nat} {pc : Pc} {s t : State σ Pc L} {as} (silent : Quiet quiet as)
    (ran : run (step code) s as = some t) (here : s.pcs i = some pc) (more : s.passed i < t.passed i) :
    ∃ before after u v, as = before ++ .go i quiet :: after ∧ run (step code) s before = some u ∧
      u.pcs i = some pc ∧ u.passed i = s.passed i ∧ step code u (.go i quiet) = some v ∧
      run (step code) v after = some t := by
  induction as generalizing s with
  | nil =>
    cases Option.some.inj ran
    exact absurd more (lt_irrefl _)
  | cons a as ih =>
    obtain ⟨v, one, rest⟩ := runCons.mp ran
    obtain ⟨j, rfl⟩ := silent a List.mem_cons_self
    by_cases mine : i = j
    · subst mine
      exact ⟨[], as, s, v, rfl, rfl, here, rfl, one, rest⟩
    · obtain ⟨_, _, went⟩ := goes one
      have passed := went.does.others mine
      obtain ⟨before, after, u, w, rfl, first, there, same, next, last⟩ :=
        ih (fun b hb => silent b (List.mem_cons_of_mem _ hb)) rest ((went.others mine).trans here) (by rwa [passed])
      exact ⟨.go j quiet :: before, after, u, w, rfl, runCons.mpr ⟨v, one, first⟩, there, same.trans passed, next,
        last⟩

end Step

section Order
variable {σ Pc L R : Type} {code : Code σ Pc L R}
variable {wide leaf : L → Prop} {rank : L → Nat} {left : Pc → Nat} {quiet : R}
variable (disciplined : Disciplined code wide leaf rank left quiet)
include disciplined

theorem waitsNarrow {s : State σ Pc L} {i pc} (owned : Owned code s) (here : s.pcs i = some pc)
    (waits : code.op pc = .wait ∨ ∃ l, code.op pc = .acquire l ∧ ¬ wide l) {m : L} (broad : wide m) :
    s.owner m ≠ some i := by
  intro has
  rw [owned m i, here] at has
  rcases waits with hop | ⟨l, hop, narrow⟩
  · exact disciplined.waits pc hop m has broad
  · exact disciplined.narrow pc l hop narrow m has broad

theorem chainRises {s : State σ Pc L} (owned : Owned code s) {i j : Nat}
    (chain : Relation.TransGen (WaitsFor code s) i j) :
    ∃ pc l m, s.pcs i = some pc ∧ code.op pc = .acquire l ∧ rank l ≤ rank m ∧ s.owner m = some j := by
  induction chain with
  | single one =>
    obtain ⟨pc, l, here, hop, has⟩ := one
    exact ⟨pc, l, l, here, hop, le_rfl, has⟩
  | tail _ one ih =>
    obtain ⟨pc, l, m, here, hop, rises, has⟩ := ih
    obtain ⟨pc', l', here', hop', has'⟩ := one
    rw [owned m, here'] at has
    exact ⟨pc, l, l', here, hop, rises.trans (disciplined.ordered pc' l' hop' m has).le, has'⟩

theorem noCycle {s : State σ Pc L} (owned : Owned code s) (i : Nat) :
    ¬ Relation.TransGen (WaitsFor code s) i i := by
  intro chain
  obtain ⟨pc, l, m, here, hop, rises, has⟩ := chainRises disciplined owned chain
  rw [owned m, here] at has
  exact absurd (disciplined.ordered pc l hop m has) (not_lt.mpr rises)

end Order

section Discipline
variable {σ Pc L R : Type} [DecidableEq L] {code : Code σ Pc L R}
variable {wide leaf : L → Prop} {rank : L → Nat} {left : Pc → Nat} {quiet : R}
variable (disciplined : Disciplined code wide leaf rank left quiet)
include disciplined

theorem ownedGoes {s t : State σ Pc L} {i r pc pc'} (owned : Owned code s) (went : Goes code s i r t pc pc') :
    Owned code t := by
  obtain ⟨here, moved, pcs, does⟩ := went
  have at_i : heldAt code (s.pcs i) = code.held pc := by rw [here]; rfl
  have follows := disciplined.acquire s.shared pc r pc' t.shared
  have precedes := disciplined.release s.shared pc r pc' t.shared
  have stays := disciplined.still s.shared pc r pc' t.shared
  cases hop : code.op pc with
  | acquire l =>
    rw [hop] at does
    obtain ⟨free, owner, -⟩ := does
    have grows := follows l hop moved
    intro m j
    rw [owner, pcs]
    by_cases mine : j = i
    · subst mine
      rw [Function.update_self, grows, List.mem_cons, ← at_i, ← owned m j]
      by_cases same : m = l
      · simp [same]
      · simp [same]
    · rw [Function.update_of_ne mine, ← owned m j]
      by_cases same : m = l
      · subst same
        simp [free, Ne.symm mine]
      · simp [same]
  | release l =>
    rw [hop] at does
    obtain - | ⟨owner, -⟩ := does
    have shrinks := precedes l hop moved
    have once := disciplined.once pc
    rw [shrinks, List.nodup_cons] at once
    have had : s.owner l = some i := by
      rw [owned l i, at_i, shrinks]
      exact List.mem_cons_self
    intro m j
    rw [owner, pcs]
    by_cases mine : j = i
    · subst mine
      rw [Function.update_self]
      by_cases same : m = l
      · subst same
        simp [once.1]
      · rw [Function.update_of_ne same, owned m j, at_i, shrinks, List.mem_cons]
        simp [same]
    · rw [Function.update_of_ne mine, ← owned m j]
      by_cases same : m = l
      · subst same
        simp [had, Ne.symm mine]
      · simp [same]
  | wait =>
    rw [hop] at does
    cases does with
    | wait owner => exact ownedMoved owned pcs ((stays (.inl hop) moved).trans at_i.symm) owner
  | run =>
    rw [hop] at does
    cases does with
    | run owner => exact ownedMoved owned pcs ((stays (.inr hop) moved).trans at_i.symm) owner

theorem ownedStep {s t : State σ Pc L} {a} (owned : Owned code s) (one : step code s a = some t) :
    Owned code t := by
  cases a with
  | spawn i pc =>
    simp only [step] at one
    split at one
    case h_1 => cases one
    case h_2 free =>
      split at one
      case h_1 => cases one
      case h_2 shared starts =>
        cases one
        refine ownedMoved owned rfl ?_ rfl
        rw [free]
        exact disciplined.starts _ pc _ starts
  | cancel i =>
    simp only [step] at one
    split at one
    case h_1 => cases one
    case h_2 pc here =>
      split at one
      case isFalse => cases one
      case isTrue cancels =>
        cases one
        refine ownedMoved owned rfl ?_ rfl
        rw [here]
        exact (disciplined.cancels _ pc cancels).symm
  | go i r =>
    obtain ⟨pc, pc', went⟩ := goes one
    exact ownedGoes disciplined owned went

theorem ownedRun {s t : State σ Pc L} {as} (owned : Owned code s) (ran : run (step code) s as = some t) :
    Owned code t :=
  runKeeps (fun _ _ _ old one => ownedStep disciplined old one) owned ran

theorem goesOn {s : State σ Pc L} {i pc} (here : s.pcs i = some pc)
    (ready : (∃ m ∈ code.held pc, wide m) ∨ ∃ l, code.op pc = .acquire l ∧ wide l)
    (free : ∀ l, code.op pc = .acquire l → s.owner l = none) :
    ∃ pc' t, step code s (.go i quiet) = some t ∧ Goes code s i quiet t pc pc' := by
  obtain ⟨⟨pc', shared⟩, moved⟩ := disciplined.goes s.shared pc ready
  have performs : ∃ t, perform s i pc' shared (code.op pc) = some t := by
    cases hop : code.op pc with
    | acquire l => exact ⟨_, by rw [perform, if_pos (free l hop)]⟩
    | release l => exact ⟨_, rfl⟩
    | wait => exact ⟨_, rfl⟩
    | run => exact ⟨_, rfl⟩
  obtain ⟨t, done⟩ := performs
  have one : step code s (.go i quiet) = some t := by
    simp only [step, here, moved]
    exact done
  obtain ⟨pc₁, pc'', went⟩ := Locks.goes one
  cases here.symm.trans went.here
  exact ⟨pc'', t, one, went⟩

omit [DecidableEq L] disciplined in
theorem heldSome {pc : Option Pc} {l : L} (has : l ∈ heldAt code pc) : ∃ pc', pc = some pc' ∧ l ∈ code.held pc' := by
  cases pc with
  | none => cases has
  | some pc => exact ⟨pc, rfl, has⟩

omit [DecidableEq L] disciplined in
theorem quietAppend {as bs : List (Label Pc R)} (first : Quiet quiet as) (second : Quiet quiet bs) :
    Quiet quiet (as ++ bs) := by
  intro a ha
  rcases List.mem_append.mp ha with ha | ha
  · exact first a ha
  · exact second a ha

omit [DecidableEq L] disciplined in
theorem quietGo (i : Nat) : Quiet quiet [(.go i quiet : Label Pc R)] := by
  intro a ha
  exact ⟨i, List.mem_singleton.mp ha⟩

theorem leafFreed {l : L} {j : Nat} (leafy : leaf l) (broad : wide l) :
    ∀ n s pc, Owned code s → s.pcs j = some pc → l ∈ code.held pc → left pc = n →
      ∃ as t, Quiet quiet as ∧ run (step code) s as = some t ∧ t.owner l = none ∧
        (∀ k, k ≠ j → t.pcs k = s.pcs k) ∧ (∀ m ∈ heldAt code (t.pcs j), m ∈ code.held pc) := by
  intro n
  induction n using Nat.strong_induction_on with
  | _ n ih =>
    intro s pc owned here has measure
    have inside : ∃ m ∈ code.held pc, wide m := ⟨l, has, broad⟩
    have unlocked : ∀ m, code.op pc ≠ .acquire m := fun m hop => disciplined.under pc m hop l has leafy
    obtain ⟨pc', t, one, went⟩ := goesOn disciplined here (.inl inside) fun m hop => absurd hop (unlocked m)
    have owned' := ownedStep disciplined owned one
    have moved := went.moved
    have others : ∀ k, k ≠ j → t.pcs k = s.pcs k := fun k => went.others
    have mine := went.mine
    -- one step, and the rest if the lock is still held after it
    have goOn : l ∈ heldAt code pc' → (∀ m ∈ heldAt code pc', m ∈ code.held pc) →
        ∃ as t, Quiet quiet as ∧ run (step code) s as = some t ∧ t.owner l = none ∧
          (∀ k, k ≠ j → t.pcs k = s.pcs k) ∧ (∀ m ∈ heldAt code (t.pcs j), m ∈ code.held pc) := by
      intro still fewer
      obtain ⟨pc'', rfl, still⟩ := heldSome still
      have smaller := disciplined.less _ _ _ _ inside moved ⟨l, still, broad⟩
      obtain ⟨as, u, silent, ran, freed, aside, kept⟩ :=
        ih _ (measure ▸ smaller) t pc'' owned' mine still rfl
      refine ⟨.go j quiet :: as, u, quietAppend (quietGo j) silent, runCons.mpr ⟨t, one, ran⟩, freed, ?_, ?_⟩
      · intro k other
        exact (aside k other).trans (others k other)
      · intro m hm
        exact fewer m (kept m hm)
    cases hop : code.op pc with
    | acquire m => exact absurd hop (unlocked m)
    | wait => exact absurd broad (disciplined.waits pc hop l has)
    | run =>
      have same := disciplined.still _ _ _ _ _ (.inr hop) moved
      exact goOn (same ▸ has) fun m hm => same ▸ hm
    | release m =>
      have shrinks := disciplined.release _ _ _ _ _ _ hop moved
      by_cases this : m = l
      · subst this
        refine ⟨[.go j quiet], t, quietGo j, runCons.mpr ⟨t, one, rfl⟩, ?_, others, ?_⟩
        · have does := went.does
          rw [hop] at does
          obtain - | ⟨owner, -⟩ := does
          rw [owner, Function.update_self]
        · intro k hk
          rw [mine] at hk
          rw [shrinks]
          exact List.mem_cons_of_mem _ hk
      · refine goOn ?_ ?_
        · rw [shrinks] at has
          exact (List.mem_cons.mp has).resolve_left (Ne.symm this)
        · intro k hk
          rw [shrinks]
          exact List.mem_cons_of_mem _ hk

def Recedes (code : Code σ Pc L R) (i : Nat) (s t : State σ Pc L) : Prop :=
  ∀ k, k ≠ i → (heldAt code (s.pcs k) = [] → t.pcs k = s.pcs k) ∧
    ∀ m ∈ heldAt code (t.pcs k), m ∈ heldAt code (s.pcs k)

omit [DecidableEq L] disciplined in
theorem recedesSame {i : Nat} {s t : State σ Pc L} (same : ∀ k, k ≠ i → t.pcs k = s.pcs k) :
    Recedes code i s t := by
  intro k other
  rw [same k other]
  exact ⟨fun _ => rfl, fun m hm => hm⟩

omit [DecidableEq L] disciplined in
theorem recedesTrans {i : Nat} {s t u : State σ Pc L} (first : Recedes code i s t) (second : Recedes code i t u) :
    Recedes code i s u := by
  intro k other
  obtain ⟨aside, fewer⟩ := first k other
  obtain ⟨aside', fewer'⟩ := second k other
  refine ⟨fun empty => ?_, fun m hm => fewer m (fewer' m hm)⟩
  have same := aside empty
  exact (aside' (same ▸ empty)).trans same

theorem leafAwaited {s : State σ Pc L} {i pc l} (owned : Owned code s) (here : s.pcs i = some pc)
    (hop : code.op pc = .acquire l) (leafy : leaf l) (broad : wide l) :
    ∃ as t, Quiet quiet as ∧ run (step code) s as = some t ∧ t.owner l = none ∧ Recedes code i s t ∧
      t.pcs i = some pc := by
  cases has : s.owner l with
  | none => exact ⟨[], s, fun a ha => (by cases ha), rfl, has, recedesSame fun k _ => rfl, here⟩
  | some j =>
    have holds := (owned l j).mp has
    have apart : j ≠ i := by
      rintro rfl
      rw [here] at holds
      exact lt_irrefl _ (disciplined.ordered pc l hop l holds)
    obtain ⟨pc', there, inside⟩ := heldSome holds
    obtain ⟨as, t, silent, ran, freed, aside, fewer⟩ :=
      leafFreed disciplined leafy broad _ s pc' owned there inside rfl
    refine ⟨as, t, silent, ran, freed, ?_, (aside i (Ne.symm apart)).trans here⟩
    intro k other
    by_cases same : k = j
    · subst same
      rw [there]
      refine ⟨fun empty => ?_, fewer⟩
      rw [heldAt] at empty
      rw [empty] at inside
      cases inside
    · rw [aside k same]
      exact ⟨fun _ => rfl, fun m hm => hm⟩

theorem wideFreed {i : Nat} : ∀ n s pc, Owned code s → s.pcs i = some pc → (∃ m ∈ code.held pc, wide m) →
    left pc = n → ∃ as t, Quiet quiet as ∧ run (step code) s as = some t ∧
      (∀ m ∈ heldAt code (t.pcs i), ¬ wide m) ∧ s.passed i < t.passed i ∧ Recedes code i s t := by
  intro n
  induction n using Nat.strong_induction_on with
  | _ n ih =>
    intro s pc owned here inside measure
    obtain ⟨w, has, broad⟩ := inside
    -- the leaf that the owner is about to take, if it is, is freed by its own owner first
    have cleared : ∃ as u, Quiet quiet as ∧ run (step code) s as = some u ∧
        (∀ l, code.op pc = .acquire l → u.owner l = none) ∧ Recedes code i s u ∧ u.pcs i = some pc := by
      by_cases takes : ∃ l, code.op pc = .acquire l
      · obtain ⟨l, hop⟩ := takes
        have leafy := disciplined.above pc l hop (List.ne_nil_of_mem has)
        have broad' : wide l := by
          by_contra narrow
          exact disciplined.narrow pc l hop narrow w has broad
        obtain ⟨as, u, silent, ran, free, recedes, there⟩ := leafAwaited disciplined owned here hop leafy broad'
        refine ⟨as, u, silent, ran, fun m hop' => ?_, recedes, there⟩
        cases hop.symm.trans hop'
        exact free
      · exact ⟨[], s, fun a ha => (by cases ha), rfl, fun l hop => absurd ⟨l, hop⟩ takes,
          recedesSame fun k _ => rfl, here⟩
    obtain ⟨as, u, silent, ran, free, recedes, there⟩ := cleared
    obtain ⟨pc', t, one, went⟩ := goesOn disciplined there (.inl ⟨w, has, broad⟩) free
    have owned' := ownedStep disciplined (ownedRun disciplined owned ran) one
    have moved := went.moved
    have mine := went.mine
    have recedes' : Recedes code i s t := recedesTrans recedes (recedesSame fun k => went.others)
    have silent' := quietAppend silent (quietGo i)
    have ran' : run (step code) s (as ++ [.go i quiet]) = some t := runSnoc.mpr ⟨u, ran, one⟩
    by_cases still : ∃ m ∈ heldAt code pc', wide m
    · obtain ⟨m, hm, broad'⟩ := still
      obtain ⟨pc'', rfl, hm⟩ := heldSome hm
      have smaller := disciplined.less _ _ _ _ ⟨w, has, broad⟩ moved ⟨m, hm, broad'⟩
      obtain ⟨bs, v, silent'', ran'', narrow, more, recedes''⟩ :=
        ih _ (measure ▸ smaller) t pc'' owned' mine ⟨m, hm, broad'⟩ rfl
      exact ⟨_, v, quietAppend silent' silent'', runAppend.mpr ⟨t, ran', ran''⟩, narrow,
        (passedRun ran' i).trans_lt more, recedesTrans recedes' recedes''⟩
    · refine ⟨_, t, silent', ran', ?_, ?_, recedes'⟩
      · intro m hm broad'
        rw [mine] at hm
        exact still ⟨m, hm, broad'⟩
      · -- the lock is not held any more, so that the step was its release
        have changed : heldAt code pc' ≠ code.held pc := by
          intro same
          exact still ⟨w, same ▸ has, broad⟩
        have before := passedRun ran i
        cases hop : code.op pc with
        | acquire l =>
          rw [disciplined.acquire _ _ _ _ _ _ hop moved] at still
          exact absurd ⟨w, List.mem_cons_of_mem _ has, broad⟩ still
        | wait => exact absurd (disciplined.still _ _ _ _ _ (.inl hop) moved) changed
        | run => exact absurd (disciplined.still _ _ _ _ _ (.inr hop) moved) changed
        | release l =>
          have does := went.does
          rw [hop] at does
          obtain - | ⟨-, passed⟩ := does
          rw [passed, Function.update_self]
          exact Nat.lt_succ_of_le before

theorem getsThrough {s : State σ Pc L} {i pc} (owned : Owned code s) (here : s.pcs i = some pc)
    (pending : (∃ m ∈ code.held pc, wide m) ∨ ∃ l, code.op pc = .acquire l ∧ wide l) :
    ∃ as t, Quiet quiet as ∧ run (step code) s as = some t ∧ s.passed i < t.passed i ∧
      ∀ m ∈ heldAt code (t.pcs i), ¬ wide m := by
  by_cases inside : ∃ m ∈ code.held pc, wide m
  · obtain ⟨as, t, silent, ran, narrow, more, -⟩ := wideFreed disciplined _ s pc owned here inside rfl
    exact ⟨as, t, silent, ran, more, narrow⟩
  obtain ⟨l, hop, broad⟩ := pending.resolve_left inside
  have cleared : ∃ as u, Quiet quiet as ∧ run (step code) s as = some u ∧ u.owner l = none ∧ u.pcs i = some pc := by
    by_cases empty : code.held pc = []
    · cases has : s.owner l with
      | none => exact ⟨[], s, fun a ha => (by cases ha), rfl, has, here⟩
      | some j =>
        have holds := (owned l j).mp has
        have apart : i ≠ j := by
          rintro rfl
          rw [here] at holds
          exact lt_irrefl _ (disciplined.ordered pc l hop l holds)
        obtain ⟨pc', there, holds⟩ := heldSome holds
        obtain ⟨as, u, silent, ran, narrow, -, recedes⟩ :=
          wideFreed disciplined _ s pc' owned there ⟨l, holds, broad⟩ rfl
        refine ⟨as, u, silent, ran, ?_, ?_⟩
        · -- whoever has the lock now would have had it before
          cases after : u.owner l with
          | none => rfl
          | some k =>
            have holds' := (ownedRun disciplined owned ran l k).mp after
            by_cases same : k = j
            · subst same
              exact absurd broad (narrow l holds')
            · have before := (owned l k).mpr ((recedes k same).2 l holds')
              exact absurd (Option.some.inj (before.symm.trans has)) same
        · exact ((recedes i apart).1 (by rw [here]; exact empty)).trans here
    · have leafy := disciplined.above pc l hop empty
      obtain ⟨as, u, silent, ran, free, -, there⟩ := leafAwaited disciplined owned here hop leafy broad
      exact ⟨as, u, silent, ran, free, there⟩
  obtain ⟨as, u, silent, ran, free, there⟩ := cleared
  have free' : ∀ m, code.op pc = .acquire m → u.owner m = none := by
    intro m hop'
    cases hop.symm.trans hop'
    exact free
  obtain ⟨pc', v, one, went⟩ := goesOn disciplined there (.inr ⟨l, hop, broad⟩) free'
  have ran' : run (step code) s (as ++ [.go i quiet]) = some v := runSnoc.mpr ⟨u, ran, one⟩
  have grown := disciplined.acquire _ _ _ _ _ _ hop went.moved
  have holds : l ∈ heldAt code pc' := by
    rw [grown]
    exact List.mem_cons_self
  obtain ⟨pc'', rfl, holds⟩ := heldSome holds
  obtain ⟨bs, t, silent', ran'', narrow, more, -⟩ :=
    wideFreed disciplined _ v pc'' (ownedRun disciplined owned ran') went.mine ⟨l, holds, broad⟩ rfl
  exact ⟨_, t, quietAppend (quietAppend silent (quietGo i)) silent', runAppend.mpr ⟨v, ran', ran''⟩,
    (passedRun ran' i).trans_lt more, narrow⟩

end Discipline
end RkQuic.Locks
