import RkQuic.RegistryMoves

/-! The reference counts. The count of an endpoint is the number of its owners, so it is
destroyed by whoever lets the last reference go, once, and not while a call has one. -/
namespace RkQuic.Registry
open Runs Naming

structure Counted (s : State) : Prop where
  once : s.entered.Nodup
  entered : ∀ c, s.calls c ≠ none ↔ c ∈ s.entered
  mapped : ∀ h o, s.registry h = some o → o < s.fresh ∧ (s.objects o).handle = h
  held : ∀ c o, s.has c = some o → o < s.fresh
  count : ∀ o, o < s.fresh → (s.objects o).count =
    (if s.registry (s.objects o).handle = some o then 1 else 0) + owned s.entered s.has o

theorem countedAside {s t : State} (counted : Counted s) (once : t.entered.Nodup)
    (entered : ∀ c, t.calls c ≠ none ↔ c ∈ t.entered) (registry : t.registry = s.registry)
    (fresh : t.fresh = s.fresh) (handles : ∀ o, (t.objects o).handle = (s.objects o).handle)
    (counts : ∀ o, (t.objects o).count = (s.objects o).count) (has : t.has = s.has)
    (owners : ∀ o, owned t.entered s.has o = owned s.entered s.has o) : Counted t := by
  refine ⟨once, entered, fun h o there => ?_, fun c o there => ?_, fun o less => ?_⟩
  · rw [fresh, handles]; exact counted.mapped h o (registry ▸ there)
  · rw [fresh]; exact counted.held c o (has ▸ there)
  · rw [counts, handles, registry, has, owners]; exact counted.count o (fresh ▸ less)

theorem applyHandle (s : State) {e : Effect} {o : Nat} (old : ∀ h l, e ≠ .insert h l) :
    ((s.apply e).objects o).handle = (s.objects o).handle := by
  cases e with
  | insert h l => exact absurd rfl (old h l)
  | clone p | release p | drain p | shut p => simp only [State.apply, editObject]; split_ifs <;> rfl
  | _ => rfl

theorem ownersAfter {s t : State} {c k k'} (counted : Counted s) (here : s.calls c = some k)
    (calls : t.calls = Function.update s.calls c (some k')) (entered : t.entered = s.entered) (o : Nat) :
    owned t.entered t.has o + (if k.progress.has = some o then 1 else 0) =
      owned s.entered s.has o + (if k'.progress.has = some o then 1 else 0) := by
  have member : c ∈ s.entered := (counted.entered c).mp (by simp [here])
  rw [entered, hasAfter calls, ← hasNow here]
  exact ownedUpdate counted.once member k'.progress.has o

theorem enteredAfter {s t : State} {c k'} (counted : Counted s) (calls : t.calls = Function.update s.calls c (some k'))
    (entered : t.entered = s.entered) (mine : c ∈ s.entered) (d : Nat) :
    t.calls d ≠ none ↔ d ∈ t.entered := by
  rw [entered, calls]
  by_cases same : d = c
  · subst same
    simp [mine]
  · rw [Function.update_of_ne same]
    exact counted.entered d

theorem heldAfter {s t : State} {c k'} (counted : Counted s) (calls : t.calls = Function.update s.calls c (some k'))
    (grows : s.fresh ≤ t.fresh) (mine : ∀ o, k'.progress.has = some o → o < t.fresh) (d o : Nat)
    (has : t.has d = some o) : o < t.fresh := by
  rw [hasAfter calls] at has
  by_cases self : d = c
  · subst self
    rw [Function.update_self] at has
    exact mine o has
  · rw [Function.update_of_ne self] at has
    exact (counted.held d o has).trans_le grows

theorem hasCounts {s c o} (counted : Counted s) (has : s.has c = some o) : 0 < (s.objects o).count := by
  have less := counted.held c o has
  have member : c ∈ s.entered := (counted.entered c).mp fun free => by
    rw [State.has, State.progress, free] at has
    cases has
  have some_ : owned s.entered s.has o ≠ 0 := fun none_ => ownedNone.mp none_ c member has
  have := counted.count o less
  omega

theorem countedAfter {s t : State} {c k k'} (counted : Counted s) (here : s.calls c = some k)
    (calls : t.calls = Function.update s.calls c (some k')) (entered : t.entered = s.entered)
    (grows : s.fresh ≤ t.fresh) (mapped : ∀ h o, t.registry h = some o → o < t.fresh ∧ (t.objects o).handle = h)
    (mine : ∀ o, k'.progress.has = some o → o < t.fresh)
    (count : ∀ o, o < t.fresh →
      owned t.entered t.has o + (if k.progress.has = some o then 1 else 0) =
        owned s.entered s.has o + (if k'.progress.has = some o then 1 else 0) →
      (t.objects o).count = (if t.registry (t.objects o).handle = some o then 1 else 0) + owned t.entered t.has o) :
    Counted t where
  once := entered ▸ counted.once
  entered := enteredAfter counted calls entered ((counted.entered c).mp (by simp [here]))
  mapped := mapped
  held := heldAfter counted calls grows mine
  count o less := count o less (ownersAfter counted here calls entered o)

theorem countedHanded {s t : State} {c k k'} (counted : Counted s) (here : s.calls c = some k)
    (mine : ∀ o, k'.progress.has = some o → o < s.fresh)
    (calls : t.calls = Function.update s.calls c (some k')) (entered : t.entered = s.entered)
    (registry : t.registry = s.registry) (fresh : t.fresh = s.fresh)
    (handles : ∀ o, (t.objects o).handle = (s.objects o).handle)
    (counts : ∀ o, (t.objects o).count + (if k.progress.has = some o then 1 else 0) =
      (s.objects o).count + (if k'.progress.has = some o then 1 else 0)) : Counted t := by
  refine countedAfter counted here calls entered fresh.ge (fun h o there => ?_) (fun o has => fresh ▸ mine o has)
    fun o less owner => ?_
  · rw [fresh, handles]
    exact counted.mapped h o (registry ▸ there)
  · have count := counted.count o (fresh ▸ less)
    have moved := counts o
    rw [handles, registry]
    omega

theorem countedInsert {s t : State} {c k k' h l} (counted : Counted s) (here : s.calls c = some k)
    (had : k.progress.has = none) (gets : k'.progress.has = s.registry h)
    (calls : t.calls = Function.update s.calls c (some k')) (entered : t.entered = s.entered)
    (registry : t.registry = Function.update s.registry h (some s.fresh))
    (objects : t.objects = Function.update s.objects s.fresh ⟨h, l, true, false, 1⟩)
    (fresh : t.fresh = s.fresh + 1) : Counted t := by
  have old : ∀ o, o < s.fresh → t.objects o = s.objects o :=
    fun o less => by rw [objects, Function.update_of_ne (by omega)]
  have new : t.objects s.fresh = ⟨h, l, true, false, 1⟩ := by rw [objects, Function.update_self]
  refine countedAfter counted here calls entered (by omega) (fun g o there => ?_) (fun o displaced => ?_)
    fun o less owner => ?_
  · rw [registry] at there
    rcases updateSome there with ⟨rfl, rfl⟩ | ⟨-, before⟩
    · exact ⟨by omega, by rw [new]⟩
    · obtain ⟨less, same⟩ := counted.mapped g o before
      exact ⟨by omega, by rw [old o less]; exact same⟩
  · have := (counted.mapped h o (gets ▸ displaced)).1
    omega
  · rw [had, gets] at owner
    by_cases newest : o = s.fresh
    · subst newest
      have nobody : owned s.entered s.has s.fresh = 0 := by
        refine ownedNone.mpr fun d _ has => ?_
        exact absurd (counted.held d _ has) (lt_irrefl _)
      have unmapped : s.registry h ≠ some s.fresh := fun there =>
        absurd (counted.mapped h _ there).1 (lt_irrefl _)
      simp only [nobody, unmapped, reduceCtorEq, if_false] at owner
      rw [new, registry, Function.update_self, if_pos rfl]
      show 1 = 1 + _
      omega
    · have before : o < s.fresh := by omega
      have count := counted.count o before
      rw [old o before, registry]
      by_cases named : (s.objects o).handle = h
      · have other : s.fresh ≠ o := Ne.symm newest
        rw [named, Function.update_self, if_neg (by simpa using other)]
        rw [named] at count
        simp only [reduceCtorEq, if_false] at owner
        omega
      · rw [Function.update_of_ne named]
        have unmapped : s.registry h ≠ some o := fun there => named (counted.mapped h o there).2
        simp only [unmapped, reduceCtorEq, if_false] at owner
        omega

theorem countedClone {s t : State} {c k k' h o} (counted : Counted s) (here : s.calls c = some k)
    (had : k.progress.has = none) (gets : k'.progress.has = some o) (present : s.registry h = some o)
    (calls : t.calls = Function.update s.calls c (some k')) (entered : t.entered = s.entered)
    (registry : t.registry = s.registry) (fresh : t.fresh = s.fresh)
    (handles : ∀ p, (t.objects p).handle = (s.objects p).handle)
    (counts : ∀ p, (t.objects p).count = (s.objects p).count + (if p = o then 1 else 0)) : Counted t := by
  refine countedHanded counted here (fun p mine => ?_) calls entered registry fresh handles fun p => ?_
  · cases gets.symm.trans mine
    exact (counted.mapped h o present).1
  · rw [had, gets, counts]
    simp [eq_comm]

theorem countedRemove {s t : State} {c k k' h o} (counted : Counted s) (here : s.calls c = some k)
    (had : k.progress.has = none) (gets : k'.progress.has = some o) (present : s.registry h = some o)
    (calls : t.calls = Function.update s.calls c (some k')) (entered : t.entered = s.entered)
    (registry : t.registry = Function.update s.registry h none) (objects : t.objects = s.objects)
    (fresh : t.fresh = s.fresh) : Counted t := by
  obtain ⟨inside, named⟩ := counted.mapped h o present
  refine countedAfter counted here calls entered fresh.ge (fun g p there => ?_) (fun p mine => ?_)
    fun p less owner => ?_
  · rw [registry] at there
    rw [fresh, objects]
    exact counted.mapped g p (updateNone there).2
  · cases gets.symm.trans mine
    exact fresh ▸ inside
  · have count := counted.count p (fresh ▸ less)
    rw [had, gets] at owner
    rw [objects, registry]
    by_cases same : p = o
    · subst same
      rw [named, present] at count
      rw [named, Function.update_self]
      simp only [reduceCtorEq, if_false, if_true] at owner count ⊢
      omega
    · have other : o ≠ p := Ne.symm same
      have unmapped : Function.update s.registry h none (s.objects p).handle = some p ↔
          s.registry (s.objects p).handle = some p := by
        by_cases alike : (s.objects p).handle = h
        · rw [alike, Function.update_self, present]
          simp [other]
        · rw [Function.update_of_ne alike]
      simp only [unmapped, other, Option.some.injEq, reduceCtorEq, if_false] at owner ⊢
      omega

theorem countedRelease {s t : State} {c k k' o} (counted : Counted s) (here : s.calls c = some k)
    (had : k.progress.has = some o) (gets : k'.progress.has = none)
    (calls : t.calls = Function.update s.calls c (some k')) (entered : t.entered = s.entered)
    (registry : t.registry = s.registry) (fresh : t.fresh = s.fresh)
    (handles : ∀ p, (t.objects p).handle = (s.objects p).handle)
    (counts : ∀ p, (t.objects p).count = (s.objects p).count - (if p = o then 1 else 0)) : Counted t := by
  refine countedHanded counted here (fun p mine => ?_) calls entered registry fresh handles fun p => ?_
  · cases gets.symm.trans mine
  · have backed : 0 < (s.objects o).count := hasCounts counted ((hasNow here).trans had)
    rw [had, gets, counts]
    by_cases same : p = o
    · subst same
      simp only [reduceCtorEq, if_false, if_true]
      omega
    · simp [same, Ne.symm same]

def Effect.still : Effect → Prop
  | .none | .nextHandle | .drain _ | .shut _ => True
  | _ => False

theorem stillKeeps (s : State) {e : Effect} (still : e.still) :
    (s.apply e).registry = s.registry ∧ (s.apply e).fresh = s.fresh ∧
      (∀ o, ((s.apply e).objects o).handle = (s.objects o).handle) ∧
      ∀ o, ((s.apply e).objects o).count = (s.objects o).count := by
  cases e with
  | none | nextHandle => exact ⟨rfl, rfl, fun _ => rfl, fun _ => rfl⟩
  | drain o | shut o =>
    refine ⟨rfl, rfl, fun p => ?_, fun p => ?_⟩ <;> simp only [State.apply, editObject] <;>
      split_ifs <;> rfl
  | _ => exact absurd still not_false

theorem countedCall {s c k k' e} (counted : Counted s) (here : s.calls c = some k) (move : CallMove s k k' e) :
    Counted {s.apply e with calls := Function.update s.calls c (some k')} := by
  have aside : e.still → k'.progress.has = k.progress.has →
      Counted {s.apply e with calls := Function.update s.calls c (some k')} := by
    intro still same
    obtain ⟨registry, fresh, handles, counts⟩ := stillKeeps s still
    refine countedHanded counted here (fun o has => ?_) rfl (applyEntered s e) registry fresh handles fun o => ?_
    · exact counted.held c o ((hasNow here).trans (same ▸ has))
    · rw [same]
      exact congrArg (· + _) (counts o)
  cases move with
  | begin at_ makes first =>
    refine aside trivial ?_
    rw [at_]
    rcases first with rfl | rfl | ⟨status, rfl⟩ <;> rfl
  | found at_ method looks present =>
    refine countedClone counted here (by rw [at_]; rfl) rfl present rfl rfl rfl rfl (fun p => ?_) fun p => ?_
    · simp only [State.apply, editObject]; split_ifs <;> rfl
    · simp only [State.apply, editObject]; split_ifs <;> rfl
  | removed at_ stops present =>
    exact countedRemove counted here (by rw [at_]; rfl) rfl present rfl rfl rfl rfl rfl
  | register at_ absent =>
    refine countedInsert counted here (by rw [at_]; rfl) ?_ rfl rfl rfl rfl rfl
    exact absent.symm
  | displace at_ present =>
    refine countedInsert counted here (by rw [at_]; rfl) ?_ rfl rfl rfl rfl rfl
    exact present.symm
  | settle at_ running unnamed =>
    rcases at_ with at_ | at_ <;> exact aside trivial (by rw [at_]; rfl)
  | last at_ only =>
    refine countedRelease counted here (by rw [at_]; rfl) rfl rfl rfl rfl rfl (fun p => ?_) fun p => ?_
    · simp only [State.apply, editObject]; split_ifs <;> rfl
    · simp only [State.apply, editObject]; split_ifs <;> rfl
  | shared at_ others =>
    refine countedRelease counted here (by rw [at_]; rfl) rfl rfl rfl rfl rfl (fun p => ?_) fun p => ?_
    · simp only [State.apply, editObject]; split_ifs <;> rfl
    · simp only [State.apply, editObject]; split_ifs <;> rfl
  | invalid at_ | unknown at_ | identify at_ | number at_ | look at_ | ready at_ | late at_ | drain at_ | shut at_
  | finish at_ => exact aside trivial (by rw [at_]; rfl)

theorem countedStep {s a t} (move : Move s a t) (counted : Counted s) : Counted t := by
  cases move with
  | @enter c method free =>
    have idle : s.has c = none := by rw [State.has, State.progress, free]; rfl
    have has : State.has {s with
        calls := Function.update s.calls c (some ⟨method, .entered, none⟩), entered := s.entered ++ [c]} = s.has :=
      (@hasAfter s _ c ⟨method, .entered, none⟩ rfl).trans (updateKeeps idle)
    have new : c ∉ s.entered := fun member => (counted.entered c).mpr member free
    refine countedAside counted ?_ (fun d => ?_) rfl rfl (fun _ => rfl) (fun _ => rfl) has
      fun o => ownedSnoc idle
    · refine List.nodup_append.mpr ⟨counted.once, List.nodup_singleton c, fun d member e last => ?_⟩
      rw [List.mem_singleton.mp last]
      exact fun same => new (same ▸ member)
    · show Function.update s.calls c (some ⟨method, .entered, none⟩) d ≠ none ↔ d ∈ s.entered ++ [c]
      by_cases self : d = c
      · subst self
        simp
      · rw [Function.update_of_ne self, counted.entered d]
        simp [self]
  | call here step => exact countedCall counted here step
  | @session a o f aside up =>
    refine countedAside counted counted.once counted.entered rfl rfl (fun p => ?_) (fun p => ?_) rfl fun _ => rfl
    · rw [editObject]; split_ifs <;> rfl
    · rw [editObject]; split_ifs <;> rfl

theorem countedRun {labels s} (ran : run step init labels = some s) : Counted s := by
  refine runKeeps (fun _ _ _ old one => countedStep (moves one) old) ?_ ran
  refine ⟨List.nodup_nil, fun c => by simp [init], fun h o there => ?_, fun c o has => ?_, fun o less => ?_⟩
  · cases there
  · cases has
  · cases less

/-! The life of an endpoint: it has owners, or one call runs its destructor, or it is gone. -/

structure Live.Whole (l : Live) : Prop where
  up : l.runtime = true
  full : l.drained = false

structure Live.Freed (l : Live) : Prop where
  drained : l.drained = true
  down : l.runtime = false
  unheld : l.count = 0

inductive Life (s : State) (o : Nat) : Prop where
  | alive (owners : 0 < (s.objects o).count) (whole : (s.objects o).Whole)
      (nobody : ∀ c, s.destroys c ≠ some o)
  | draining {c a} (unheld : (s.objects o).count = 0) (whole : (s.objects o).Whole)
      (here : s.progress c = some (.draining o a)) (only : ∀ d, s.destroys d = some o → d = c)
  | shutting {c a} (unheld : (s.objects o).count = 0) (up : (s.objects o).runtime = true)
      (drained : (s.objects o).drained = true) (here : s.progress c = some (.shutting o a))
      (only : ∀ d, s.destroys d = some o → d = c)
  | gone (freed : (s.objects o).Freed) (nobody : ∀ c, s.destroys c ≠ some o)

structure Lives (s : State) : Prop where
  inside : ∀ c o, s.destroys c = some o → o < s.fresh
  life : ∀ o, o < s.fresh → Life s o

theorem lifeAside {s t : State} {o : Nat} (count : (t.objects o).count = (s.objects o).count)
    (runtime : (t.objects o).runtime = (s.objects o).runtime)
    (drained : (t.objects o).drained = (s.objects o).drained)
    (calls : ∀ d, s.destroys d = some o ∨ t.destroys d = some o → t.progress d = s.progress d)
    (life : Life s o) : Life t o := by
  have back : ∀ d, t.destroys d = some o → s.destroys d = some o := by
    intro d h
    rw [State.destroys, ← calls d (.inr h)]
    exact h
  cases life with
  | alive owners whole nobody =>
    exact .alive (count ▸ owners) ⟨runtime.trans whole.up, drained.trans whole.full⟩
      fun c h => nobody c (back c h)
  | @draining c a unheld whole here only =>
    refine .draining (count.trans unheld) ⟨runtime.trans whole.up, drained.trans whole.full⟩
      ((calls c (.inl ?_)).trans here) fun d h => only d (back d h)
    rw [State.destroys, here]; rfl
  | @shutting c a unheld up done here only =>
    refine .shutting (count.trans unheld) (runtime.trans up) (drained.trans done)
      ((calls c (.inl ?_)).trans here) fun d h => only d (back d h)
    rw [State.destroys, here]; rfl
  | gone freed nobody =>
    exact .gone ⟨drained.trans freed.drained, runtime.trans freed.down, count.trans freed.unheld⟩
      fun c h => nobody c (back c h)

theorem lifeOther {s t : State} {c k k' o} (here : s.calls c = some k)
    (calls : t.calls = Function.update s.calls c (some k')) (before : k.progress.destroys ≠ some o)
    (after : k'.progress.destroys ≠ some o) (count : (t.objects o).count = (s.objects o).count)
    (runtime : (t.objects o).runtime = (s.objects o).runtime)
    (drained : (t.objects o).drained = (s.objects o).drained) (life : Life s o) : Life t o := by
  refine lifeAside count runtime drained (fun d h => ?_) life
  have other : d ≠ c := by
    rintro rfl
    rcases h with h | h
    · exact before ((destroysNow here).symm.trans h)
    · rw [destroysAfter calls, Function.update_self] at h
      exact after h
  rw [progressAfter calls, Function.update_of_ne other]

theorem lifeOwned {s t : State} {c k k' o} (here : s.calls c = some k)
    (calls : t.calls = Function.update s.calls c (some k')) (after : k'.progress.destroys = none)
    (owners : 0 < (s.objects o).count) (still : 0 < (t.objects o).count)
    (runtime : (t.objects o).runtime = (s.objects o).runtime)
    (drained : (t.objects o).drained = (s.objects o).drained) (life : Life s o) : Life t o := by
  cases life with
  | alive _ whole nobody =>
    refine .alive still ⟨runtime.trans whole.up, drained.trans whole.full⟩ fun d h => ?_
    rw [destroysAfter calls] at h
    by_cases self : d = c
    · subst self
      rw [Function.update_self, after] at h
      cases h
    · rw [Function.update_of_ne self] at h
      exact nobody d h
  | draining unheld | shutting unheld => omega
  | gone freed nobody => have := freed.unheld; omega

def Effect.target : Effect → Option Nat
  | .clone o | .release o | .drain o | .shut o => some o
  | _ => Option.none

theorem applyElse (s : State) {e : Effect} {o : Nat} (less : o < s.fresh) (other : e.target ≠ some o) :
    (s.apply e).objects o = s.objects o := by
  have apart : ∀ p f, some p ≠ some o → (s.edit p f).objects o = s.objects o := by
    intro p f h
    rw [editObject, if_neg fun same => h (congrArg some same.symm)]
  cases e with
  | insert h l => exact Function.update_of_ne (by omega) ..
  | clone p | release p | drain p | shut p => simp only [State.apply]; exact apart p _ other
  | _ => rfl

theorem lifeElse {s c k k' e o} (here : s.calls c = some k) (less : o < s.fresh)
    (target : e.target ≠ some o) (before : k.progress.destroys ≠ some o)
    (after : k'.progress.destroys ≠ some o) (life : Life s o) :
    Life {s.apply e with calls := Function.update s.calls c (some k')} o := by
  have same := applyElse s less target
  refine lifeOther here rfl before after ?_ ?_ ?_ life <;> exact congrArg _ same

theorem destroyingMine {s : State} {c o} {p : Progress} (life : Life s o) (here : s.progress c = some p)
    (destroys : p.destroys = some o) :
    (∃ a, p = .draining o a ∧ (s.objects o).count = 0 ∧ (s.objects o).Whole) ∨
      (∃ a, p = .shutting o a ∧ (s.objects o).count = 0 ∧ (s.objects o).runtime = true ∧
        (s.objects o).drained = true) := by
  have mine : s.destroys c = some o := by rw [State.destroys, here]; exact destroys
  cases life with
  | alive owners whole nobody => exact absurd mine (nobody c)
  | @draining d a unheld whole there only =>
    cases only c mine
    cases Option.some.inj (here.symm.trans there)
    exact .inl ⟨a, rfl, unheld, whole⟩
  | @shutting d a unheld up done there only =>
    cases only c mine
    cases Option.some.inj (here.symm.trans there)
    exact .inr ⟨a, rfl, unheld, up, done⟩
  | gone freed nobody => exact absurd mine (nobody c)

theorem destroyingOnly {s : State} {c o} (life : Life s o) (mine : s.destroys c = some o) :
    ∀ d, s.destroys d = some o → d = c := by
  intro d h
  cases life with
  | alive owners whole nobody => exact absurd mine (nobody c)
  | draining unheld whole there only => exact (only d h).trans (only c mine).symm
  | shutting unheld up done there only => exact (only d h).trans (only c mine).symm
  | gone freed nobody => exact absurd mine (nobody c)

theorem insideAfter {s t : State} {c k'} (lives : Lives s) (grows : s.fresh ≤ t.fresh)
    (calls : t.calls = Function.update s.calls c (some k'))
    (mine : ∀ o, k'.progress.destroys = some o → o < s.fresh) :
    ∀ d o, t.destroys d = some o → o < t.fresh := by
  intro d o h
  rw [destroysAfter calls] at h
  by_cases self : d = c
  · subst self
    rw [Function.update_self] at h
    exact (mine o h).trans_le grows
  · rw [Function.update_of_ne self] at h
    exact (lives.inside d o h).trans_le grows

theorem applyFresh (s : State) (e : Effect) : s.fresh ≤ (s.apply e).fresh := by
  cases e <;> simp [State.apply]

theorem applyOnce (s : State) {e : Effect} (old : ∀ h l, e ≠ .insert h l) :
    (s.apply e).fresh = s.fresh := by
  cases e with
  | insert h l => exact absurd rfl (old h l)
  | _ => rfl

theorem livesTouch {s c k k' e} (lives : Lives s) (here : s.calls c = some k)
    (old : ∀ h l, e ≠ .insert h l) (mine : ∀ o, k'.progress.destroys = some o → o < s.fresh)
    (before : ∀ o, k.progress.destroys = some o → e.target = some o)
    (after : ∀ o, k'.progress.destroys = some o → e.target = some o)
    (touched : ∀ o, o < s.fresh → e.target = some o →
      Life {s.apply e with calls := Function.update s.calls c (some k')} o) :
    Lives {s.apply e with calls := Function.update s.calls c (some k')} := by
  refine ⟨insideAfter lives (applyFresh s e) rfl mine, fun o less => ?_⟩
  have less : o < s.fresh := (applyOnce s old) ▸ less
  by_cases about : e.target = some o
  · exact touched o less about
  · exact lifeElse here less about (fun h => about (before o h)) (fun h => about (after o h)) (lives.life o less)

theorem livesInsert {s c k k' h l} (lives : Lives s) (here : s.calls c = some k)
    (before : k.progress.destroys = none) (after : k'.progress.destroys = none) :
    Lives {s.apply (.insert h l) with calls := Function.update s.calls c (some k')} := by
  refine ⟨insideAfter lives (applyFresh s _) rfl fun o h => ?_, fun o less => ?_⟩
  · rw [after] at h; cases h
  by_cases newest : o = s.fresh
  · subst newest
    have new : ((s.apply (.insert h l)).objects s.fresh) = ⟨h, l, true, false, 1⟩ := Function.update_self ..
    refine .alive ?_ ⟨?_, ?_⟩ fun d destroys => ?_
    · show 0 < ((s.apply (.insert h l)).objects s.fresh).count
      rw [new]; exact Nat.one_pos
    · show ((s.apply (.insert h l)).objects s.fresh).runtime = true
      rw [new]
    · show ((s.apply (.insert h l)).objects s.fresh).drained = false
      rw [new]
    · rw [@destroysAfter s _ c k' rfl] at destroys
      by_cases self : d = c
      · subst self
        rw [Function.update_self, after] at destroys
        cases destroys
      · rw [Function.update_of_ne self] at destroys
        exact absurd (lives.inside d _ destroys) (lt_irrefl _)
  · have less : o < s.fresh + 1 := less
    refine lifeElse here (by omega) (by simp [Effect.target]) ?_ ?_ (lives.life o (by omega))
    · rw [before]; simp
    · rw [after]; simp

/-! What becomes of an endpoint whose last reference goes. -/

theorem lifeLast {s : State} {c : Nat} {k : Call} {p : Nat} {a : Answer} (only : (s.objects p).count = 1)
    (life : Life s p) :
    Life {s.apply (.release p) with calls := Function.update s.calls c (some (k.to (.draining p a)))} p := by
  cases life with
  | alive owners whole nobody =>
    refine .draining (c := c) (a := a) ?_ ⟨?_, ?_⟩ ?_ fun d destroys => ?_
    · show ((s.apply (.release p)).objects p).count = 0
      rw [releaseObject]
      show (s.objects p).count - 1 = 0
      omega
    · show ((s.apply (.release p)).objects p).runtime = true
      rw [releaseObject]
      exact whole.up
    · show ((s.apply (.release p)).objects p).drained = false
      rw [releaseObject]
      exact whole.full
    · rw [progressAfter (s := s) (c := c) rfl, Function.update_self]
      rfl
    · rw [destroysAfter (s := s) (c := c) rfl] at destroys
      by_contra self
      rw [Function.update_of_ne self] at destroys
      exact nobody d destroys
  | draining unheld | shutting unheld => omega
  | gone freed nobody => have := freed.unheld; omega

theorem lifeDrained {s c k p a} (here : s.calls c = some k) (at_ : k.progress = .draining p a) (life : Life s p) :
    Life {s.apply (.drain p) with calls := Function.update s.calls c (some (k.to (.shutting p a)))} p := by
  have mine : s.destroys c = some p := by rw [destroysNow here, at_]; rfl
  have only := destroyingOnly life mine
  have now : s.progress c = some (.draining p a) := by rw [progressNow here, at_]
  rcases destroyingMine life now rfl with ⟨a', -, unheld, whole⟩ | ⟨a', other, -⟩
  · refine .shutting (c := c) (a := a) ?_ ?_ ?_ ?_ fun d destroys => ?_
    · show ((s.apply (.drain p)).objects p).count = 0
      rw [drainObject]
      exact unheld
    · show ((s.apply (.drain p)).objects p).runtime = true
      rw [drainObject]
      exact whole.up
    · show ((s.apply (.drain p)).objects p).drained = true
      rw [drainObject]
    · rw [progressAfter (s := s) (c := c) rfl, Function.update_self]
      rfl
    · rw [destroysAfter (s := s) (c := c) rfl] at destroys
      by_contra self
      rw [Function.update_of_ne self] at destroys
      exact self (only d destroys)
  · cases other

theorem lifeShut {s c k p a} (here : s.calls c = some k) (at_ : k.progress = .shutting p a) (life : Life s p) :
    Life {s.apply (.shut p) with calls := Function.update s.calls c (some (k.to (.returning a)))} p := by
  have mine : s.destroys c = some p := by rw [destroysNow here, at_]; rfl
  have only := destroyingOnly life mine
  have now : s.progress c = some (.shutting p a) := by rw [progressNow here, at_]
  rcases destroyingMine life now rfl with ⟨a', other, -⟩ | ⟨a', -, unheld, up, done⟩
  · cases other
  · refine .gone ⟨?_, ?_, ?_⟩ fun d destroys => ?_
    · show ((s.apply (.shut p)).objects p).drained = true
      rw [shutObject]
      exact done
    · show ((s.apply (.shut p)).objects p).runtime = false
      rw [shutObject]
    · show ((s.apply (.shut p)).objects p).count = 0
      rw [shutObject]
      exact unheld
    · rw [destroysAfter (s := s) (c := c) rfl] at destroys
      by_cases self : d = c
      · subst self
        rw [Function.update_self] at destroys
        cases destroys
      · rw [Function.update_of_ne self] at destroys
        exact self (only d destroys)

theorem livesCall {s c k k' e} (counted : Counted s) (lives : Lives s) (here : s.calls c = some k)
    (move : CallMove s k k' e) : Lives {s.apply e with calls := Function.update s.calls c (some k')} := by
  -- no endpoint is touched, and the call runs no destructor, neither before nor after
  have idle : e.target = none → k.progress.destroys = none → k'.progress.destroys = none →
      (∀ h l, e ≠ .insert h l) → Lives {s.apply e with calls := Function.update s.calls c (some k')} := by
    intro target before after old
    refine livesTouch lives here old (fun o h => ?_) (fun o h => ?_) (fun o h => ?_) fun o _ h => ?_
    · rw [after] at h; cases h
    · rw [before] at h; cases h
    · rw [after] at h; cases h
    · rw [target] at h; cases h
  cases move with
  | begin at_ makes first =>
    refine idle rfl (by rw [at_]; rfl) ?_ (by simp)
    rcases first with rfl | rfl | ⟨status, rfl⟩ <;> rfl
  | register at_ absent => exact livesInsert lives here (by rw [at_]; rfl) rfl
  | displace at_ present => exact livesInsert lives here (by rw [at_]; rfl) rfl
  | @found h p at_ method looks present =>
    refine livesTouch lives here (by simp) (fun o h => by cases h) (fun o h => ?_) (fun o h => by cases h)
      fun o less h => ?_
    · rw [at_] at h; cases h
    · cases h
      obtain ⟨-, named⟩ := counted.mapped h p present
      have count := counted.count p less
      rw [named, if_pos present] at count
      refine lifeOwned here rfl rfl (by omega) ?_ ?_ ?_ (lives.life p less)
      · show 0 < ((s.apply (.clone p)).objects p).count
        rw [cloneObject]
        exact Nat.succ_pos _
      · show ((s.apply (.clone p)).objects p).runtime = _
        rw [cloneObject]
      · show ((s.apply (.clone p)).objects p).drained = _
        rw [cloneObject]
  | @last p a at_ only =>
    have less := counted.held c p (by rw [hasNow here, at_]; rfl)
    refine livesTouch lives here (by simp) (fun o h => by cases h; exact less) (fun o h => ?_)
      (fun o h => by cases h; rfl) fun o _ h => ?_
    · rw [at_] at h; cases h
    · cases h
      exact lifeLast only (lives.life p less)
  | @shared p a at_ others =>
    have has : s.has c = some p := by rw [hasNow here, at_]; rfl
    have owners := hasCounts counted has
    refine livesTouch lives here (by simp) (fun o h => by cases h) (fun o h => ?_) (fun o h => by cases h)
      fun o less h => ?_
    · rw [at_] at h; cases h
    · cases h
      refine lifeOwned here rfl rfl owners ?_ ?_ ?_ (lives.life p less)
      · show 0 < ((s.apply (.release p)).objects p).count
        rw [releaseObject]
        show 0 < (s.objects p).count - 1
        omega
      · show ((s.apply (.release p)).objects p).runtime = _
        rw [releaseObject]
      · show ((s.apply (.release p)).objects p).drained = _
        rw [releaseObject]
  | @drain p a at_ =>
    have less := lives.inside c p (by rw [destroysNow here, at_]; rfl)
    refine livesTouch lives here (by simp) (fun o h => by cases h; exact less)
      (fun o h => by rw [at_] at h; cases h; rfl) (fun o h => by cases h; rfl) fun o _ h => ?_
    cases h
    exact lifeDrained here at_ (lives.life p less)
  | @shut p a at_ =>
    have less := lives.inside c p (by rw [destroysNow here, at_]; rfl)
    refine livesTouch lives here (by simp) (fun o h => by cases h)
      (fun o h => by rw [at_] at h; cases h; rfl) (fun o h => by cases h) fun o _ h => ?_
    cases h
    exact lifeShut here at_ (lives.life p less)
  | settle at_ running unnamed =>
    rcases at_ with at_ | at_ <;> exact idle rfl (by rw [at_]; rfl) rfl (by simp)
  | invalid at_ | unknown at_ | removed at_ | identify at_ | number at_ | look at_ | ready at_ | late at_
  | finish at_ => exact idle rfl (by rw [at_]; rfl) rfl (by simp)

theorem livesStep {s a t} (move : Move s a t) (counted : Counted s) (lives : Lives s) : Lives t := by
  cases move with
  | @enter c method free =>
    have idle : s.destroys c = none := by rw [State.destroys, State.progress, free]; rfl
    have destroys : State.destroys {s with
        calls := Function.update s.calls c (some ⟨method, .entered, none⟩), entered := s.entered ++ [c]} =
        s.destroys :=
      (@destroysAfter s _ c ⟨method, .entered, none⟩ rfl).trans (updateKeeps idle)
    refine ⟨fun d o h => lives.inside d o (destroys ▸ h), fun o less => ?_⟩
    refine lifeAside (s := s) rfl rfl rfl (fun d h => ?_) (lives.life o less)
    have other : d ≠ c := by
      rintro rfl
      rw [destroys, idle] at h
      simp at h
    rw [@progressAfter s _ c ⟨method, .entered, none⟩ rfl, Function.update_of_ne other]
  | call here step => exact livesCall counted lives here step
  | @session a o f aside up =>
    refine ⟨lives.inside, fun p less => lifeAside (s := s) ?_ ?_ ?_ (fun _ _ => rfl) (lives.life p less)⟩
    all_goals rw [editObject]; split_ifs <;> rfl

theorem livesRun {labels s} (ran : run step init labels = some s) : Lives s := by
  refine runHistory (P := fun _ s => Lives s) ⟨fun c o h => ?_, fun o less => ?_⟩
    (fun _ _ _ _ before old one => livesStep (moves one) (countedRun before) old) ran
  · cases h
  · cases less

theorem hasWhole {s c o} (counted : Counted s) (lives : Lives s) (has : s.has c = some o) :
    (s.objects o).Whole ∧ ∀ d, s.destroys d ≠ some o := by
  have owners := hasCounts counted has
  cases lives.life o (counted.held c o has) with
  | alive _ whole nobody => exact ⟨whole, nobody⟩
  | draining unheld | shutting unheld => omega
  | gone freed nobody => have := freed.unheld; omega

end RkQuic.Registry
