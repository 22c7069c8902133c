import RkQuic.Stops

/-! What a handle is: a number that is given out once, registered once, removed once, and
that leads to one endpoint or to none. -/
namespace RkQuic.Registry
open Runs Naming

def Answer.handle : Answer → Option Handle
  | .started h | .connected h _ => some h
  | _ => none

def Progress.carrying : Progress → Option Handle
  | .registering _ h => some h
  | _ => none

def Progress.made : Progress → Option Handle
  | .releasing _ a | .draining _ a | .shutting _ a | .returning a | .returned a => a.handle
  | _ => none

def State.carrying (s : State) (c : Nat) : Option Handle := (s.progress c).bind Progress.carrying

def State.made (s : State) (c : Nat) : Option Handle := (s.progress c).bind Progress.made

theorem carryingAfter {s t : State} {c : Nat} {k' : Call}
    (calls : t.calls = Function.update s.calls c (some k')) :
    t.carrying = Function.update s.carrying c k'.progress.carrying := by
  funext d
  by_cases same : d = c <;> simp [State.carrying, progressAfter calls, same]

theorem madeAfter {s t : State} {c : Nat} {k' : Call}
    (calls : t.calls = Function.update s.calls c (some k')) :
    t.made = Function.update s.made c k'.progress.made := by
  funext d
  by_cases same : d = c <;> simp [State.made, progressAfter calls, same]

theorem carryingNow {s : State} {c k} (here : s.calls c = some k) : s.carrying c = k.progress.carrying := by
  rw [State.carrying, progressNow here]; rfl

theorem madeNow {s : State} {c k} (here : s.calls c = some k) : s.made c = k.progress.made := by
  rw [State.made, progressNow here]; rfl

inductive Numbering (s : State) (k k' : Call) (e : Effect) : Prop where
  | still (carrying : k'.progress.carrying = k.progress.carrying) (made : k'.progress.made = k.progress.made)
      (old : ∀ h l, e ≠ .insert h l)
  | given (had : k.progress.carrying = none) (gets : k'.progress.carrying = some s.next)
      (made : k'.progress.made = k.progress.made) (next : e = .nextHandle)
  | placed {h l} (had : k.progress.carrying = some h) (gets : k'.progress.carrying = none)
      (before : k.progress.made = none) (made : k'.progress.made = some h) (inserts : e = .insert h l)

theorem registeredHandle (session : Option SessionId) (h : Handle) : (registered session h).handle = some h := by
  cases session <;> rfl

theorem unnamedHandle {a : Answer} (unnamed : ∀ session h, a ≠ registered session h) : a.handle = none := by
  cases a with
  | started h => exact absurd rfl (unnamed none h)
  | connected h session => exact absurd rfl (unnamed (some session) h)
  | _ => rfl

theorem callNumbers {s k k' e} (move : CallMove s k k' e)
    (unused : ∀ h, k.progress.carrying = some h → s.registry h = none) : Numbering s k k' e := by
  cases move with
  | begin at_ makes first =>
    rcases first with rfl | rfl | ⟨status, rfl⟩ <;>
      exact .still (by rw [at_]; rfl) (by rw [at_]; rfl) (by simp)
  | number at_ => exact .given (by rw [at_]; rfl) rfl (by rw [at_]; rfl) rfl
  | @register session h at_ absent =>
    exact .placed (by rw [at_]; rfl) rfl (by rw [at_]; rfl) (registeredHandle session h) rfl
  | @displace session h old at_ present =>
    have free := unused h (by rw [at_]; rfl)
    rw [present] at free
    cases free
  | settle at_ running unnamed =>
    rcases at_ with at_ | at_ <;>
      exact .still (by rw [at_]; rfl) (by rw [at_]; exact unnamedHandle unnamed) (by simp)
  | invalid at_ | unknown at_ | found at_ | removed at_ | identify at_ | look at_ | ready at_ | late at_
  | last at_ | shared at_ | drain at_ | shut at_ | finish at_ =>
    exact .still (by rw [at_]; rfl) (by rw [at_]; rfl) (by simp)

structure Numbered (s : State) : Prop where
  issued : s.issued = (List.range s.issued.length).map fun i => UInt64.ofNat (i + 1)
  next : s.next = UInt64.ofNat (s.issued.length + 1)

theorem numberedNext {s t : State} (issued : t.issued = s.issued ++ [s.next]) (next : t.next = s.next + 1)
    (numbered : Numbered s) : Numbered t := by
  constructor
  · rw [issued, List.length_append, List.length_singleton, List.range_succ, List.map_append, ← numbered.issued,
      numbered.next]
    rfl
  · rw [next, issued, List.length_append, List.length_singleton]
    exact nextNumber numbered.next

theorem applyIssued (s : State) (e : Effect) :
    (s.apply e).issued = s.issued ∧ (s.apply e).next = s.next ∨
      (s.apply e).issued = s.issued ++ [s.next] ∧ (s.apply e).next = s.next + 1 := by
  cases e <;> first | exact .inl ⟨rfl, rfl⟩ | exact .inr ⟨rfl, rfl⟩

theorem moveIssued {s a t} (move : Move s a t) : t.issued = s.issued ∧ t.next = s.next ∨
    t.issued = s.issued ++ [s.next] ∧ t.next = s.next + 1 := by
  cases move with
  | enter | session => exact .inl ⟨rfl, rfl⟩
  | @call c _ k k' e => exact applyIssued s e

theorem numberedRun {labels s} (ran : run step init labels = some s) : Numbered s := by
  refine runKeeps (P := Numbered) (fun s a t old one => ?_) ⟨rfl, rfl⟩ ran
  rcases moveIssued (moves one) with ⟨issued, next⟩ | ⟨issued, next⟩
  · exact ⟨by rw [issued]; exact old.issued, by rw [next, issued]; exact old.next⟩
  · exact numberedNext issued next old

theorem issuedNat {s : State} {h : Handle} (numbered : Numbered s) (few : s.issued.length < 2 ^ 64)
    (member : h ∈ s.issued) : 0 < h.toNat ∧ h.toNat ≤ s.issued.length := by
  rw [numbered.issued, List.mem_map] at member
  obtain ⟨i, inside, rfl⟩ := member
  have less := List.mem_range.mp inside
  rw [UInt64.toNat_ofNat', Nat.mod_eq_of_lt (by omega)]
  omega

theorem nextUnheard {s : State} (numbered : Numbered s) (few : s.issued.length < 2 ^ 64) :
    s.next ∉ s.issued := by
  intro member
  have bounds := issuedNat numbered few member
  rw [numbered.next, UInt64.toNat_ofNat'] at bounds
  omega

def State.handle (s : State) (o : Nat) : Handle := (s.objects o).handle

structure Placed (s : State) : Prop where
  names : Names s.issued s.fresh s.handle s.carrying
  made : ∀ c h, s.made c = some h → ∃ o, o < s.fresh ∧ s.handle o = h
  maker : ∀ o, o < s.fresh → ∃ c, s.made c = some (s.handle o)
  alone : ∀ c d h, s.made c = some h → s.made d = some h → c = d

theorem carriedFree {s c h} (counted : Counted s) (placed : Placed s) (carried : s.carrying c = some h) :
    s.registry h = none := by
  cases present : s.registry h with
  | none => rfl
  | some o =>
    obtain ⟨less, named⟩ := counted.mapped h o present
    exact absurd named ((placed.names.coming c h carried).2 o less)

theorem placedStill {s t : State} (placed : Placed s) (within : ∀ u ∈ s.issued, u ∈ t.issued)
    (fresh : t.fresh = s.fresh) (handles : t.handle = s.handle) (carrying : t.carrying = s.carrying)
    (made : t.made = s.made) : Placed t := by
  refine ⟨?_, ?_, ?_, ?_⟩
  · rw [fresh, handles, carrying]; exact namesMore within placed.names
  · rw [fresh, handles, made]; exact placed.made
  · rw [fresh, handles, made]; exact placed.maker
  · rw [made]; exact placed.alone

theorem applyHandles (s : State) {e : Effect} (old : ∀ h l, e ≠ .insert h l) :
    (s.apply e).handle = s.handle := funext fun _ => applyHandle s old

theorem placedInsert {s t : State} {c k k' h l} (placed : Placed s) (here : s.calls c = some k)
    (calls : t.calls = Function.update s.calls c (some k')) (issued : t.issued = s.issued)
    (objects : t.objects = Function.update s.objects s.fresh ⟨h, l, true, false, 1⟩)
    (fresh : t.fresh = s.fresh + 1) (had : k.progress.carrying = some h) (gets : k'.progress.carrying = none)
    (before : k.progress.made = none) (made : k'.progress.made = some h) : Placed t := by
  have handles : t.handle = Function.update s.handle s.fresh h := by
    funext o
    by_cases new : o = s.fresh <;> simp [State.handle, objects, new]
  have newest : t.handle s.fresh = h := by rw [handles, Function.update_self]
  have old : ∀ o, o < s.fresh → t.handle o = s.handle o :=
    fun o less => by rw [handles, Function.update_of_ne (by omega)]
  have carried : s.carrying c = some h := (carryingNow here).trans had
  have unused := (placed.names.coming c h carried).2
  have makers := madeAfter (s := s) (c := c) calls
  rw [made] at makers
  have unmade : ∀ d, s.made d ≠ some h := fun d mine => by
    obtain ⟨o, less, named⟩ := placed.made d h mine
    exact unused o less named
  refine ⟨?_, fun d g mine => ?_, fun o less => ?_, fun d d' g mine mine' => ?_⟩
  · rw [issued, fresh, handles, carryingAfter calls, gets]
    exact namesPlaced carried placed.names
  · rw [makers] at mine
    rcases updateSome mine with ⟨-, rfl⟩ | ⟨-, was⟩
    · exact ⟨s.fresh, by omega, newest⟩
    · obtain ⟨o, less, named⟩ := placed.made d g was
      exact ⟨o, by omega, (old o less).trans named⟩
  · by_cases new : o = s.fresh
    · subst new
      exact ⟨c, by rw [makers, Function.update_self, newest]⟩
    · have less : o < s.fresh := by omega
      obtain ⟨d, mine⟩ := placed.maker o less
      refine ⟨d, ?_⟩
      have other : d ≠ c := by
        rintro rfl
        rw [madeNow here, before] at mine
        cases mine
      rw [makers, Function.update_of_ne other, old o less]
      exact mine
  · rw [makers] at mine mine'
    rcases updateSome mine with ⟨rfl, rfl⟩ | ⟨-, was⟩ <;> rcases updateSome mine' with ⟨rfl, same⟩ | ⟨-, was'⟩
    · rfl
    · exact absurd was' (unmade _)
    · exact absurd (same ▸ was) (unmade _)
    · exact placed.alone d d' g was was'

theorem placedCall {s c k k' e} (counted : Counted s) (placed : Placed s) (here : s.calls c = some k)
    (unheard : s.next ∉ s.issued) (move : CallMove s k k' e) :
    Placed {s.apply e with calls := Function.update s.calls c (some k')} := by
  have within : ∀ u ∈ s.issued, u ∈ (s.apply e).issued := fun u member => by
    rcases applyIssued s e with ⟨issued, -⟩ | ⟨issued, -⟩ <;> simp [issued, member]
  have unused : ∀ h, k.progress.carrying = some h → s.registry h = none :=
    fun h carried => carriedFree counted placed ((carryingNow here).trans carried)
  cases callNumbers move unused with
  | still carrying made old =>
    refine placedStill placed within (applyOnce s old) (applyHandles s old) ?_ ?_
    · exact (@carryingAfter _ _ c k' rfl).trans (updateKeeps ((carryingNow here).trans carrying.symm))
    · exact (@madeAfter _ _ c k' rfl).trans (updateKeeps ((madeNow here).trans made.symm))
  | given had gets made next =>
    subst next
    have makers : State.made {s.apply .nextHandle with calls := Function.update s.calls c (some k')} = s.made :=
      (@madeAfter s _ c k' rfl).trans (updateKeeps ((madeNow here).trans made.symm))
    refine ⟨?_, fun d h mine => placed.made d h (makers ▸ mine), fun o less => ?_,
      fun d d' h mine mine' => placed.alone d d' h (makers ▸ mine) (makers ▸ mine')⟩
    · rw [@carryingAfter s _ c k' rfl, gets]
      exact namesGiven unheard within (by simp [State.apply]) placed.names
    · obtain ⟨d, mine⟩ := placed.maker o less
      exact ⟨d, makers ▸ mine⟩
  | @placed h l had gets before made inserts =>
    subst inserts
    exact placedInsert (s := s) (c := c) (k := k) placed here rfl rfl rfl rfl had gets before made

theorem placedStep {s a t} (move : Move s a t) (counted : Counted s) (placed : Placed s)
    (unheard : s.next ∉ s.issued) : Placed t := by
  cases move with
  | @enter c method free =>
    have idle : s.carrying c = none := by rw [State.carrying, State.progress, free]; rfl
    have unmade : s.made c = none := by rw [State.made, State.progress, free]; rfl
    refine placedStill placed (fun u h => h) rfl rfl ?_ ?_
    · exact (@carryingAfter s _ c ⟨method, .entered, none⟩ rfl).trans (updateKeeps idle)
    · exact (@madeAfter s _ c ⟨method, .entered, none⟩ rfl).trans (updateKeeps unmade)
  | call here step => exact placedCall counted placed here unheard step
  | @session a p f aside up =>
    refine placedStill placed (fun u h => h) rfl (funext fun o => ?_) rfl rfl
    rw [State.handle, editObject]
    split_ifs <;> rfl

theorem issuedGrows {s a t} (move : Move s a t) : s.issued.length ≤ t.issued.length := by
  rcases moveIssued move with ⟨issued, -⟩ | ⟨issued, -⟩ <;> simp [issued]

theorem placedRun {labels s} (ran : run step init labels = some s) (few : s.issued.length < 2 ^ 64) :
    Placed s := by
  refine runHistory (P := fun _ s => s.issued.length < 2 ^ 64 → Placed s) (fun _ => ?_)
    (fun as s a t before old one few => ?_) ran few
  · refine ⟨⟨fun o less => ?_, fun o p less => ?_, fun c u mine => ?_, fun c d u mine => ?_⟩,
      fun c h mine => ?_, fun o less => ?_, fun c d h mine => ?_⟩
    all_goals first | cases less | cases mine
  · have few' := (issuedGrows (moves one)).trans_lt few
    exact placedStep (moves one) (countedRun before) (old few') (nextUnheard (numberedRun before) few')

def Call.removed (k : Call) : Option Nat :=
  match k.method with
  | .stop _ => k.resolved
  | _ => none

def State.removed (s : State) (c : Nat) : Option Nat := (s.calls c).bind Call.removed

theorem removedAfter {s t : State} {c : Nat} {k' : Call}
    (calls : t.calls = Function.update s.calls c (some k')) :
    t.removed = Function.update s.removed c k'.removed := by
  funext d
  by_cases same : d = c <;> simp [State.removed, calls, same]

theorem removedNow {s : State} {c k} (here : s.calls c = some k) : s.removed c = k.removed := by
  rw [State.removed, here]; rfl

theorem removedStop {k : Call} {o} (removed : k.removed = some o) :
    (∃ h, k.method = .stop h) ∧ k.resolved = some o := by
  unfold Call.removed at removed
  split at removed
  · exact ⟨⟨_, by assumption⟩, removed⟩
  · cases removed

structure Listed (s : State) : Prop where
  kept : ∀ o, o < s.fresh → s.registry (s.handle o) = some o ∨ ∃ c, s.removed c = some o
  once : ∀ c d o, s.removed c = some o → s.removed d = some o → c = d

theorem removedSevered {s c o} (severed : Severed s) (removed : s.removed c = some o) :
    o < s.fresh ∧ s.registry (s.handle o) ≠ some o := by
  obtain ⟨k, here, mine⟩ := Option.bind_eq_some_iff.mp removed
  obtain ⟨⟨h, stops⟩, found⟩ := removedStop mine
  obtain ⟨less, named⟩ := severed.found c k o here found
  rw [stops] at named
  have named : h = s.handle o := Option.some.inj named
  exact ⟨less, named ▸ severed.stopped c k h o here stops found⟩

theorem listedStill {s t : State} (listed : Listed s) (registry : t.registry = s.registry)
    (fresh : t.fresh = s.fresh) (handles : t.handle = s.handle) (removed : t.removed = s.removed) :
    Listed t := by
  refine ⟨?_, ?_⟩
  · rw [registry, fresh, handles, removed]; exact listed.kept
  · rw [removed]; exact listed.once

theorem removedStill {s k k' e} (move : CallMove s k k' e) (still : ∀ h, e ≠ .remove h) :
    k'.removed = k.removed := by
  cases move with
  | found at_ method looks present => simp only [Call.removed]
  | removed at_ stops => exact absurd rfl (still _)
  | _ => rfl

theorem removes {s k k' e h} (move : CallMove s k k' e) (removes : e = .remove h) :
    ∃ o, k.progress = .entered ∧ s.registry h = some o ∧ k'.removed = some o := by
  cases move with
  | @removed g o at_ stops present =>
    cases removes
    exact ⟨o, at_, present, by simp [Call.removed, stops]⟩
  | begin at_ makes first => cases removes
  | _ => cases removes

theorem listedRemove {s c k k' h} (counted : Counted s) (severed : Severed s) (fate : Fate k) (listed : Listed s)
    (here : s.calls c = some k) (move : CallMove s k k' (.remove h)) :
    Listed {s.apply (.remove h) with calls := Function.update s.calls c (some k')} := by
  have idle : k.progress = .entered → k.resolved = none := fun at_ => by simpa only [Fate, at_] using fate
  obtain ⟨o, at_, present, mine⟩ := removes move rfl
  obtain ⟨-, named⟩ := counted.mapped h o present
  have removed : State.removed {s.apply (.remove h) with calls := Function.update s.calls c (some k')} =
      Function.update s.removed c (some o) := mine ▸ @removedAfter s _ c k' rfl
  have before : s.removed c = none := by
    rw [removedNow here, Call.removed, idle at_]
    split <;> rfl
  have unremoved : ∀ d, s.removed d ≠ some o := fun d gone =>
    (removedSevered severed gone).2 (by rw [State.handle, named]; exact present)
  refine ⟨fun p less => ?_, fun d d' p gone gone' => ?_⟩
  · rw [removed]
    rcases listed.kept p less with there | ⟨d, gone⟩
    · by_cases same : s.handle p = h
      · rw [same] at there
        cases there.symm.trans present
        exact .inr ⟨c, Function.update_self ..⟩
      · exact .inl ((Function.update_of_ne same ..).trans there)
    · refine .inr ⟨d, ?_⟩
      have other : d ≠ c := by
        rintro rfl
        rw [before] at gone
        cases gone
      rw [Function.update_of_ne other]
      exact gone
  · rw [removed] at gone gone'
    rcases updateSome gone with ⟨rfl, rfl⟩ | ⟨-, was⟩ <;> rcases updateSome gone' with ⟨rfl, same⟩ | ⟨-, was'⟩
    · rfl
    · exact absurd was' (unremoved _)
    · exact absurd (same ▸ was) (unremoved _)
    · exact listed.once d d' p was was'

theorem listedKeep {s c k k' e} (counted : Counted s) (placed : Placed s) (listed : Listed s) (here : s.calls c = some k)
    (move : CallMove s k k' e) (still : ∀ h, e ≠ .remove h) :
    Listed {s.apply e with calls := Function.update s.calls c (some k')} := by
  have removed : State.removed {s.apply e with calls := Function.update s.calls c (some k')} = s.removed :=
    (@removedAfter s _ c k' rfl).trans
      (updateKeeps ((removedNow here).trans (removedStill move still).symm))
  have unused : ∀ h, k.progress.carrying = some h → s.registry h = none :=
    fun h carried => carriedFree counted placed ((carryingNow here).trans carried)
  cases callNumbers move unused with
  | still carrying made old =>
    exact listedStill listed (by cases e <;> simp_all [State.apply]) (applyOnce s old) (applyHandles s old) removed
  | given had gets made next => exact next ▸ listedStill listed rfl rfl rfl (next ▸ removed)
  | @placed h l had gets before made inserts =>
    subst inserts
    have other := (placed.names.coming c h ((carryingNow here).trans had)).2
    refine ⟨fun p less => ?_, fun d d' p gone gone' => listed.once d d' p (removed ▸ gone) (removed ▸ gone')⟩
    rw [removed]
    by_cases new : p = s.fresh
    · subst new
      refine .inl ?_
      simp [State.handle, State.apply]
    · have less : p < s.fresh + 1 := less
      have less : p < s.fresh := by omega
      have same : ((s.apply (.insert h l)).objects p).handle = s.handle p := applyNamed s _ less
      refine (listed.kept p less).imp_left fun there => ?_
      show (Function.update s.registry h (some s.fresh)) ((s.apply (.insert h l)).objects p).handle = some p
      rw [same, Function.update_of_ne (other p less)]
      exact there

theorem listedCall {s c k k' e} (counted : Counted s) (placed : Placed s) (severed : Severed s)
    (fate : Fate k) (listed : Listed s) (here : s.calls c = some k) (move : CallMove s k k' e) :
    Listed {s.apply e with calls := Function.update s.calls c (some k')} := by
  by_cases taken : ∃ h, e = .remove h
  · obtain ⟨h, rfl⟩ := taken
    exact listedRemove counted severed fate listed here move
  · exact listedKeep counted placed listed here move fun h same => taken ⟨h, same⟩

theorem listedStep {s a t} (move : Move s a t) (counted : Counted s) (placed : Placed s) (severed : Severed s)
    (fated : Fated s) (listed : Listed s) : Listed t := by
  cases move with
  | @enter c method free =>
    refine listedStill listed rfl rfl rfl ?_
    refine (@removedAfter s _ c ⟨method, .entered, none⟩ rfl).trans (updateKeeps ?_)
    rw [State.removed, free]
    simp only [Call.removed]
    split <;> rfl
  | call here step => exact listedCall counted placed severed (fated _ _ here) listed here step
  | @session a p f aside up =>
    refine listedStill listed rfl rfl (funext fun o => ?_) rfl
    rw [State.handle, editObject]
    split_ifs <;> rfl

theorem listedRun {labels s} (ran : run step init labels = some s) (few : s.issued.length < 2 ^ 64) :
    Listed s := by
  refine runHistory (P := fun _ s => s.issued.length < 2 ^ 64 → Listed s) (fun _ => ?_)
    (fun as s a t before old one few => ?_) ran few
  · refine ⟨fun o less => ?_, fun c d o mine => ?_⟩
    all_goals first | cases less | cases mine
  · have few' := (issuedGrows (moves one)).trans_lt few
    exact listedStep (moves one) (countedRun before) (placedRun before few') (severedRun before)
      (fatedRun before) (old few')

def Aloof (s : State) : Prop :=
  ∀ c k, s.calls c = some k → k.method.makes = true → k.progress.has = none ∧ k.progress.destroys = none

theorem aloofCall {s k k' e} (move : CallMove s k k' e)
    (unused : ∀ h, k.progress.carrying = some h → s.registry h = none) (makes : k.method.makes = true)
    (aloof : k.progress.has = none ∧ k.progress.destroys = none) :
    k'.progress.has = none ∧ k'.progress.destroys = none := by
  obtain ⟨unheld, idle⟩ := aloof
  cases move with
  | begin at_ makes first => rcases first with rfl | rfl | ⟨status, rfl⟩ <;> exact ⟨rfl, rfl⟩
  | invalid at_ method | unknown at_ method | found at_ method =>
    exact absurd (makes.symm.trans (takesHandle method)) (by simp)
  | removed at_ stops =>
    rw [stops] at makes
    cases makes
  | displace at_ present =>
    have free := unused _ (by rw [at_]; rfl)
    rw [present] at free
    cases free
  | settle at_ => rcases at_ with at_ | at_ <;> rw [at_] at unheld <;> cases unheld
  | look at_ | ready at_ | late at_ | last at_ | shared at_ => rw [at_] at unheld; cases unheld
  | drain at_ | shut at_ => rw [at_] at idle; cases idle
  | identify at_ | number at_ | register at_ | finish at_ => exact ⟨rfl, rfl⟩

theorem aloofRun {labels s} (ran : run step init labels = some s) (few : s.issued.length < 2 ^ 64) :
    Aloof s := by
  refine runHistory (P := fun _ s => s.issued.length < 2 ^ 64 → Aloof s) (fun _ c k h => by cases h)
    (fun as s a t before old one few => ?_) ran few
  have few' := (issuedGrows (moves one)).trans_lt few
  have old := old few'
  intro d k1 h makes
  cases moves one with
  | @enter c method free =>
    rcases updateSome h with ⟨-, rfl⟩ | ⟨-, was⟩
    · exact ⟨rfl, rfl⟩
    · exact old d k1 was makes
  | @call c reply k k' e here move =>
    rcases updateSome h with ⟨rfl, rfl⟩ | ⟨-, was⟩
    · have makes : k.method.makes = true := (callFinds move).1 ▸ makes
      exact aloofCall move (fun h carried => carriedFree (countedRun before) (placedRun before few')
        ((carryingNow here).trans carried)) makes (old d k here makes)
    · exact old d k1 (by simpa using was) makes
  | session aside up => exact old d k1 h makes

def State.unlisted (s : State) (h : Handle) : Prop :=
  ∃ c k, s.calls c = some k ∧ k.method = .stop h ∧ k.resolved ≠ none

structure Directory (s : State) : Prop where
  nonzero : ∀ c h, s.made c = some h → h ≠ 0
  distinct : ∀ c d h, s.made c = some h → s.made d = some h → c = d
  listed : ∀ h, s.registry h ≠ none ↔ (∃ c, s.made c = some h) ∧ ¬ s.unlisted h
  stops : ∀ c d k l h, s.calls c = some k → s.calls d = some l → k.method = .stop h → l.method = .stop h →
    k.resolved ≠ none → l.resolved ≠ none → c = d
  answers : ∀ c k a, s.calls c = some k → k.progress = .returned a → k.method.makes = false → k.mayAnswer a
  leads : ∀ c k o, s.calls c = some k → k.resolved = some o → k.method.handle = some (s.handle o)
  uses : ∀ c k o, s.calls c = some k → s.uses c o → k.resolved = some o
  whole : ∀ c o, s.has c = some o → (s.objects o).Whole ∧ ∀ d, s.destroys d ≠ some o
  destroyer : ∀ c d o, s.destroys c = some o → s.destroys d = some o → c = d

theorem usesFound {s c k o} (fated : Fated s) (aloof : Aloof s) (here : s.calls c = some k)
    (uses : s.uses c o) : k.resolved = some o := by
  have fate := fated c k here
  have takes : k.method.makes = false := by
    by_contra makes
    obtain ⟨unheld, idle⟩ := aloof c k here (Bool.not_eq_false _ ▸ makes)
    rcases uses with has | destroys
    · rw [hasNow here, unheld] at has; cases has
    · rw [destroysNow here, idle] at destroys; cases destroys
  rcases uses with has | destroys
  · rw [hasNow here] at has
    unfold Fate at fate
    cases at_ : k.progress with
    | holding p | checking p | awaiting p | releasing p a =>
      rw [at_] at has fate
      cases has
      first | exact fate.2.2 | exact fate.2 takes
    | _ => rw [at_] at has; cases has
  · rw [destroysNow here] at destroys
    unfold Fate at fate
    cases at_ : k.progress with
    | draining p a | shutting p a =>
      rw [at_] at destroys fate
      cases destroys
      exact fate.2 takes
    | _ => rw [at_] at destroys; cases destroys

theorem stopFound {s c k h} (severed : Severed s) (here : s.calls c = some k) (stops : k.method = .stop h)
    (found : k.resolved ≠ none) : ∃ o, s.removed c = some o ∧ o < s.fresh ∧ s.handle o = h := by
  obtain ⟨o, found⟩ := Option.ne_none_iff_exists'.mp found
  obtain ⟨less, named⟩ := severed.found c k o here found
  refine ⟨o, ?_, less, ?_⟩
  · rw [removedNow here, Call.removed, stops]
    exact found
  · rw [stops] at named
    exact (Option.some.inj named).symm

theorem directory {labels s} (ran : run step init labels = some s) (few : s.issued.length < 2 ^ 64) :
    Directory s := by
  have counted := countedRun ran
  have lives := livesRun ran
  have severed := severedRun ran
  have placed := placedRun ran few
  have listed := listedRun ran few
  have fated := fatedRun ran
  refine ⟨fun c h mine => ?_, placed.alone, fun h => ⟨fun there => ?_, fun ⟨⟨c, mine⟩, kept⟩ => ?_⟩,
    fun c d k l h here here' stops stops' found found' => ?_, fun c k a here at_ takes => ?_,
    fun c k o here found => (severed.found c k o here found).2, fun c k o here => usesFound fated (aloofRun ran few) here,
    fun c o has => hasWhole counted lives has,
    fun c d o mine yours => destroyingOnly (lives.life o (lives.inside d o yours)) yours c mine⟩
  · obtain ⟨o, less, rfl⟩ := placed.made c h mine
    have := (issuedNat (numberedRun ran) few (placed.names.known o less)).1
    rintro zero
    rw [zero] at this
    exact absurd this (by decide)
  · obtain ⟨o, there⟩ := Option.ne_none_iff_exists'.mp there
    obtain ⟨less, rfl⟩ := counted.mapped h o there
    refine ⟨placed.maker o less, ?_⟩
    rintro ⟨d, k, here, stops, found⟩
    obtain ⟨p, removed, less', named⟩ := stopFound severed here stops found
    cases placed.names.apart p o less' less named
    exact (removedSevered severed removed).2 there
  · obtain ⟨o, less, rfl⟩ := placed.made c h mine
    rcases listed.kept o less with there | ⟨d, removed⟩
    · rw [there]; simp
    · obtain ⟨k, here, gone⟩ := Option.bind_eq_some_iff.mp removed
      obtain ⟨⟨h, stops⟩, found⟩ := removedStop gone
      have named := (severed.found d k o here found).2
      rw [stops] at named
      have named : h = s.handle o := Option.some.inj named
      exact absurd ⟨d, k, here, named ▸ stops, by simp [found]⟩ kept
  · obtain ⟨o, removed, less, named⟩ := stopFound severed here stops found
    obtain ⟨p, removed', less', named'⟩ := stopFound severed here' stops' found'
    cases placed.names.apart p o less' less (named'.trans named.symm)
    exact listed.once c d _ removed removed'
  · have fate := fated c k here
    simpa [Fate, at_, Call.settled, takes] using fate

def State.rejects (s : State) (c : Nat) (a : Answer) : Prop :=
  ∃ k, s.calls c = some k ∧ k.resolved = none ∧ (k.progress = .returning a ∨ k.progress = .returned a)

theorem rejectsStep {s a t c answer} (move : Move s a t) (rejects : s.rejects c answer) : t.rejects c answer := by
  obtain ⟨k, here, unfound, at_⟩ := rejects
  cases move with
  | @enter d method free =>
    have other : c ≠ d := by
      rintro rfl
      rw [free] at here
      cases here
    exact ⟨k, (Function.update_of_ne other ..).trans here, unfound, at_⟩
  | @call d reply k1 k' e here' step =>
    by_cases other : c = d
    · subst other
      cases here.symm.trans here'
      have last : k' = k.to (.returned answer) := by
        cases step with
        | settle at_' => rcases at_' with at_' | at_' <;> simp [at_'] at at_
        | _ => simp_all
      exact ⟨k', Function.update_self .., by rw [last]; exact unfound, .inr (by rw [last]; rfl)⟩
    · exact ⟨k, (Function.update_of_ne other ..).trans (by simpa using here), unfound, at_⟩
  | session aside up => exact ⟨k, here, unfound, at_⟩

theorem foundStep {s a t c k o} (move : Move s a t) (fated : Fated s) (here : s.calls c = some k)
    (found : k.resolved = some o) : ∃ k', t.calls c = some k' ∧ k'.method = k.method ∧ k'.resolved = some o := by
  have past : k.progress ≠ .entered := fun at_ => by
    have fate := fated c k here
    simp [Fate, at_, found] at fate
  cases move with
  | @enter d method free =>
    have other : c ≠ d := by
      rintro rfl
      rw [free] at here
      cases here
    exact ⟨k, (Function.update_of_ne other ..).trans here, rfl, found⟩
  | @call d reply k1 k' e here' step =>
    by_cases other : c = d
    · subst other
      cases here.symm.trans here'
      refine ⟨k', Function.update_self .., (callFinds step).1, ?_⟩
      cases step with
      | found at_ | removed at_ => exact absurd at_ past
      | _ => exact found
    · exact ⟨k, (Function.update_of_ne other ..).trans (by simpa using here), rfl, found⟩
  | session aside up => exact ⟨k, here, rfl, found⟩

theorem unlistedOn {labels more s t h} (ran : run step init labels = some s) (rest : run step s more = some t)
    (gone : s.unlisted h) : t.unlisted h := by
  refine runContinues (P := fun t => t.unlisted h) (fun as s a t before old one => ?_) ran gone rest
  obtain ⟨c, k, here, stops, found⟩ := old
  obtain ⟨o, found⟩ := Option.ne_none_iff_exists'.mp found
  obtain ⟨k', here', same, found'⟩ := foundStep (moves one) (fatedRun before) here found
  exact ⟨c, k', here', same.trans stops, by simp [found']⟩

theorem issuedOn {labels s t} (rest : run step s labels = some t) : s.issued.length ≤ t.issued.length :=
  runRelates (R := fun s t => s.issued.length ≤ t.issued.length) (fun _ => le_refl _)
    (fun _ _ _ _ old one => old.trans (issuedGrows (moves one))) rest

theorem drainedStep {s a t o} (move : Move s a t) (less : o < s.fresh) (done : (s.objects o).drained = true) :
    o < t.fresh ∧ (t.objects o).drained = true := by
  refine ⟨(moveNamed move less).1, ?_⟩
  cases move with
  | enter => exact done
  | @call c _ k k' e =>
    show ((s.apply e).objects o).drained = true
    cases e with
    | insert h l => exact (congrArg Live.drained (Function.update_of_ne (by omega) ..)).trans done
    | clone p | release p | drain p | shut p => simp only [State.apply, editObject]; split_ifs <;> simp [done]
    | _ => exact done
  | session aside up =>
    rw [editObject]
    split_ifs <;> exact done

theorem looksUp {s k k' e h} (directory : Directory s) (move : CallMove s k k' e) (fate : Fate k)
    (at_ : k.progress = .entered) (method : k.method.handle = some h) (good : k.method.valid = true)
    (nowhere : (∀ c, s.made c ≠ some h) ∨ s.unlisted h) :
    k'.resolved = none ∧ k'.progress = .returning (.status k.method.refusal) := by
  have absent : s.registry h = none := by
    by_contra there
    obtain ⟨⟨c, mine⟩, kept⟩ := (directory.listed h).mp there
    rcases nowhere with unmade | gone
    · exact unmade c mine
    · exact kept gone
  have unfound : k.resolved = none := by simpa only [Fate, at_] using fate
  cases move with
  | begin at_ makes => exact absurd (makes.symm.trans (takesHandle method)) (by simp)
  | invalid at_ method bad => exact absurd (good.symm.trans bad) (by simp)
  | unknown => exact ⟨unfound, rfl⟩
  | found at_ method' looks present =>
    cases method.symm.trans method'
    cases absent.symm.trans present
  | removed at_ stops present =>
    rw [stops] at method
    cases method
    cases absent.symm.trans present
  | settle at_' => rcases at_' with at_' | at_' <;> cases at_.symm.trans at_'
  | identify at_' | number at_' | register at_' | displace at_' | look at_' | ready at_' | late at_' | last at_'
  | shared at_' | drain at_' | shut at_' | finish at_' => cases at_.symm.trans at_'

theorem stopsOne {s k k' e h} (directory : Directory s) (move : CallMove s k k' e)
    (at_ : k.progress = .entered) (stops : k.method = .stop h) (made : ∃ d, s.made d = some h) :
    s.unlisted h ∨ (k'.method = .stop h ∧ k'.resolved ≠ none) := by
  cases present : s.registry h with
  | none =>
    refine .inl (by_contra fun kept => ?_)
    exact (directory.listed h).mpr ⟨made, kept⟩ present
  | some o =>
    refine .inr ⟨(callFinds move).1.trans stops, ?_⟩
    cases move with
    | unknown at_ method good absent =>
      rw [stops] at method
      cases method
      cases present.symm.trans absent
    | invalid at_ method bad => rw [stops] at bad; cases bad
    | begin at_ makes => rw [stops] at makes; cases makes
    | found at_ method looks => exact absurd stops (looks h)
    | removed => simp
    | settle at_' => rcases at_' with at_' | at_' <;> cases at_.symm.trans at_'
    | identify at_' | number at_' | register at_' | displace at_' | look at_' | ready at_' | late at_' | last at_'
    | shared at_' | drain at_' | shut at_' | finish at_' => cases at_.symm.trans at_'

theorem callTaken {s t c reply k} (one : step s (.call c reply) = some t) (here : s.calls c = some k) :
    ∃ k' e, CallMove s k k' e ∧ t = {s.apply e with calls := Function.update s.calls c (some k')} := by
  simp only [step, here, bind, Option.bind_eq_some_iff, Option.some.injEq] at one
  obtain ⟨k1, rfl, ⟨k', e⟩, ran, rfl⟩ := one
  exact ⟨k', e, callMoves ran, rfl⟩

theorem handlesNameOne {labels s} (ran : run step init labels = some s) (few : s.issued.length < 2 ^ 64) :
    Directory s ∧
    (∀ u v c reply k h, Takes step init labels u (.call c reply) v → u.calls c = some k →
      k.progress = .entered → k.method.handle = some h → k.method.valid = true →
      (∀ d, u.made d ≠ some h) ∨ u.unlisted h → s.rejects c (.status k.method.refusal)) ∧
    (∀ u v c reply k h, Takes step init labels u (.call c reply) v → u.calls c = some k →
      k.progress = .entered → k.method = .stop h → (∃ d, u.made d = some h) → s.unlisted h) ∧
    (∀ u v c reply o a, Takes step init labels u (.call c reply) v → u.progress c = some (.draining o a) →
      (u.objects o).drained = false ∧ ∀ d b, s.progress d ≠ some (.draining o b)) := by
  refine ⟨directory ran few, fun u v c reply k h takes here at_ method good nowhere => ?_,
    fun u v c reply k h takes here at_ stops made => ?_, fun u v c reply o a takes now => ?_⟩
  · obtain ⟨before, after, -, first, one, rest⟩ := takesSplit ran takes
    have fewer : u.issued.length < 2 ^ 64 :=
      ((issuedGrows (moves one)).trans (issuedOn rest)).trans_lt few
    obtain ⟨k', e, move, rfl⟩ := callTaken one here
    obtain ⟨unfound, last⟩ := looksUp (directory first fewer) move (fatedRun first c k here) at_ method good nowhere
    refine runKeeps (P := fun t => t.rejects c (.status k.method.refusal))
      (fun _ _ _ old one => rejectsStep (moves one) old) ⟨k', ?_, unfound, .inl last⟩ rest
    exact Function.update_self ..
  · obtain ⟨before, after, -, first, one, rest⟩ := takesSplit ran takes
    have fewer : u.issued.length < 2 ^ 64 :=
      ((issuedGrows (moves one)).trans (issuedOn rest)).trans_lt few
    obtain ⟨k', e, move, same⟩ := callTaken one here
    rcases stopsOne (directory first fewer) move at_ stops made with gone | ⟨stops', found⟩
    · exact unlistedOn first (runCons.mpr ⟨v, one, rest⟩) gone
    · refine unlistedOn (runSnoc.mpr ⟨u, first, one⟩) rest ⟨c, k', ?_, stops', found⟩
      rw [same]
      exact Function.update_self ..
  · obtain ⟨before, after, -, first, one, rest⟩ := takesSplit ran takes
    have lives := livesRun first
    have less := lives.inside c o (by rw [State.destroys, now]; rfl)
    obtain ⟨k, here, at_⟩ := Option.map_eq_some_iff.mp now
    obtain ⟨k', e, move, same⟩ := callTaken one here
    rcases destroyingMine (lives.life o less) now rfl with ⟨-, -, -, whole⟩ | ⟨b, other, -⟩
    · refine ⟨whole.full, fun d b mine => ?_⟩
      have drains : e = .drain o := by cases move <;> simp_all
      have done : o < v.fresh ∧ (v.objects o).drained = true := by
        rw [same, drains]
        refine ⟨less, ?_⟩
        show ((u.apply (.drain o)).objects o).drained = true
        rw [drainObject]
      have still : o < s.fresh ∧ (s.objects o).drained = true :=
        runKeeps (P := fun t => o < t.fresh ∧ (t.objects o).drained = true)
          (fun _ _ _ old one => drainedStep (moves one) old.1 old.2) done rest
      rcases destroyingMine ((livesRun ran).life o still.1) mine rfl with ⟨-, -, -, whole⟩ | ⟨b, other, -⟩
      · exact absurd (still.2.symm.trans whole.full) (by simp)
      · cases other
    · cases other

def stoppedTwice : List Label :=
  stopped ++ [.enter 2 (.stop 1), .call 2 .go, .enter 3 (.poll 1), .call 3 .go]

theorem handlesNameOneTwice : ∃ s, run step init stoppedTwice = some s ∧ Directory s ∧
    s.rejects 2 (.status .notRunning) ∧ s.rejects 3 (.status .unknownHandle) := by
  obtain ⟨s, ran⟩ : ∃ s, run step init stoppedTwice = some s := Option.isSome_iff_exists.mp (by decide +kernel)
  have few : s.issued.length < 2 ^ 64 := by
    have : (run step init stoppedTwice).map (·.issued) = some [1] := by decide +kernel
    rw [ran] at this
    have drawn : s.issued = [1] := Option.some.inj this
    rw [drawn]
    decide
  obtain ⟨sound, -, -, -⟩ := handlesNameOne ran few
  have stopping : (run step init stoppedTwice).bind (·.calls 2) =
      some ⟨.stop 1, .returning (.status .notRunning), none⟩ := by decide +kernel
  have polling : (run step init stoppedTwice).bind (·.calls 3) =
      some ⟨.poll 1, .returning (.status .unknownHandle), none⟩ := by decide +kernel
  rw [ran] at stopping polling
  exact ⟨s, ran, sound, ⟨_, stopping, rfl, .inl rfl⟩, ⟨_, polling, rfl, .inl rfl⟩⟩

end RkQuic.Registry
