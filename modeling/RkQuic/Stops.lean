import RkQuic.References

/-! What becomes of a call, and what a stop has freed when it returns. -/
namespace RkQuic.Registry
open Runs Naming

def Call.mayAnswer (k : Call) (a : Answer) : Prop :=
  match k.resolved with
  | none => a = .status k.method.refusal ∨ (k.method.valid = false ∧ a = .status .invalidArgument)
  | some _ => (∃ h, k.method = .stop h) ∧ a = .status .ok ∨
      (∀ h, k.method ≠ .stop h) ∧ a ≠ .status .notRunning

def Call.settled (k : Call) (a : Answer) : Prop :=
  if k.method.makes then k.resolved = none else k.mayAnswer a

def Fate (k : Call) : Prop :=
  match k.progress with
  | .entered => k.resolved = none
  | .identifying | .numbering _ | .registering _ _ => k.method.makes = true ∧ k.resolved = none
  | .holding o | .checking o | .awaiting o =>
    k.method.makes = false ∧ (∀ h, k.method ≠ .stop h) ∧ k.resolved = some o
  | .releasing o a | .draining o a | .shutting o a =>
    k.settled a ∧ (k.method.makes = false → k.resolved = some o)
  | .returning a | .returned a => k.settled a

theorem takesHandle {m : Method} {h} (method : m.handle = some h) : m.makes = false := by
  cases m <;> first | rfl | cases method

theorem settledRefusal {k : Call} {h} (method : k.method.handle = some h) (none_ : k.resolved = none)
    {status} (why : status = k.method.refusal ∨ (k.method.valid = false ∧ status = .invalidArgument)) :
    k.settled (.status status) := by
  simp only [Call.settled, takesHandle method, Call.mayAnswer, none_]
  rcases why with rfl | ⟨bad, rfl⟩
  · exact .inl rfl
  · exact .inr ⟨bad, rfl⟩

theorem fateMove {s k k' e} (move : CallMove s k k' e)
    (up : ∀ o, k.progress.has = some o → (s.objects o).runtime = true) (fate : Fate k) : Fate k' := by
  cases move with
  | begin at_ makes first =>
    simp only [Fate, at_] at fate
    rcases first with rfl | rfl | ⟨status, rfl⟩
    · exact ⟨makes, fate⟩
    · exact ⟨makes, fate⟩
    · show Call.settled _ _
      simp only [Call.settled, Call.to, makes, fate, if_true]
  | invalid at_ method bad =>
    simp only [Fate, at_] at fate
    exact settledRefusal (k := k.answer .invalidArgument) method fate (.inr ⟨bad, rfl⟩)
  | unknown at_ method good absent =>
    simp only [Fate, at_] at fate
    exact settledRefusal (k := k.answer k.method.refusal) method fate (.inl rfl)
  | found at_ method looks present => exact ⟨takesHandle method, looks, rfl⟩
  | @removed h o at_ stops present =>
    refine ⟨?_, fun _ => rfl⟩
    simp only [Call.settled, Call.mayAnswer, stops]
    exact .inl ⟨⟨h, rfl⟩, trivial⟩
  | identify at_ | number at_ =>
    simp only [Fate, at_] at fate
    exact fate
  | register at_ absent =>
    simp only [Fate, at_] at fate
    show Call.settled _ _
    simp only [Call.settled, Call.to, fate.1, fate.2, if_true]
  | displace at_ present =>
    simp only [Fate, at_] at fate
    refine ⟨?_, fun takes => absurd (fate.1.symm.trans takes) (by simp)⟩
    simp only [Call.settled, Call.to, fate.1, fate.2, if_true]
  | look at_ | ready at_ up =>
    simp only [Fate, at_] at fate
    exact fate
  | late at_ down =>
    -- a call with a reference never finds the runtime taken
    have running := up _ (by rw [at_]; rfl)
    rw [down] at running
    cases running
  | @settle o a at_ running unnamed =>
    have had : k.method.makes = false ∧ (∀ h, k.method ≠ .stop h) ∧ k.resolved = some o := by
      rcases at_ with at_ | at_ <;> simpa only [Fate, at_] using fate
    obtain ⟨takes, looks, found⟩ := had
    refine ⟨?_, fun _ => found⟩
    simp only [Call.settled, Call.to, takes, Call.mayAnswer, found]
    exact .inr ⟨looks, running⟩
  | last at_ only | drain at_ =>
    simp only [Fate, at_] at fate
    exact fate
  | shared at_ others | shut at_ =>
    simp only [Fate, at_] at fate
    exact fate.1
  | finish at_ =>
    simp only [Fate, at_] at fate
    exact fate

def Fated (s : State) : Prop := ∀ c k, s.calls c = some k → Fate k

theorem fatedStep {s a t} (move : Move s a t) (counted : Counted s) (lives : Lives s) (fated : Fated s) :
    Fated t := by
  intro d k1 h
  cases move with
  | @enter c method free =>
    rcases updateSome h with ⟨-, rfl⟩ | ⟨-, old⟩
    · exact rfl
    · exact fated d k1 old
  | @call c reply k k' e here step =>
    rcases updateSome h with ⟨rfl, rfl⟩ | ⟨-, old⟩
    · refine fateMove step (fun o has => ?_) (fated d k here)
      exact (hasWhole counted lives ((hasNow here).trans has)).1.up
    · exact fated d k1 (by simpa using old)
  | session aside up => exact fated d k1 h

theorem fatedRun {labels s} (ran : run step init labels = some s) : Fated s := by
  refine runHistory (P := fun _ s => Fated s) (fun c k h => ?_)
    (fun _ _ _ _ before old one => fatedStep (moves one) (countedRun before) (livesRun before) old) ran
  cases h

theorem applyNamed (s : State) (e : Effect) {o : Nat} (less : o < s.fresh) :
    ((s.apply e).objects o).handle = (s.objects o).handle := by
  by_cases inserts : ∃ h l, e = .insert h l
  · obtain ⟨h, l, rfl⟩ := inserts
    exact congrArg Live.handle (Function.update_of_ne (by omega) ..)
  · exact applyHandle s fun h l same => inserts ⟨h, l, same⟩

theorem moveNamed {s a t} {o : Nat} (move : Move s a t) (less : o < s.fresh) :
    o < t.fresh ∧ (t.objects o).handle = (s.objects o).handle := by
  cases move with
  | enter => exact ⟨less, rfl⟩
  | @call c _ k k' e => exact ⟨less.trans_le (applyFresh s e), applyNamed s e less⟩
  | session aside up =>
    refine ⟨less, ?_⟩
    rw [editObject]
    split_ifs <;> rfl

theorem moveRegistry {s a t} {h : Handle} {o : Nat} (move : Move s a t) (there : t.registry h = some o) :
    s.registry h = some o ∨ o = s.fresh := by
  cases move with
  | enter | session => exact .inl there
  | @call c _ k k' e =>
    change (s.apply e).registry h = some o at there
    cases e with
    | insert g l => rcases updateSome there with ⟨-, rfl⟩ | ⟨-, old⟩ <;> simp [*]
    | remove g => exact .inl (updateNone there).2
    | _ => exact .inl there

inductive Finds (s : State) (k k' : Call) (e : Effect) : Prop where
  | before (same : k'.resolved = k.resolved)
  | looked {h o} (method : k.method.handle = some h) (looks : ∀ h, k.method ≠ .stop h)
      (present : s.registry h = some o) (finds : k'.resolved = some o)
  | removed {h o} (stops : k.method = .stop h) (present : s.registry h = some o)
      (finds : k'.resolved = some o) (removes : e = .remove h)

theorem callFinds {s k k' e} (move : CallMove s k k' e) : k'.method = k.method ∧ Finds s k k' e := by
  cases move with
  | found at_ method looks present => exact ⟨rfl, .looked method looks present rfl⟩
  | removed at_ stops present => exact ⟨rfl, .removed stops present rfl rfl⟩
  | _ => exact ⟨rfl, .before rfl⟩

structure Severed (s : State) : Prop where
  found : ∀ c k o, s.calls c = some k → k.resolved = some o →
    o < s.fresh ∧ k.method.handle = some (s.objects o).handle
  stopped : ∀ c k h o, s.calls c = some k → k.method = .stop h → k.resolved = some o → s.registry h ≠ some o

theorem severedCall {s c k k' e} (counted : Counted s) (severed : Severed s) (here : s.calls c = some k)
    (move : CallMove s k k' e) (moved : Move s (.call c .go) {s.apply e with calls := Function.update s.calls c (some k')}) :
    Severed {s.apply e with calls := Function.update s.calls c (some k')} := by
  obtain ⟨same, finds⟩ := callFinds move
  refine ⟨fun d k1 o h found => ?_, fun d k1 g o h stops found there => ?_⟩
  · have earlier : o < s.fresh ∧ k1.method.handle = some (s.objects o).handle := by
      rcases updateSome h with ⟨rfl, rfl⟩ | ⟨-, old⟩
      · rw [same]
        cases finds with
        | before keeps => exact severed.found d k o here (keeps ▸ found)
        | looked method looks present finds =>
          cases finds.symm.trans found
          obtain ⟨less, named⟩ := counted.mapped _ o present
          exact ⟨less, named ▸ method⟩
        | removed stops present finds =>
          cases finds.symm.trans found
          obtain ⟨less, named⟩ := counted.mapped _ o present
          exact ⟨less, by rw [named, stops]; rfl⟩
      · exact severed.found d k1 o old found
    obtain ⟨less, named⟩ := moveNamed moved earlier.1
    exact ⟨less, named ▸ earlier.2⟩
  · rcases updateSome h with ⟨rfl, rfl⟩ | ⟨-, old⟩
    · rw [same] at stops
      cases finds with
      | before keeps =>
        have found := keeps ▸ found
        rcases moveRegistry moved there with was | rfl
        · exact severed.stopped d k g o here stops found was
        · exact absurd (severed.found d k _ here found).1 (lt_irrefl _)
      | looked method looks => exact looks g stops
      | @removed g' _ stops' present finds removes =>
        cases stops.symm.trans stops'
        subst removes
        have gone : (s.apply (.remove g)).registry g = none := Function.update_self ..
        cases gone.symm.trans there
    · rcases moveRegistry moved there with was | rfl
      · exact severed.stopped d k1 g o old stops found was
      · exact absurd (severed.found d k1 _ old found).1 (lt_irrefl _)

theorem severedStep {s a t} (move : Move s a t) (counted : Counted s) (severed : Severed s) : Severed t := by
  cases move with
  | @enter c method free =>
    refine ⟨fun d k o h found => ?_, fun d k g o h stops found => ?_⟩ <;>
      rcases updateSome h with ⟨rfl, rfl⟩ | ⟨-, old⟩
    · cases found
    · exact severed.found d k o old found
    · cases found
    · exact severed.stopped d k g o old stops found
  | call here step => exact severedCall counted severed here step (.call here step)
  | @session a p f aside up =>
    refine ⟨fun d k o h found => ?_, severed.stopped⟩
    obtain ⟨less, named⟩ := severed.found d k o h found
    refine ⟨less, named.trans ?_⟩
    rw [editObject]
    split_ifs <;> rfl

theorem severedRun {labels s} (ran : run step init labels = some s) : Severed s := by
  refine runHistory (P := fun _ s => Severed s) ⟨fun c k o h => ?_, fun c k h o here => ?_⟩
    (fun _ _ _ _ before old one => severedStep (moves one) (countedRun before) old) ran
  · cases h
  · cases here

/-- The call is between its lookup of the endpoint and its return: it has a reference,
or runs the destructor. -/
def State.uses (s : State) (c o : Nat) : Prop := s.has c = some o ∨ s.destroys c = some o

theorem freedUnused {s o} (counted : Counted s) (lives : Lives s) (less : o < s.fresh)
    (gone : s.registry (s.objects o).handle ≠ some o) (unused : ∀ c, ¬ s.uses c o) : (s.objects o).Freed := by
  have unowned : owned s.entered s.has o = 0 := ownedNone.mpr fun c _ has => unused c (.inl has)
  have count := counted.count o less
  rw [unowned, if_neg gone] at count
  cases lives.life o less with
  | alive owners => omega
  | @draining d a unheld whole there only =>
    exact absurd (.inr (by rw [State.destroys, there]; rfl)) (unused d)
  | @shutting d a unheld up done there only =>
    exact absurd (.inr (by rw [State.destroys, there]; rfl)) (unused d)
  | gone freed nobody => exact freed

theorem unusedFreed {s o} (counted : Counted s) (lives : Lives s) (less : o < s.fresh)
    (freed : (s.objects o).Freed) (c : Nat) : ¬ s.uses c o := by
  rintro (has | destroys)
  · have := hasCounts counted has
    have := freed.unheld
    omega
  · cases lives.life o less with
    | alive owners => have := freed.unheld; omega
    | draining unheld whole => exact absurd (whole.up.symm.trans freed.down) (by simp)
    | shutting unheld up => exact absurd (up.symm.trans freed.down) (by simp)
    | gone _ nobody => exact nobody c destroys

theorem stopFrees {labels u v c k h} (ran : run step init labels = some u) (here : u.calls c = some k)
    (stops : k.method = .stop h) (answers : k.progress = .returning (.status .ok))
    (one : step u (.call c .go) = some v) :
    ∃ o, k.resolved = some o ∧ (u.objects o).handle = h ∧ u.registry h ≠ some o ∧
      ((v.objects o).Freed ↔ ∀ d, d ≠ c → ¬ u.uses d o) := by
  have fate := fatedRun ran c k here
  have severed := severedRun ran
  have counted := countedRun ran
  have lives := livesRun ran
  obtain ⟨o, found⟩ : ∃ o, k.resolved = some o := by
    simp only [Fate, answers, Call.settled, stops, Call.mayAnswer] at fate
    cases found : k.resolved with
    | none => simp [found, Method.makes, Method.refusal, Method.valid] at fate
    | some o => exact ⟨o, rfl⟩
  obtain ⟨less, named⟩ := severed.found c k o here found
  have named : (u.objects o).handle = h := by
    rw [stops] at named
    exact (Option.some.inj named).symm
  have gone := severed.stopped c k h o here stops found
  have same : v.objects o = u.objects o := by
    cases moves one with
    | call here' move =>
      cases here.symm.trans here'
      cases move <;> simp_all [State.apply]
    | session aside => exact absurd rfl (aside c .go)
  have idle : ¬ u.uses c o := by
    rintro (has | destroys)
    · rw [hasNow here, answers] at has; cases has
    · rw [destroysNow here, answers] at destroys; cases destroys
  refine ⟨o, found, named, gone, ?_⟩
  rw [same]
  refine ⟨fun freed d _ => unusedFreed counted lives less freed d, fun unused => ?_⟩
  refine freedUnused counted lives less (named ▸ gone) fun d => ?_
  by_cases self : d = c
  · exact self ▸ idle
  · exact unused d self

def stopped : List Label :=
  [.enter 0 .start, .call 0 .built, .call 0 .go, .call 0 .go, .call 0 .go,
    .enter 1 (.stop 1), .call 1 .go, .call 1 .go, .call 1 .go, .call 1 .go]

def stoppedPolling : List Label :=
  [.enter 0 .start, .call 0 .built, .call 0 .go, .call 0 .go, .call 0 .go,
    .enter 2 (.poll 1), .call 2 .go, .enter 1 (.stop 1), .call 1 .go, .call 1 .go]

theorem stopFreesAlone : ∃ u v k o, run step init stopped = some u ∧ u.calls 1 = some k ∧
    step u (.call 1 .go) = some v ∧ k.resolved = some o ∧ (v.objects o).Freed ∧ ∀ d, d ≠ 1 → ¬ u.uses d o := by
  obtain ⟨v, ran⟩ : ∃ v, run step init (stopped ++ [.call 1 .go]) = some v :=
    Option.isSome_iff_exists.mp (by decide +kernel)
  obtain ⟨u, before, one⟩ := runSnoc.mp ran
  have here : u.calls 1 = some ⟨.stop 1, .returning (.status .ok), some 0⟩ := by
    have : (run step init stopped).bind (·.calls 1) = some ⟨.stop 1, .returning (.status .ok), some 0⟩ := by
      decide +kernel
    rwa [before] at this
  have freed : (v.objects 0).Freed := by
    have : (run step init (stopped ++ [.call 1 .go])).map (fun v =>
        ((v.objects 0).drained, (v.objects 0).runtime, (v.objects 0).count)) = some (true, false, 0) := by
      decide +kernel
    rw [ran] at this
    obtain ⟨drained, same⟩ := Prod.mk.inj (Option.some.inj this)
    obtain ⟨down, unheld⟩ := Prod.mk.inj same
    exact ⟨drained, down, unheld⟩
  obtain ⟨o, found, -, -, frees⟩ := stopFrees before here rfl rfl one
  cases found
  exact ⟨u, v, _, 0, before, here, one, rfl, freed, frees.mp freed⟩

theorem stopReturnsEarly : ∃ labels u v k o, run step init labels = some u ∧ u.calls 1 = some k ∧
    k.method = .stop 1 ∧ k.progress = .returning (.status .ok) ∧ k.resolved = some o ∧
    step u (.call 1 .go) = some v ∧ ¬ (v.objects o).Freed ∧ v.has 2 = some o := by
  obtain ⟨v, ran⟩ : ∃ v, run step init (stoppedPolling ++ [.call 1 .go]) = some v :=
    Option.isSome_iff_exists.mp (by decide +kernel)
  obtain ⟨u, before, one⟩ := runSnoc.mp ran
  have here : u.calls 1 = some ⟨.stop 1, .returning (.status .ok), some 0⟩ := by
    have : (run step init stoppedPolling).bind (·.calls 1) = some ⟨.stop 1, .returning (.status .ok), some 0⟩ := by
      decide +kernel
    rwa [before] at this
  have up : (v.objects 0).runtime = true := by
    have : (run step init (stoppedPolling ++ [.call 1 .go])).map (fun v => (v.objects 0).runtime) = some true := by
      decide +kernel
    rw [ran] at this
    exact Option.some.inj this
  have polls : v.has 2 = some 0 := by
    have : (run step init (stoppedPolling ++ [.call 1 .go])).bind (·.has 2) = some 0 := by decide +kernel
    rwa [ran] at this
  refine ⟨stoppedPolling, u, v, _, 0, before, here, rfl, rfl, rfl, one, fun freed => ?_, polls⟩
  exact absurd (up.symm.trans freed.down) (by simp)

end RkQuic.Registry
