import RkQuic.Commands

/-! What waits behind a native call that waits for its peer. -/
namespace RkQuic.Commands
open Runs

def Blocked (a : SessionId) (s : State) : Prop := ∃ e, s.busy = some (e, true) ∧ e.command.session = some a

def Without (a : SessionId) (labels : List Label) : Prop := ∀ label ∈ labels, label ≠ .peer a

def State.sent (s : State) : List Envelope := s.issued.filterMap Issue.envelope

def CarriedOut (a : SessionId) (s : State) (e : Envelope) : Prop :=
  ∃ labels t, Without a labels ∧ run step s labels = some t ∧ ∃ reply, (e, reply) ∈ t.returned

def Unimpeded (a : SessionId) (s : State) : Prop :=
  ∀ e ∈ s.sent, e.command.session ≠ some a → CarriedOut a s e

def Stoppable (a : SessionId) (s : State) : Prop := ∃ e, e.command = .stop ∧ CarriedOut a s e

theorem blockedStep {a : SessionId} {e : Envelope} {s t : State} {label : Label} (here : s.busy = some (e, true))
    (mine : e.command.session = some a) (one : step s label = some t) (other : label ≠ .peer a) :
    t.busy = some (e, true) ∧ t.returned = s.returned := by
  cases label with
  | issue command =>
    cases Option.some.inj one
    unfold issue
    split <;> exact ⟨here, rfl⟩
  | take | answer =>
    simp only [step, here] at one
    cases one
  | peer session =>
    have apart : e.command.session ≠ some session := by
      rw [mine]
      rintro same
      exact other (congrArg Label.peer (Option.some.inj same).symm)
    simp only [step, here, if_neg apart] at one
    cases one
    exact ⟨here, rfl⟩
  | deliver =>
    simp only [step] at one
    split at one <;> cases one
    exact ⟨here, rfl⟩
  | microtask =>
    simp only [step] at one
    split at one <;> cases one
    · unfold resume
      split <;> exact ⟨here, rfl⟩
    · exact ⟨here, rfl⟩
  | cancelled =>
    simp only [step] at one
    split at one <;> cases one
    exact ⟨here, rfl⟩

theorem blockedRun {a : SessionId} {e : Envelope} {s t : State} {labels : List Label} (here : s.busy = some (e, true))
    (mine : e.command.session = some a) (ran : run step s labels = some t) (without : Without a labels) :
    t.returned = s.returned := by
  induction labels generalizing s with
  | nil => cases Option.some.inj ran; rfl
  | cons label labels ih =>
    obtain ⟨u, one, rest⟩ := runCons.mp ran
    obtain ⟨still, same⟩ := blockedStep here mine one (without label List.mem_cons_self)
    rw [ih still rest fun l h => without l (List.mem_cons_of_mem _ h), same]

theorem carriedReturned {a : SessionId} {s : State} {e : Envelope} (blocked : Blocked a s) :
    CarriedOut a s e ↔ ∃ reply, (e, reply) ∈ s.returned := by
  obtain ⟨b, here, mine⟩ := blocked
  constructor
  · rintro ⟨labels, t, without, ran, reply, returned⟩
    rw [blockedRun here mine ran without] at returned
    exact ⟨reply, returned⟩
  · rintro ⟨reply, returned⟩
    exact ⟨[], s, fun _ h => absurd h List.not_mem_nil, rfl, reply, returned⟩

section Blocked
variable {a : SessionId} {s : State} {sent : List Envelope} {refused : List Command}

theorem sentOnce (pipeline : Pipeline sent refused s) : sent.Nodup := by
  refine List.Nodup.of_map Envelope.id ?_
  rw [pipeline.ids]
  exact List.nodup_range'

theorem unimpededIff (pipeline : Pipeline sent refused s) (blocked : Blocked a s) :
    Unimpeded a s ↔ ∀ e ∈ s.inbox, e.command.session = some a := by
  have worked := pipeline.worked
  have once := sentOnce pipeline
  rw [← worked, List.append_assoc] at once
  simp only [Unimpeded, carriedReturned blocked, State.sent, envelopesSent pipeline, ← worked]
  constructor
  · intro free e waiting
    by_contra other
    obtain ⟨reply, returned⟩ := free e (List.mem_append_right _ waiting) other
    exact (List.nodup_append.mp once).2.2 e (List.mem_map.mpr ⟨_, returned, rfl⟩) e
      (List.mem_append_right _ waiting) rfl
  · intro mine e member other
    rcases List.mem_append.mp member with before | waiting
    · rcases List.mem_append.mp before with done | working
      · obtain ⟨⟨_, reply⟩, returned, rfl⟩ := List.mem_map.mp done
        exact ⟨reply, returned⟩
      · obtain ⟨b, here, session⟩ := blocked
        rw [State.working, here] at working
        cases List.mem_singleton.mp working
        exact absurd session other
    · exact absurd (mine e waiting) other

theorem notStoppable (pipeline : Pipeline sent refused s) (blocked : Blocked a s) : ¬ Stoppable a s := by
  rintro ⟨e, stops, carried⟩
  obtain ⟨reply, returned⟩ := (carriedReturned blocked).mp carried
  obtain ⟨b, here, -⟩ := blocked
  have worked := pipeline.worked
  rw [State.working, here] at worked
  -- the stop has the last id of all, and what has returned has the ids before that of the call
  have asked : e ∈ sent := by
    rw [← worked, List.append_assoc]
    exact List.mem_append_left _ (List.mem_map.mpr ⟨_, returned, rfl⟩)
  have last := (pipeline.last e.id (pipeline.once e asked stops)).1
  have begins : (s.returned.map Prod.fst).map Envelope.id <+: List.range' 1 sent.length := by
    rw [← pipeline.ids]
    refine List.IsPrefix.map _ ⟨(some b).toList ++ s.inbox, ?_⟩
    rw [← List.append_assoc]
    exact worked
  have early : e.id ∈ (s.returned.map Prod.fst).map Envelope.id :=
    List.mem_map.mpr ⟨e, List.mem_map.mpr ⟨_, returned, rfl⟩, rfl⟩
  rw [prefixRange begins, List.mem_range'_1, List.length_map, List.length_map] at early
  have length := congrArg List.length worked
  simp only [List.length_append, List.length_map, Option.map_some, Option.toList_some, List.length_singleton] at length
  omega

end Blocked

theorem commandsHeldUp {labels : List Label} {s : State} (ran : run step init labels = some s) {a : SessionId}
    (blocked : Blocked a s) :
    ¬ (Unimpeded a s ∧ Stoppable a s) ∧ ¬ Stoppable a s ∧
      (Unimpeded a s ↔ ∀ e ∈ s.inbox, e.command.session = some a) := by
  obtain ⟨sent, refused, pipeline⟩ := pipelineRun ran
  have never := notStoppable pipeline blocked
  exact ⟨fun both => never both.2, never, unimpededIff pipeline blocked⟩

def stalled : List Label :=
  [.issue (.streamSend 1 4 "a"), .issue (.send 2 "b" true), .issue .stop, .take true]

def stalledState : State :=
  ⟨⟨4, [1, 2, 3], true, []⟩, some 3, none, [], [⟨2, .send 2 "b" true⟩, ⟨3, .stop⟩], some (⟨1, .streamSend 1 4 "a"⟩, true),
    [], [⟨.streamSend 1 4 "a", some 1⟩, ⟨.send 2 "b" true, some 2⟩, ⟨.stop, some 3⟩], [⟨1, .streamSend 1 4 "a"⟩], [], []⟩

theorem stalledRan : run step init stalled = some stalledState := by decide +kernel

theorem commandsHeldUpStalled : ¬ Stoppable 1 stalledState :=
  (commandsHeldUp stalledRan ⟨_, rfl, rfl⟩).2.1

theorem slowPeerHoldsUp : ∃ s, run step init stalled = some s ∧ Blocked 1 s ∧ ¬ Unimpeded 1 s ∧ ¬ Stoppable 1 s := by
  have blocked : Blocked 1 stalledState := ⟨_, rfl, rfl⟩
  have pipeline := pipelineRun stalledRan
  obtain ⟨sent, refused, pipeline⟩ := pipeline
  refine ⟨stalledState, stalledRan, blocked, fun free => ?_, notStoppable pipeline blocked⟩
  have mine := (unimpededIff pipeline blocked).mp free ⟨2, .send 2 "b" true⟩ (by decide)
  cases mine

end RkQuic.Commands
