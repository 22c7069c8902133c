import RkQuic.Lines

/-! What has arrived on a session's unidirectional streams by its end, and what of it has been
reported. The loop returns the error of whichever branch it takes, and what the other
branches still hold is lost with it. -/
namespace RkQuic.Endpoint
open Runs Naming

def Arriving.whole (a : Arriving) : Option String := if a.tail = .fin then Utf8.decode a.bytes else none

def texts (id : SessionId) (unis : List Arriving) : List (SessionId × String) :=
  (unis.filterMap Arriving.whole).map (Prod.mk id)

def Event.message : Event → Option (SessionId × String)
  | .streamMessage id text => some (id, text)
  | _ => none

def Signal.ofTask (r : Nat) : Signal → Bool
  | .serves q _ => q = r
  | .moves (.task q _) => q = r
  | _ => false

def Wired.report (pick : Event → Option (SessionId × String)) (role : Role) (r : Nat) (w : Wired) (a : Signal) :
    Option (SessionId × String) :=
  if a.ofTask r then
    (w.step role a).bind fun v => (v.endpoint.emitted.drop w.endpoint.emitted.length).findSome? pick
  else none

def reports (pick : Event → Option (SessionId × String)) (role : Role) (r : Nat) (labels : List Signal) :
    List (SessionId × String) :=
  noted (Wired.step role) (Wired.report pick role r) (Wired.init role) labels

def messages (role : Role) (r : Nat) (labels : List Signal) : List (SessionId × String) :=
  reports Event.message role r labels

/- The endpoint at the other end of a session; `signals` is history, what has happened there. -/
structure FarEnd where
  peer : Wired
  signals : List Signal

def FarEnd.init (role : Role) : FarEnd := ⟨Wired.init role, []⟩

def FarEnd.hears (role : Role) (f : FarEnd) (a : Signal) : Option FarEnd :=
  (f.peer.step role a).map fun w => ⟨w, f.signals ++ [a]⟩

def FarEnd.Ran (role : Role) (f : FarEnd) : Prop := run (Wired.step role) (Wired.init role) f.signals = some f.peer

def Phase.left : Phase → Option Session
  | .forgetting se _ | .purging se _ | .closing se _ | .closed se _ => some se
  | _ => none

def Phase.idle : Phase → Option Session
  | .serving _ (.readingUni _) => none
  | .serving se _ | .forgetting se _ | .purging se _ | .closing se _ | .closed se _ => some se
  | _ => none

def Line.settled (l : Line) (n : Nat) : Prop :=
  n ≤ l.unis.length ∧ ∀ j < n, ∀ a, l.unis[j]? = some a → a.tail ≠ .pending ∨ l.ended ≠ none

inductive Accounted (said : List (SessionId × String)) (l : Line) : Option Phase → Prop where
  | early {p} (early : ∀ q, p = some q → q.idle = none ∧ ∀ se loop, q ≠ .serving se loop) (taken : l.taken = 0)
      (none : said = []) : Accounted said l p
  | reading {se buffer k a} (taken : l.taken = k + 1) (here : l.unis[k]? = some a) (sofar : buffer <+: a.bytes)
      (settled : l.settled k) (told : said = texts se.id (l.unis.take k)) :
      Accounted said l (some (.serving se (.readingUni buffer)))
  | idle {p se} (idle : p.idle = some se) (settled : l.settled l.taken) (told : said = texts se.id (l.unis.take l.taken))
      (ended : p.left ≠ none → l.ended ≠ none) : Accounted said l (some p)

theorem grownTake {l l' : Line} {n : Nat} (open_ : l.ended = none) (grown : Grown l.unis l'.unis)
    (settled : l.settled n) : l'.settled n ∧ l'.unis.take n = l.unis.take n := by
  obtain ⟨inside, done⟩ := settled
  have same : ∀ j < n, l'.unis[j]? = l.unis[j]? := by
    intro j less
    obtain ⟨a, here⟩ : ∃ a, l.unis[j]? = some a := ⟨_, List.getElem?_eq_getElem (by omega)⟩
    obtain ⟨b, there, -, kept⟩ := grown.each j a here
    rcases done j less a here with over_ | ended
    · rw [there, here, kept over_]
    · exact absurd open_ ended
  refine ⟨⟨inside.trans grown.longer, fun j less a here => ?_⟩, ?_⟩
  · rcases done j less a (same j less ▸ here) with over_ | ended
    · exact .inl over_
    · exact absurd open_ ended
  · refine List.ext_getElem? fun j => ?_
    simp only [List.getElem?_take]
    split
    · exact same j (by assumption)
    · rfl

theorem takeNext {us : List Arriving} {k : Nat} {a : Arriving} (here : us[k]? = some a) (id : SessionId) :
    texts id (us.take (k + 1)) = texts id (us.take k) ++ (a.whole.map (Prod.mk id)).toList := by
  rw [List.take_add_one, here, texts, List.filterMap_append, List.map_append]
  cases whole : a.whole <;> simp [texts, whole]

theorem settledNext {l : Line} {k : Nat} {a : Arriving} (settled : l.settled k) (here : l.unis[k]? = some a)
    (done : a.tail ≠ .pending ∨ l.ended ≠ none) : l.settled (k + 1) := by
  refine ⟨(List.getElem?_eq_some_iff.mp here).1, fun j less b there => ?_⟩
  rcases Nat.lt_succ_iff_lt_or_eq.mp less with before | rfl
  · exact settled.2 j before b there
  · cases here.symm.trans there
    exact done

theorem accountedNews {said : List (SessionId × String)} {l l' : Line} {news : News} {p : Option Phase}
    (got : l.receive news = some l') (old : Accounted said l p) : Accounted said l' p := by
  obtain ⟨open_, grown, taken⟩ := receiveGrows got
  cases old with
  | early early none_ nothing => exact .early early (taken.trans none_) nothing
  | reading k here sofar was told =>
    obtain ⟨b, there, longer, -⟩ := grown.each _ _ here
    obtain ⟨settled, same⟩ := grownTake open_ grown was
    exact .reading (taken.trans k) there (sofar.trans longer) settled (by rw [same]; exact told)
  | idle idle was told ended =>
    obtain ⟨settled, same⟩ := grownTake open_ grown was
    refine .idle idle (taken ▸ settled) (by rw [taken, same]; exact told) fun left => absurd open_ (ended left)

/-! One step of a task in its loop. -/

theorem idleServing {se : Session} {loop : Loop} (idle : ∀ buffer, loop ≠ .readingUni buffer) :
    (Phase.serving se loop).idle = some se := by
  cases loop with
  | readingUni buffer => exact absurd rfl (idle buffer)
  | _ => rfl

def Effect.picks (pick : Event → Option (SessionId × String)) (e : Effect) : List (SessionId × String) :=
  (e.events.findSome? pick).toList

abbrev Effect.message (e : Effect) : List (SessionId × String) := e.picks Event.message

theorem selectAccounts {said se l l' turn input fresh loop' e} (old : Accounted said l (some (.serving se .selecting)))
    (gives : l.select turn = some (input, l')) (ran : sessionLoop se.id fresh .selecting input = some (loop', e)) :
    Accounted (said ++ e.message) l' (some (.serving se loop')) := by
  obtain ⟨unis, ended, kind⟩ := selectGives gives
  cases old with
  | early early => exact absurd rfl ((early _ rfl).2 se .selecting)
  | @idle _ _ idle settled told left =>
    cases idle
    rcases kind with ⟨rfl, taken, less⟩ | ⟨other, taken, -⟩
    · cases ran
      have nothing : said ++ Effect.none.message = said := List.append_nil _
      rw [nothing]
      refine .reading taken (by rw [unis]; exact List.getElem?_eq_getElem less) List.nil_prefix ?_ (unis ▸ told)
      rw [Line.settled, unis, ended]
      exact settled
    · have still : (∀ buffer, loop' ≠ .readingUni buffer) ∧ e.message = [] := by
        cases loopMoves ran with
        | uni => exact absurd rfl other
        | datagram | skip | bi => exact ⟨by simp, rfl⟩
      rw [still.2, List.append_nil]
      exact .idle (idleServing still.1) (by rw [Line.settled, unis, ended, taken]; exact settled)
        (by rw [unis, taken]; exact told) (absurd rfl)

theorem readAccounts {said se l buffer turn input fresh loop' e}
    (old : Accounted said l (some (.serving se (.readingUni buffer)))) (gives : l.read buffer turn = some input)
    (ran : sessionLoop se.id fresh (.readingUni buffer) input = some (loop', e)) :
    Accounted (said ++ e.message) l (some (.serving se loop')) := by
  obtain ⟨a, at_, kind⟩ := readGives gives
  cases old with
  | early early => exact absurd rfl ((early _ rfl).2 se _)
  | idle idle => cases idle
  | @reading _ _ k b taken here sofar settled told =>
    rw [taken, Nat.add_sub_cancel] at at_
    cases here.symm.trans at_
    have ends : (a.tail ≠ .pending ∨ l.ended ≠ none) → e.message = (a.whole.map (Prod.mk se.id)).toList →
        loop' = .selecting → Accounted (said ++ e.message) l (some (.serving se loop')) := by
      rintro done same rfl
      refine .idle rfl (taken ▸ settledNext settled here done) ?_ (absurd rfl)
      rw [taken, takeNext here, told, same]
    rcases kind with ⟨n, rfl⟩ | ⟨rfl, fin, long⟩ | ⟨rfl, why⟩
    · cases ran
      refine .reading taken here ?_ settled (by rw [told]; exact List.append_nil _)
      obtain ⟨rest, same⟩ := sofar
      rw [← same, List.drop_left]
      exact (List.prefix_append_right_inj _).mpr (List.take_prefix _ _)
    · have all : buffer = a.bytes := sofar.eq_of_length long
      have whole : a.whole = Utf8.decode buffer := by rw [Arriving.whole, if_pos fin, all]
      simp only [sessionLoop, emitText, Option.some.injEq, Prod.mk.injEq] at ran
      obtain ⟨rfl, rfl⟩ := ran
      refine ends (.inl (by simp [fin])) ?_ rfl
      rw [whole]
      cases Utf8.decode buffer <;> rfl
    · cases ran
      have lost : a.whole = none := by
        rcases why with reset | ⟨pending, -⟩ <;> simp [Arriving.whole, *]
      refine ends ?_ (by rw [lost]; rfl) rfl
      exact why.imp (fun reset => by simp [reset]) And.right

theorem turnAccounts {said se loop l l' turn input fresh loop' e} (old : Accounted said l (some (.serving se loop)))
    (gives : l.gives loop turn = some (input, l')) (ran : sessionLoop se.id fresh loop input = some (loop', e)) :
    Accounted (said ++ e.message) l' (some (.serving se loop')) := by
  have going : (∀ buffer, loop ≠ .readingUni buffer) → (∀ buffer, loop' ≠ .readingUni buffer) → e.message = [] → l' = l →
      Accounted (said ++ e.message) l' (some (.serving se loop')) := by
    rintro idle idle' silent rfl
    rw [silent, List.append_nil]
    cases old with
    | early early => exact absurd rfl ((early _ rfl).2 se _)
    | reading => exact absurd rfl (idle _)
    | idle at_ settled told left =>
      rw [idleServing idle] at at_
      cases at_
      exact .idle (idleServing idle') settled told (absurd rfl)
  cases loop with
  | selecting => exact selectAccounts old gives ran
  | readingUni buffer =>
    obtain ⟨input', read, same⟩ := Option.map_eq_some_iff.mp gives
    cases same
    exact readAccounts old read ran
  | registering t =>
    cases turn <;> cases gives
    cases ran
    exact going (by simp) (by simp) rfl rfl
  | announcing t x =>
    cases turn <;> cases gives
    cases ran
    exact going (by simp) (by simp) rfl rfl
  | spawning x =>
    cases turn <;> cases gives
    cases ran
    exact going (by simp) (by simp) rfl rfl

/-! Any step. -/

section Reports
variable {pick : Event → Option (SessionId × String)} {role : Role} {r : Nat} {w v : Wired} {a : Signal}

theorem reportOwn {e : Effect} (one : w.step role a = some v) (mine : a.ofTask r = true)
    (emitted : v.endpoint.emitted = w.endpoint.emitted ++ e.events) : (w.report pick role r a).toList = e.picks pick := by
  rw [Wired.report, if_pos mine, one, Option.bind_some, emitted, List.drop_left, Effect.picks]

theorem reportElse (other : a.ofTask r = false) : w.report pick role r a = none := by
  simp [Wired.report, other]

theorem hearsRun {f g : FarEnd} (ran : f.Ran role) (one : f.hears role a = some g) :
    g.Ran role ∧ f.peer.step role a = some g.peer := by
  obtain ⟨w, step, rfl⟩ := Option.map_eq_some_iff.mp one
  exact ⟨runSnoc.mpr ⟨f.peer, ran, step⟩, step⟩

theorem hearsReports {f g : FarEnd} (ran : f.Ran role) (one : f.hears role a = some g) :
    reports pick role r g.signals = reports pick role r f.signals ++ (f.peer.report pick role r a).toList := by
  obtain ⟨w, -, rfl⟩ := Option.map_eq_some_iff.mp one
  exact notedSnoc ran

end Reports

theorem movesAccounts {said l role next fresh r p input p' e} (aside : ∀ se loop, p ≠ .serving se loop)
    (old : Accounted said l (some p)) (move : TaskMove role next fresh r p input p' e) :
    Accounted (said ++ e.message) l (some p') := by
  have early : p.idle = none → (p'.idle = none ∧ ∀ se loop, p' ≠ .serving se loop) → e.message = [] →
      Accounted (said ++ e.message) l (some p') := by
    intro before after silent
    rw [silent, List.append_nil]
    cases old with
    | early _ taken none_ => exact .early (fun q same => by cases same; exact after) taken none_
    | reading => exact absurd rfl (aside _ _)
    | idle idle => rw [before] at idle; cases idle
  have late : ∀ se, p.left = some se → p'.left = some se → p'.idle = some se → p.idle = some se → e.message = [] →
      Accounted (said ++ e.message) l (some p') := by
    intro se left left' idle' idle silent
    rw [silent, List.append_nil]
    cases old with
    | early early => rw [(early _ rfl).1] at idle; cases idle
    | reading => exact absurd rfl (aside _ _)
    | idle at_ settled told ended =>
      cases at_.symm.trans idle
      exact .idle idle' settled told fun _ => ended (by rw [left]; simp)
  cases move with
  | serve => exact absurd rfl (aside _ _)
  | ended => exact absurd rfl (aside _ _)
  | open_ se =>
    cases old with
    | early _ taken none_ =>
      refine .idle rfl ⟨by omega, fun j less => by omega⟩ ?_ (absurd rfl)
      rw [none_, taken]
      rfl
    | idle idle => cases idle
  | forget server se reason => exact late se rfl rfl rfl rfl rfl
  | forgetOwn client se reason => exact late se rfl rfl rfl rfl rfl
  | purge se reason => exact late se rfl rfl rfl rfl rfl
  | close se reason => exact late se rfl rfl rfl rfl rfl
  | _ => exact early rfl ⟨rfl, by simp⟩ rfl

theorem accountedStep {role r a said} {w v : Wired} (one : w.step role a = some v)
    (old : Accounted said (w.lines r) (w.endpoint.tasks r)) :
    Accounted (said ++ (w.report Event.message role r a).toList) (v.lines r) (v.endpoint.tasks r) := by
  have aside : a.ofTask r = false → v.lines r = w.lines r → v.endpoint.tasks r = w.endpoint.tasks r →
      Accounted (said ++ (w.report Event.message role r a).toList) (v.lines r) (v.endpoint.tasks r) := by
    intro other line task
    rw [reportElse other, line, task]
    simpa using old
  cases wiredMoves one with
  | @arrives q news l got =>
    rw [reportElse rfl]
    by_cases same : r = q
    · subst same
      simpa using accountedNews got old
    · simpa [same] using old
  | @turns q turn se loop input loop' e l here gives ran =>
    by_cases same : r = q
    · subst same
      rw [here] at old
      rw [reportOwn one (by simp [Signal.ofTask]) (applyEmitted w.endpoint e)]
      simpa using turnAccounts old gives ran
    · exact aside (by simp [Signal.ofTask, Ne.symm same]) (by simp [same]) (by simp [same])
  | @ends q turn se reason l here gives =>
    by_cases same : r = q
    · subst same
      rw [here] at old
      obtain ⟨unis, ended, kind⟩ := selectGives gives
      -- every branch may give the error, and each leaves on the line what it held
      have stays : l = w.lines r ∧ (w.lines r).ended = some reason := by
        rcases kind with ⟨other, -⟩ | ⟨-, -, ends⟩
        · cases other
        · exact ends reason rfl
      rw [reportOwn (e := .none) one (by simp [Signal.ofTask]) (List.append_nil _).symm]
      have after : Accounted said l (some (.forgetting se reason)) := by
        cases old with
        | early early => exact absurd rfl ((early _ rfl).2 se _)
        | @idle _ _ idle settled told left =>
          cases idle
          rw [stays.1]
          exact .idle rfl settled told fun _ => by simp [stays.2]
      have silent : said ++ Effect.none.message = said := List.append_nil _
      simpa [silent] using after
    · exact aside (by simp [Signal.ofTask, Ne.symm same]) (by simp [same]) (by simp [same])
  | @moves a s loops move =>
    cases move with
    | @incoming q expected server free =>
      by_cases same : r = q
      · subst same
        rw [free] at old
        cases old with
        | early early taken none_ =>
          refine .early (fun q h => ?_) taken (by rw [none_]; rfl)
          cases (Function.update_self r _ _).symm.trans h
          exact ⟨rfl, by simp⟩
      · exact aside rfl rfl (by simp [same])
    | @task q input p p' e here step =>
      by_cases same : r = q
      · subst same
        rw [here] at old
        rw [reportOwn one (by simp [Signal.ofTask]) (applyEmitted w.endpoint e)]
        simp only [Function.update_self]
        refine movesAccounts (fun se loop same => ?_) old step
        simp [State.loops, here, same] at loops
      · exact aside (by simp [Signal.ofTask, Ne.symm same]) rfl (by simp [same])
    | reader step => exact aside rfl rfl (by rw [(readerKeeps (s := w.endpoint) step).1])
    | enter free => exact aside rfl rfl rfl
    | call here step => exact aside rfl rfl (by simp)

theorem accountedRun {role : Role} {labels : List Signal} {w : Wired} {r : Nat}
    (ran : run (Wired.step role) (Wired.init role) labels = some w) :
    Accounted (messages role r labels) (w.lines r) (w.endpoint.tasks r) := by
  refine runHistory (P := fun as w => Accounted (messages role r as) (w.lines r) (w.endpoint.tasks r)) ?_
    (fun as u a v before old one => ?_) ran
  · have settled : (Wired.init role).lines r = .quiet := rfl
    rw [settled]
    cases role with
    | server expected => exact .early (by simp [Wired.init, Endpoint.init]) rfl rfl
    | client id url =>
      by_cases first : r = 0
      · subst first
        exact .idle rfl ⟨le_rfl, fun j less => absurd less (Nat.not_lt_zero j)⟩ rfl (absurd rfl)
      · refine .early (fun q here => ?_) rfl rfl
        simp [Wired.init, Endpoint.init, first] at here
  · rw [messages, reports, notedSnoc before]
    exact accountedStep one old

def Line.Drained (l : Line) : Prop := (l.unis.drop l.taken).filterMap Arriving.whole = []

/-- The loop of `r` does not return in this step while a message is still to be taken. -/
def EndsDrained (r : Nat) (w : Wired) (a : Signal) : Prop :=
  ∀ turn se reason l, a = .serves r turn → w.endpoint.tasks r = some (.serving se .selecting) →
    (w.lines r).select turn = some (.ended reason, l) → (w.lines r).Drained

def MessagesFirst (role : Role) (r : Nat) (labels : List Signal) : Prop :=
  ∀ before after u p se, labels = before ++ after → run (Wired.step role) (Wired.init role) before = some u →
    u.endpoint.tasks r = some p → p.left = some se → messages role r before = texts se.id (u.lines r).unis

theorem textsDrained {l : Line} (id : SessionId) : l.Drained ↔ texts id (l.unis.take l.taken) = texts id l.unis := by
  have split : texts id l.unis =
      texts id (l.unis.take l.taken) ++ ((l.unis.drop l.taken).filterMap Arriving.whole).map (Prod.mk id) := by
    rw [texts, texts, ← List.map_append, ← List.filterMap_append, List.take_append_drop]
  rw [split, Line.Drained, List.self_eq_append_right, List.map_eq_nil_iff]

def LeftDrained (r : Nat) (w : Wired) : Prop :=
  ∀ p, w.endpoint.tasks r = some p → p.left ≠ none → (w.lines r).ended ≠ none ∧ (w.lines r).Drained

theorem leftBefore {role next fresh r p input p' e} (aside : ∀ se loop, p ≠ .serving se loop)
    (move : TaskMove role next fresh r p input p' e) (left : p'.left ≠ none) : p.left ≠ none := by
  cases move with
  | ended se reason => exact absurd rfl (aside se .selecting)
  | forget | forgetOwn | purge | close => simp [Phase.left]
  | _ => exact absurd rfl left

theorem drainedStep {role r} {w v : Wired} {a : Signal} (old : LeftDrained r w) (met : EndsDrained r w a)
    (one : w.step role a = some v) : LeftDrained r v := by
  intro p' here' left
  cases wiredMoves one with
  | @arrives q news l got =>
    by_cases same : r = q
    · subst same
      exact absurd (receiveGrows got).1 (old p' here' left).1
    · simpa [same] using old p' here' left
  | @turns q turn se loop input loop' e l here gives ran =>
    by_cases same : r = q
    · subst same
      cases (Function.update_self r _ _).symm.trans here'
      exact absurd rfl left
    · simpa [same] using old p' (by simpa [same] using here') left
  | @ends q turn se reason l here gives =>
    by_cases same : r = q
    · subst same
      obtain ⟨-, -, kind⟩ := selectGives gives
      rcases kind with ⟨other, -⟩ | ⟨-, -, ends⟩
      · cases other
      · obtain ⟨still, ended⟩ := ends reason rfl
        have drained := met turn se reason l rfl here gives
        simpa [still, ended] using drained
    · simpa [same] using old p' (by simpa [same] using here') left
  | @moves a s loops move =>
    have kept : (∀ p, s.tasks r = some p → p.left ≠ none → ∃ q, w.endpoint.tasks r = some q ∧ q.left ≠ none) := by
      intro p there over_
      cases move with
      | @incoming q expected server free =>
        by_cases same : r = q
        · subst same
          cases (Function.update_self r _ _).symm.trans there
          exact absurd rfl over_
        · exact ⟨p, by simpa [same] using there, over_⟩
      | @task q input q₁ q₂ e here step =>
        by_cases same : r = q
        · subst same
          cases (Function.update_self r _ _).symm.trans there
          refine ⟨q₁, here, leftBefore (fun se loop same => ?_) step over_⟩
          simp [State.loops, here, same] at loops
        · exact ⟨p, by simpa [same] using there, over_⟩
      | reader step => exact ⟨p, (readerKeeps (s := w.endpoint) step).1 ▸ there, over_⟩
      | enter free => exact ⟨p, there, over_⟩
      | call here step => exact ⟨p, by simpa using there, over_⟩
    obtain ⟨q, before, over_⟩ := kept p' here' left
    exact old q before over_

theorem leftTexts {said : List (SessionId × String)} {l : Line} {p : Phase} {se : Session}
    (accounted : Accounted said l (some p)) (left : p.left = some se) : said = texts se.id (l.unis.take l.taken) := by
  cases accounted with
  | early early => cases p <;> cases left <;> cases (early _ rfl).1
  | reading => cases left
  | idle idle settled told =>
    have same : some _ = some se := idle.symm.trans (by cases p <;> cases left <;> rfl)
    cases same
    exact told

theorem messagesReported {role : Role} {labels : List Signal} {w : Wired}
    (ran : run (Wired.step role) (Wired.init role) labels = some w) (r : Nat) :
    MessagesFirst role r labels ↔ Along (Wired.step role) (EndsDrained r) (Wired.init role) labels := by
  constructor
  · intro reported
    refine alongEach.mpr ?_
    rintro before a after u rfl reached turn se reason l rfl here gives
    obtain ⟨u', reached', rest⟩ := runAppend.mp ran
    cases reached.symm.trans reached'
    obtain ⟨v, one, -⟩ := runCons.mp rest
    have accounted := accountedRun (r := r) (runSnoc.mpr ⟨u, reached, one⟩)
    cases wiredMoves one with
    | @turns _ _ se' loop input loop' e l' here' gives' looped =>
      cases here.symm.trans here'
      cases gives.symm.trans gives'
      cases looped
    | @ends _ _ se' reason' l' here' gives' =>
      have at_ := Function.update_self (f := u.endpoint.tasks) r (some (.forgetting se' reason'))
      obtain ⟨-, -, kind⟩ := selectGives gives'
      rcases kind with ⟨other, -⟩ | ⟨-, -, ends⟩
      · cases other
      · obtain ⟨still, -⟩ := ends reason' rfl
        dsimp only at accounted
        rw [at_] at accounted
        have told := reported _ after _ _ se' (by simp) (runSnoc.mpr ⟨u, reached, one⟩) at_ rfl
        rw [leftTexts accounted rfl] at told
        have drained := (textsDrained se'.id).mpr told
        rwa [Function.update_self, still] at drained
  · intro met before after u p se split reached here left
    subst split
    have start : LeftDrained r (Wired.init role) := by
      intro p here left
      cases role with
      | server expected => cases here
      | client id url =>
        by_cases first : r = 0
        · subst first
          cases here
          exact absurd rfl left
        · simp [Wired.init, Endpoint.init, first] at here
    have drained := alongKeeps (fun s a t => drainedStep) start ((alongAppend reached).mp met).1 reached
    have accounted := accountedRun (r := r) reached
    rw [here] at accounted
    rw [leftTexts accounted left]
    exact (textsDrained se.id).mp (drained p here (by simp [left])).2

def sessionServed : List Signal :=
  [.moves (.incoming 0), .moves (.task 0 (.requested "till" "/rk")), .moves (.task 0 .accepted), .moves (.task 0 .go),
    .moves (.task 0 .go), .moves (.task 0 .go)]

def paidAndGone : List Signal :=
  [.arrives 0 .uni, .arrives 0 (.chunk 0 [112, 97, 105, 100]), .arrives 0 (.fin 0), .arrives 0 (.close "gone")]

def sessionEnded : List Signal := [.moves (.task 0 .go), .moves (.task 0 .go), .moves (.task 0 .go)]

def messageLost : List Signal := sessionServed ++ paidAndGone ++ [.serves 0 .datagram] ++ sessionEnded

def messageRead : List Signal :=
  sessionServed ++ paidAndGone ++ [.serves 0 .uni, .serves 0 (.read 4), .serves 0 .finish, .serves 0 .datagram] ++ sessionEnded

theorem lostBehindClose : ∃ w, run (Wired.step (.server "/rk")) (Wired.init (.server "/rk")) messageLost = some w ∧
    w.endpoint.emitted = [.sessionOpened 1 "till" "/rk", .sessionClosed 1 "gone"] ∧
    texts 1 (w.lines 0).unis = [(1, "paid")] ∧ ¬ MessagesFirst (.server "/rk") 0 messageLost := by
  have seen : (run (Wired.step (.server "/rk")) (Wired.init (.server "/rk")) messageLost).map (fun w =>
      (w.endpoint.emitted, texts 1 (w.lines 0).unis, w.endpoint.tasks 0)) =
      some ([.sessionOpened 1 "till" "/rk", .sessionClosed 1 "gone"], [(1, "paid")],
        some (.closed ⟨1, "till", "/rk"⟩ "gone")) := by decide
  have silent : messages (.server "/rk") 0 messageLost = [] := by decide
  obtain ⟨w, ran, same⟩ := Option.map_eq_some_iff.mp seen
  simp only [Prod.mk.injEq] at same
  obtain ⟨emitted, paid, closed⟩ := same
  refine ⟨w, ran, emitted, paid, fun reported => ?_⟩
  have told := reported messageLost [] w _ ⟨1, "till", "/rk"⟩ (by simp) ran closed rfl
  rw [silent, paid] at told
  cases told

def drainsFirst (r : Nat) (w : Wired) : Signal → Bool
  | .serves q turn =>
    match (w.lines q).select turn with
    | some (.ended _, _) => q ≠ r || ((w.lines q).unis.drop (w.lines q).taken).filterMap Arriving.whole = []
    | _ => true
  | _ => true

theorem messagesReportedRead : MessagesFirst (.server "/rk") 0 messageRead := by
  have there : (run (Wired.step (.server "/rk")) (Wired.init (.server "/rk")) messageRead).isSome = true := by decide
  obtain ⟨w, ran⟩ := Option.isSome_iff_exists.mp there
  have checked : checks (Wired.step (.server "/rk")) (drainsFirst 0) (Wired.init (.server "/rk")) messageRead = true := by
    decide
  refine (messagesReported ran 0).mpr (alongChecks (fun u a checked => ?_) checked)
  rintro turn se reason l rfl - gives
  simpa [drainsFirst, gives, Line.Drained] using checked

end RkQuic.Endpoint
