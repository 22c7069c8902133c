import RkQuic.Payload

/-! Why a send to a session fails. The transport library under `Endpoint::send` is a parameter;
what its errors mean is assumed of it as it is documented. -/
namespace RkQuic.Sending

inductive StreamOpeningError where
  | notConnected | refused
  deriving DecidableEq, Repr

inductive StreamWriteError where
  | notConnected | closed | stopped | quicProto
  deriving DecidableEq, Repr

inductive SendDatagramError where
  | notConnected | unsupportedByPeer | tooLarge
  deriving DecidableEq, Repr

/-- The operations of a connection `κ` that `send` uses. `σ` is the state of the connection, its
peer and the stream being written; an await may leave it changed, and `send_datagram` has none.
`ε` is the error of a connection. -/
structure Transport (κ σ ε : Type) where
  openUni : κ → σ → Except ε Unit × σ
  opening : κ → σ → Except StreamOpeningError Unit × σ
  writeAll : Bytes → κ → σ → Except StreamWriteError Unit × σ
  finish : κ → σ → Except StreamWriteError Unit × σ
  sendDatagram : Bytes → κ → σ → Except SendDatagramError Unit

/-- What is the case on a connection: it has ended; the peer has stopped the stream being written;
this side has finished it; and the longest datagram, if the peer takes any. -/
structure Facts (κ σ : Type) where
  ended : κ → σ → Prop
  stopped : κ → σ → Prop
  finished : κ → σ → Prop
  limit : κ → σ → Option Nat

section Errors
variable {κ σ ε : Type} (t : Transport κ σ ε) (f : Facts κ σ) (connection : κ)

def Facts.carries (s : σ) (payload : Bytes) : Prop := ∃ n, f.limit connection s = some n ∧ payload.length ≤ n

def StreamOpeningError.means (after : σ) : StreamOpeningError → Prop
  | .notConnected => f.ended connection after
  | .refused => f.stopped connection after

def StreamWriteError.means (before after : σ) : StreamWriteError → Prop
  | .notConnected | .quicProto => f.ended connection after
  | .stopped => f.stopped connection after
  | .closed => f.finished connection before

def SendDatagramError.means (s : σ) (payload : Bytes) : SendDatagramError → Prop
  | .notConnected => f.ended connection s
  | .unsupportedByPeer => f.limit connection s = none
  | .tooLarge => ∃ n, f.limit connection s = some n ∧ n < payload.length

/-- The errors are given for what they are named after; a stream just opened is not finished, and
writing does not finish it. -/
structure Documented : Prop where
  openUni : ∀ s e, (t.openUni connection s).1 = .error e → f.ended connection (t.openUni connection s).2
  opening : ∀ s e, (t.opening connection s).1 = .error e → e.means f connection (t.opening connection s).2
  opened : ∀ s, (t.opening connection s).1 = .ok () → ¬ f.finished connection (t.opening connection s).2
  writeAll : ∀ s bytes e, (t.writeAll bytes connection s).1 = .error e →
    e.means f connection s (t.writeAll bytes connection s).2
  written : ∀ s bytes, (t.writeAll bytes connection s).1 = .ok () →
    f.finished connection (t.writeAll bytes connection s).2 → f.finished connection s
  finish : ∀ s e, (t.finish connection s).1 = .error e → e.means f connection s (t.finish connection s).2
  datagram : ∀ s bytes e, t.sendDatagram bytes connection s = .error e → e.means f connection s bytes
  carried : ∀ s bytes, t.sendDatagram bytes connection s = .ok () → f.carries connection s bytes

end Errors

section Send
variable {κ σ ε : Type}

def orPeerGone {ε : Type} (op : σ → Except ε Unit × σ) (s : σ) : Except Status Unit × σ :=
  ((op s).1.mapError fun _ => .peerGone, (op s).2)

def andThen (first second : σ → Except Status Unit × σ) (s : σ) : Except Status Unit × σ :=
  match first s with
  | (.ok _, s) => second s
  | (.error status, s) => (.error status, s)

/- `sessions` is nothing where a panic has poisoned its lock. -/
def send (t : Transport κ σ ε) (sessions : Option (SessionId → Option κ)) (runtime : Bool) (session_id : SessionId)
    (payload : String) (reliable : Bool) (s : σ) : Except Status Unit × σ :=
  match sessions with
  | none => (.error .panic, s)
  | some sessions =>
    match sessions session_id with
    | none => (.error .unknownHandle, s)
    | some connection =>
      if !runtime then (.error .notRunning, s)
      else if reliable then
        andThen (orPeerGone (t.openUni connection))
          (andThen (orPeerGone (t.opening connection))
            (andThen (orPeerGone (t.writeAll (Utf8.encode payload) connection))
              (orPeerGone (t.finish connection)))) s
      else ((t.sendDatagram (Utf8.encode payload) connection s).mapError fun _ => .peerGone, s)

def Truthful (t : Transport κ σ ε) (f : Facts κ σ) (sessions : Option (SessionId → Option κ)) (runtime : Bool)
    (session_id : SessionId) (connection : κ) (payload : String) (reliable : Bool) (s : σ) : Prop :=
  let (answer, after) := send t sessions runtime session_id payload reliable s
  (answer = .error .peerGone → f.ended connection after ∨ (reliable = true ∧ f.stopped connection after)) ∧
    (runtime = true → reliable = false → ¬ f.ended connection s → ¬ f.carries connection s (Utf8.encode payload) →
      ∃ status, answer = .error status ∧ status ≠ .peerGone)

theorem orPeerGoneFails {ε : Type} {op : σ → Except ε Unit × σ} {s : σ} {status : Status}
    (fails : (orPeerGone op s).1 = .error status) : ∃ e, (op s).1 = .error e := by
  unfold orPeerGone at fails
  cases answer : (op s).1 with
  | ok => rw [answer] at fails; cases fails
  | error e => exact ⟨e, rfl⟩

theorem andThenFails {first second : σ → Except Status Unit × σ} {s : σ} {status : Status}
    (fails : (andThen first second s).1 = .error status) :
    ((first s).1 = .error status ∧ (andThen first second s).2 = (first s).2) ∨
      ((first s).1 = .ok () ∧ andThen first second s = second (first s).2) := by
  unfold andThen at fails ⊢
  rcases answer : first s with ⟨_ | _, after⟩
  · rw [answer] at fails
    exact .inl ⟨by simpa using fails, rfl⟩
  · exact .inr ⟨rfl, rfl⟩

theorem orPeerGoneOk {ε : Type} {op : σ → Except ε Unit × σ} {s : σ} (done : (orPeerGone op s).1 = .ok ()) :
    (op s).1 = .ok () := by
  unfold orPeerGone at done
  cases answer : (op s).1 with
  | ok => rfl
  | error e => rw [answer] at done; cases done

theorem writeErrorMeans {f : Facts κ σ} {connection : κ} {before after : σ} {e : StreamWriteError}
    (means : e.means f connection before after) (unfinished : ¬ f.finished connection before) :
    f.ended connection after ∨ f.stopped connection after := by
  cases e with
  | notConnected => exact .inl means
  | quicProto => exact .inl means
  | stopped => exact .inr means
  | closed => exact absurd means unfinished

theorem reliableFails {t : Transport κ σ ε} {f : Facts κ σ} {connection : κ} (doc : Documented t f connection)
    {bytes : Bytes} {s : σ} {status : Status} {road : σ → Except Status Unit × σ}
    (road_ : road = andThen (orPeerGone (t.openUni connection)) (andThen (orPeerGone (t.opening connection))
      (andThen (orPeerGone (t.writeAll bytes connection)) (orPeerGone (t.finish connection)))))
    (fails : (road s).1 = .error status) : f.ended connection (road s).2 ∨ f.stopped connection (road s).2 := by
  subst road_
  rcases andThenFails fails with ⟨first, after⟩ | ⟨-, rest⟩
  · obtain ⟨e, why⟩ := orPeerGoneFails first
    rw [after]
    exact .inl (doc.openUni s e why)
  rw [rest] at fails ⊢
  generalize (orPeerGone (t.openUni connection) s).2 = s₁ at fails ⊢
  rcases andThenFails fails with ⟨first, after⟩ | ⟨opened, rest⟩
  · obtain ⟨e, why⟩ := orPeerGoneFails first
    have means := doc.opening s₁ e why
    rw [after]
    cases e with
    | notConnected => exact .inl means
    | refused => exact .inr means
  rw [rest] at fails ⊢
  have fresh : ¬ f.finished connection (orPeerGone (t.opening connection) s₁).2 := doc.opened s₁ (orPeerGoneOk opened)
  generalize (orPeerGone (t.opening connection) s₁).2 = s₂ at fails fresh ⊢
  rcases andThenFails fails with ⟨first, after⟩ | ⟨written, rest⟩
  · obtain ⟨e, why⟩ := orPeerGoneFails first
    rw [after]
    exact writeErrorMeans (doc.writeAll s₂ bytes e why) fresh
  rw [rest] at fails ⊢
  have unfinished : ¬ f.finished connection (orPeerGone (t.writeAll bytes connection) s₂).2 := fun done =>
    fresh (doc.written s₂ bytes (orPeerGoneOk written) done)
  obtain ⟨e, why⟩ := orPeerGoneFails fails
  exact writeErrorMeans (doc.finish _ e why) unfinished

theorem peerGoneTruthful {t : Transport κ σ ε} {f : Facts κ σ} {connection : κ} (doc : Documented t f connection)
    {sessions : SessionId → Option κ} {session_id : SessionId} (here : sessions session_id = some connection)
    (runtime : Bool) (payload : String) (reliable : Bool) (s : σ) :
    Truthful t f (some sessions) runtime session_id connection payload reliable s ↔
      ¬ (runtime = true ∧ reliable = false ∧ ¬ f.ended connection s ∧
        ¬ f.carries connection s (Utf8.encode payload)) := by
  unfold Truthful
  simp only [send, here]
  cases runtime with
  | false => simp
  | true =>
    cases reliable with
    | true =>
      refine iff_of_true ⟨fun gone => ?_, by simp⟩ (by simp)
      exact (reliableFails doc rfl gone).imp id fun stopped => ⟨rfl, stopped⟩
    | false =>
      cases answer : t.sendDatagram (Utf8.encode payload) connection s with
      | ok =>
        have carried := doc.carried s _ answer
        exact iff_of_true ⟨by simp [Except.mapError], fun _ _ _ cannot => absurd carried cannot⟩
          fun bad => bad.2.2.2 carried
      | error e =>
        have means := doc.datagram s _ e answer
        by_cases ended : f.ended connection s
        · exact iff_of_true ⟨fun _ => .inl ended, fun _ _ up => absurd ended up⟩ fun bad => bad.2.2.1 ended
        · have cannot : ¬ f.carries connection s (Utf8.encode payload) := by
            rintro ⟨n, known, fits⟩
            cases e with
            | notConnected => exact ended means
            | unsupportedByPeer => cases known.symm.trans means
            | tooLarge =>
              obtain ⟨m, same, long⟩ := means
              cases known.symm.trans same
              omega
          refine iff_of_false (fun truthful => ?_) fun fine => fine ⟨rfl, rfl, ended, cannot⟩
          obtain ⟨status, told, other⟩ := truthful.2 rfl rfl ended cannot
          have gone : (.error .peerGone : Except Status Unit) = .error status := told
          cases gone
          exact other rfl

def lower (t : Transport κ σ ε) (sessions : SessionId → Option κ) (runtime : Bool) (session_id : SessionId)
    (payload : String) (s : σ) : Payload.Lower :=
  match sessions session_id with
  | none => ⟨true, false, runtime, true, true, true, true, true⟩
  | some connection =>
    let opening := (t.openUni connection s).2
    let opened := (t.opening connection opening).2
    let written := (t.writeAll (Utf8.encode payload) connection opened).2
    ⟨true, true, runtime, (t.openUni connection s).1.isOk, (t.opening connection opening).1.isOk,
      (t.writeAll (Utf8.encode payload) connection opened).1.isOk, (t.finish connection written).1.isOk,
      (t.sendDatagram (Utf8.encode payload) connection s).isOk⟩

def statusOf : Except Status Unit → Status
  | .ok _ => .ok
  | .error status => status

theorem sendLower (t : Transport κ σ ε) (sessions : SessionId → Option κ) (runtime : Bool) (session_id : SessionId)
    (payload : String) (reliable : Bool) (s : σ) :
    statusOf (send t (some sessions) runtime session_id payload reliable s).1 =
      (Payload.send (lower t sessions runtime session_id payload s) session_id payload reliable).status := by
  cases found : sessions session_id with
  | none => simp [send, lower, Payload.send, found, statusOf]
  | some connection =>
    cases runtime with
    | false => simp [send, lower, Payload.send, found, statusOf]
    | true =>
      cases reliable with
      | false =>
        cases answer : t.sendDatagram (Utf8.encode payload) connection s <;>
          simp [send, lower, Payload.send, found, answer, statusOf, Except.mapError, Except.isOk, Except.toBool]
      | true =>
        simp only [send, lower, Payload.send, found]
        rcases first : t.openUni connection s with ⟨_ | _, s₁⟩
        · simp [andThen, orPeerGone, first, statusOf, Except.mapError, Except.isOk, Except.toBool]
        rcases second : t.opening connection s₁ with ⟨_ | _, s₂⟩
        · simp [andThen, orPeerGone, first, second, statusOf, Except.mapError, Except.isOk, Except.toBool]
        rcases third : t.writeAll (Utf8.encode payload) connection s₂ with ⟨_ | _, s₃⟩
        · simp [andThen, orPeerGone, first, second, third, statusOf, Except.mapError, Except.isOk, Except.toBool]
        rcases last : t.finish connection s₃ with ⟨_ | _, s₄⟩ <;>
          simp [andThen, orPeerGone, first, second, third, last, statusOf, Except.mapError, Except.isOk, Except.toBool]

end Send

def upTo (n : Nat) : Transport Nat Unit Unit :=
  ⟨fun _ s => (.ok (), s), fun _ s => (.ok (), s), fun _ _ s => (.ok (), s), fun _ s => (.ok (), s),
    fun bytes _ _ => if bytes.length ≤ n then .ok () else .error .tooLarge⟩

def live (n : Nat) : Facts Nat Unit := ⟨fun _ _ => False, fun _ _ => False, fun _ _ => False, fun _ _ => some n⟩

theorem upToDocumented (n connection : Nat) : Documented (upTo n) (live n) connection where
  openUni s e h := by cases h
  opening s e h := by cases h
  opened s h := id
  writeAll s bytes e h := by cases h
  written s bytes h := id
  finish s e h := by cases h
  datagram s bytes e h := by
    simp only [upTo] at h
    split at h <;> cases h
    exact ⟨n, rfl, by omega⟩
  carried s bytes h := by
    simp only [upTo] at h
    split at h
    · exact ⟨n, rfl, by assumption⟩
    · cases h

theorem lettersLength (n : Nat) : (Utf8.encode (String.ofList (List.replicate n 'a'))).length = n := by
  rw [Utf8.encodeOfList, List.length_flatMap, List.map_replicate, List.sum_replicate]
  exact Nat.mul_one n

theorem oneTooLong (n : Nat) : ¬ Truthful (upTo n) (live n) (some fun _ => some 0) true 1 0
    (String.ofList (List.replicate (n + 1) 'a')) false () := by
  intro truthful
  have refused : (send (upTo n) (some fun _ => some 0) true 1 (String.ofList (List.replicate (n + 1) 'a')) false ()).1 =
      .error .peerGone := by
    simp [send, upTo, lettersLength, Except.mapError]
  rcases truthful.1 refused with ended | ⟨no, -⟩
  · exact ended
  · cases no

theorem tooLargeBlamed : ∃ payload, (Utf8.encode payload).length = 1163 ∧
    ¬ Truthful (upTo 1162) (live 1162) (some fun _ => some 0) true 1 0 payload false () :=
  ⟨_, lettersLength 1163, oneTooLong 1162⟩

theorem peerGoneTruthfulShort : Truthful (upTo 1162) (live 1162) (some fun _ => some 0) true 1 0 "now" false () := by
  refine (peerGoneTruthful (upToDocumented 1162 0) rfl true "now" false ()).mpr fun bad => ?_
  exact bad.2.2.2 ⟨1162, rfl, by decide⟩

end RkQuic.Sending
