import RkQuic.Guard
import RkQuic.Str

/-! The client's configuration and the fingerprint in it. `debug` is how the standard
library quotes a piece of text in a message. -/
namespace RkQuic.Config
open Ffi Outcomes Str

structure ClientConfig where
  url : String
  certificate_hash_sha256 : String
  idle_timeout_ms : UInt64
  deriving DecidableEq, Repr

abbrev Sized (n : Nat) := {bytes : Bytes // bytes.length = n}

structure ParsedClientConfig where
  url : String
  certificate_hash : Sized 32
  idle_timeout : UInt64
  deriving DecidableEq, Repr

def invalid (message : String) : Refusal := (.invalidArgument, message)

variable (debug : String → String)

def lengthMessage (got : Nat) : String :=
  "certificateHashSha256 must be 64 hex characters, got " ++ toString got ++
    " — a fingerprint copied with colons has 95"

def pairMessage (pair : Bytes) : String :=
  "certificateHashSha256 has " ++ debug ((Utf8.decode pair).getD "") ++ " where two hex digits belong"

/- The loop of `parse_hash` from its round `i` on: `n` bytes are still to be filled in. -/
def hashFrom (trimmed : Bytes) (i : Nat) : (n : Nat) → Outcome Refusal (Sized n)
  | 0 => .ok ⟨[], rfl⟩
  | n + 1 => do
    let pair ← .orPanic (slice trimmed (i * 2) (i * 2 + 2))
    let byte ← .okOr (invalid (pairMessage debug pair)) (fromStrRadix pair)
    let rest ← hashFrom trimmed (i + 1) n
    pure ⟨byte :: rest.1, congrArg (· + 1) rest.2⟩

def parseHash (text : String) : Outcome Refusal (Sized 32) :=
  let trimmed := Utf8.encode (trim text)
  if trimmed.length ≠ 64 then .err (invalid (lengthMessage trimmed.length)) else hashFrom debug trimmed 0 32

def ClientConfig.parse (config : ClientConfig) : Outcome Refusal ParsedClientConfig :=
  if config.url.toList = [] then .err (invalid "url is empty")
  else if ¬ "https://".toList <+: config.url.toList then
    .err (invalid ("url must start with https:// — WebTransport names its endpoints that way; got " ++
      debug config.url))
  else do
    let hash ← parseHash debug config.certificate_hash_sha256
    if config.idle_timeout_ms = 0 then .err (invalid "idleTimeoutMs 0 means no timeout at all; give a duration")
    else pure ⟨config.url, hash, config.idle_timeout_ms⟩

/-! What the loop makes of a text. -/

def pairAt (trimmed : Bytes) (i : Nat) : Bytes := (trimmed.drop (i * 2)).take 2

def Reads (trimmed : Bytes) (i : Nat) : Prop := fromStrRadix (pairAt trimmed i) ≠ none

instance (trimmed : Bytes) (i : Nat) : Decidable (Reads trimmed i) := inferInstanceAs (Decidable (_ ≠ _))

theorem sliceAt {trimmed : Bytes} {i : Nat} (start : isCharBoundary trimmed (i * 2) = true) :
    slice trimmed (i * 2) (i * 2 + 2) =
      if isCharBoundary trimmed (i * 2 + 2) then some (pairAt trimmed i) else none := by
  simp [slice, start, pairAt]

theorem laterRound {reads : Nat → Prop} {stops : Nat → Prop} {i n : Nat} :
    (∃ j < n + 1, (∀ l < j, reads (i + l)) ∧ stops (i + j)) ↔
      stops i ∨ (reads i ∧ ∃ j < n, (∀ l < j, reads (i + 1 + l)) ∧ stops (i + 1 + j)) := by
  have shift : ∀ l, i + (l + 1) = i + 1 + l := fun l => by omega
  constructor
  · rintro ⟨j, less, before, here⟩
    cases j with
    | zero => exact .inl here
    | succ j =>
      exact .inr ⟨before 0 (by omega), j, by omega, fun l h => shift l ▸ before (l + 1) (by omega), shift j ▸ here⟩
  · rintro (here | ⟨first, j, less, before, here⟩)
    · exact ⟨0, by omega, by simp, here⟩
    · refine ⟨j + 1, by omega, fun l h => ?_, (shift j).symm ▸ here⟩
      cases l with
      | zero => exact first
      | succ l => exact (shift l).symm ▸ before l (by omega)

theorem nextStart {trimmed : Bytes} {i : Nat} (ends : isCharBoundary trimmed (i * 2 + 2) = true) :
    isCharBoundary trimmed ((i + 1) * 2) = true := by
  rw [Nat.add_mul]
  exact ends

theorem hashStops {trimmed : Bytes} {i n : Nat} (start : isCharBoundary trimmed (i * 2) = true) :
    hashFrom debug trimmed i n = .panicked ↔
      ∃ j < n, (∀ l < j, Reads trimmed (i + l)) ∧ isCharBoundary trimmed ((i + j) * 2 + 2) = false := by
  induction n generalizing i with
  | zero => simp [hashFrom]
  | succ n ih =>
    rw [@laterRound (Reads trimmed) fun j => isCharBoundary trimmed (j * 2 + 2) = false, hashFrom,
      sliceAt start]
    cases ends : isCharBoundary trimmed (i * 2 + 2) with
    | false => simp [Outcome.orPanic]
    | true =>
      rw [← ih (nextStart ends)]
      cases pair : fromStrRadix (pairAt trimmed i) <;>
        simp [Outcome.orPanic, Outcome.okOr, Reads, pair, bindPanicked]

theorem hashRefuses {trimmed : Bytes} {i n : Nat} {refusal : Refusal}
    (refused : hashFrom debug trimmed i n = .err refusal) : refusal.1 = .invalidArgument := by
  induction n generalizing i with
  | zero => cases refused
  | succ n ih =>
    simp only [hashFrom, bindErr, orPanicErr, okOrErr, false_or] at refused
    rcases refused with ⟨pair, -, ⟨-, rfl⟩ | ⟨byte, -, later | ⟨rest, -, last⟩⟩⟩
    · rfl
    · exact ih later
    · cases last

theorem hashReads {trimmed : Bytes} {i n : Nat} (start : isCharBoundary trimmed (i * 2) = true)
    {hash : Sized n} (accepted : hashFrom debug trimmed i n = .ok hash) :
    ∀ j < n, ∃ byte, fromStrRadix (pairAt trimmed (i + j)) = some byte ∧ hash.1[j]? = some byte := by
  induction n generalizing i with
  | zero => simp
  | succ n ih =>
    simp only [hashFrom, bindOk, orPanicOk, okOrOk, sliceAt start, Option.ite_none_right_eq_some,
      Option.some.injEq] at accepted
    obtain ⟨_, ⟨ends, rfl⟩, byte, pair, rest, tail, last⟩ := accepted
    cases last
    intro j less
    cases j with
    | zero => exact ⟨byte, pair, rfl⟩
    | succ j =>
      obtain ⟨b, reads, there⟩ := ih (nextStart ends) tail j (by omega)
      refine ⟨b, ?_, there⟩
      rwa [show i + (j + 1) = i + 1 + j by omega]

theorem hashAccepts {trimmed : Bytes} {i n : Nat} (start : isCharBoundary trimmed (i * 2) = true)
    (whole : ∀ j < n, isCharBoundary trimmed ((i + j) * 2 + 2) = true ∧ Reads trimmed (i + j)) :
    ∃ hash, hashFrom debug trimmed i n = .ok hash := by
  induction n generalizing i with
  | zero => exact ⟨_, rfl⟩
  | succ n ih =>
    obtain ⟨ends, reads⟩ := whole 0 (by omega)
    obtain ⟨byte, pair⟩ := Option.ne_none_iff_exists'.mp reads
    obtain ⟨rest, tail⟩ := ih (nextStart ends) fun j h => by
      have := whole (j + 1) (by omega)
      rwa [show i + (j + 1) = i + 1 + j by omega] at this
    have ends : isCharBoundary trimmed (i * 2 + 2) = true := ends
    have pair : fromStrRadix (pairAt trimmed i) = some byte := pair
    refine ⟨⟨byte :: rest.1, congrArg (· + 1) rest.2⟩, ?_⟩
    simp [hashFrom, sliceAt start, ends, pair, tail, Outcome.orPanic, Outcome.okOr]

def Straddles (trimmed : Bytes) : Prop :=
  trimmed.length = 64 ∧
    ∃ j < 32, (∀ l < j, Reads trimmed l) ∧ isCharBoundary trimmed (j * 2 + 2) = false

theorem hashPanics {text : String} :
    parseHash debug text = .panicked ↔ Straddles (Utf8.encode (trim text)) := by
  have stops := @hashStops debug (Utf8.encode (trim text)) 0 32 (startBoundary _)
  simp only [Nat.zero_add] at stops
  simp only [parseHash, Straddles]
  split
  · simp_all
  · rw [stops]
    simp_all

theorem parseHashRefuses {text : String} {refusal : Refusal} (refused : parseHash debug text = .err refusal) :
    refusal.1 = .invalidArgument := by
  simp only [parseHash] at refused
  split at refused
  · cases refused; rfl
  · exact hashRefuses debug refused

end RkQuic.Config
