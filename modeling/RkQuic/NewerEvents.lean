import RkQuic.EventJson

/-! Events from a library that is newer than the program: texts of any spelling, members in another
order, members of any value that the program does not know, and kinds that it does not know. -/
namespace RkQuic.EventJson
open Json

def known (e : Event) : List (String × Scalar) := ("kind", .text (kind e)) :: fields e

/- What the reader needs to find for one member of an event. A text that is not there is the empty one to it. -/
def Holds (members : Decoded) : String × Scalar → Prop
  | (key, .nat n) => get members key = some (.int n)
  | (key, .text s) =>
    get members key = some (.string (Utf16.encode s)) ∨ s = "" ∧ ∀ t, get members key ≠ some (.string t)

def Says (members : Decoded) (e : Event) : Prop := ∀ f ∈ known e, Holds members f

/- The members of `e` in any order, among others under keys of their own. -/
def Extends (members : Decoded) (e : Event) : Prop :=
  ∃ more : Decoded, members.Perm ((known e).map Dialect.dart.field ++ more) ∧
    ∀ m ∈ more, m.1 ∉ (known e).map fun f => Utf16.encode f.1

theorem getOnly {members : Decoded} {key : String} {v : Value Units} (there : (Utf16.encode key, v) ∈ members)
    (only : ∀ m ∈ members, m.1 = Utf16.encode key → m.2 = v) : get members key = some v := by
  obtain ⟨m, found⟩ : ∃ m, members.reverse.find? (fun field => field.1 = Utf16.encode key) = some m := by
    refine Option.isSome_iff_exists.mp (List.find?_isSome.mpr ⟨_, List.mem_reverse.mpr there, ?_⟩)
    simp
  have named : m.1 = Utf16.encode key := by simpa using List.find?_some found
  have member := List.mem_reverse.mp (List.mem_of_find?_eq_some found)
  rw [get, found, Option.map_some, only m member named]

theorem knownOnce (e : Event) : ∀ f ∈ known e, ∀ g ∈ known e, f.1 = g.1 → f = g := by
  cases e <;> simp [known, fields]

theorem getExtended {members : Decoded} {e : Event} (extends_ : Extends members e) :
    ∀ f ∈ known e, get members f.1 = some (f.2.value .dart) := by
  obtain ⟨more, order, others⟩ := extends_
  intro f member
  have listed : Dialect.dart.field f ∈ members :=
    order.mem_iff.mpr (List.mem_append_left _ (List.mem_map_of_mem member))
  refine getOnly listed fun m there named => ?_
  rcases List.mem_append.mp (order.mem_iff.mp there) with mine | other
  · obtain ⟨g, here, rfl⟩ := List.mem_map.mp mine
    rw [knownOnce e g here f member (Utf16.encodeEq.mp named)]
    rfl
  · exact absurd (List.mem_map.mpr ⟨f, member, named.symm⟩) (others m other)

theorem extendedSays {members : Decoded} {e : Event} (extends_ : Extends members e) : Says members e := by
  intro f member
  have here := getExtended extends_ f member
  match f with
  | (_, .nat _) => exact here
  | (_, .text _) => exact .inl here

theorem numberHolds {members : Decoded} {key : String} {n : Nat} :
    numberOf members key = n ↔ Holds members (key, .nat n) := by
  simp only [numberOf, Holds]
  split
  · rename_i there
    rw [there, Option.some.injEq, Value.int.injEq]
  · rename_i other
    refine ⟨fun same => ?_, fun there => (other n there).elim⟩
    omega

theorem textHolds {members : Decoded} {key s : String} :
    textOf members key = Utf16.encode s ↔ Holds members (key, .text s) := by
  simp only [textOf, Holds]
  split
  · rename_i t there
    simp [there]
  · rename_i other
    have empty : [] = Utf16.encode s ↔ s = "" := eq_comm.trans (Utf16.encodeEq (t := ""))
    have missing : ∀ t, get members key ≠ some (.string t) := other
    simp only [empty, missing, false_or, and_true, ne_eq, not_false_eq_true, implies_true]

instance (members : Decoded) (f : String × Scalar) : Decidable (Holds members f) :=
  match f with
  | (_, .nat _) => decidable_of_iff _ numberHolds
  | (_, .text _) => decidable_of_iff _ textHolds

instance (members : Decoded) (e : Event) : Decidable (Says members e) :=
  inferInstanceAs (Decidable (∀ f ∈ known e, Holds members f))

def kinds : List String :=
  ["sessionOpened", "sessionClosed", "datagram", "streamMessage", "streamOpened", "streamData", "streamClosed",
    "endpointError"]

def named : QuicEvent → Option String
  | .sessionOpened _ _ _ => "sessionOpened"
  | .sessionClosed _ _ => "sessionClosed"
  | .datagramReceived _ _ => "datagram"
  | .streamMessageReceived _ _ => "streamMessage"
  | .streamOpened _ _ => "streamOpened"
  | .streamData _ _ _ => "streamData"
  | .streamClosed _ _ => "streamClosed"
  | .endpointError _ => "endpointError"
  | .unknownQuicEvent _ _ _ => none

theorem namedDart (e : Event) : named (dart e) = some (kind e) := by
  cases e <;> rfl

theorem ofKindNamed (members : Decoded) (raw : String) (other : Units) :
    (∃ k ∈ kinds, other = Utf16.encode k ∧ named (ofKind members raw other) = some k) ∨
      (∀ k ∈ kinds, other ≠ Utf16.encode k) ∧ ofKind members raw other = .unknownQuicEvent other raw none := by
  unfold ofKind
  dsimp only
  split_ifs
  case neg => exact .inr ⟨by simp [kinds, *], rfl⟩
  all_goals exact .inl ⟨_, by decide, ‹_›, rfl⟩

theorem kindHolds {members : Decoded} {e : Event} :
    Holds members ("kind", .text (kind e)) ↔ get members "kind" = some (.string (Utf16.encode (kind e))) := by
  have named : kind e ≠ "" := by cases e <;> simp [kind]
  simp only [Holds, named, false_and, or_false]

theorem ofKindHolds {members : Decoded} {raw : String} {e : Event} :
    ofKind members raw (Utf16.encode (kind e)) = dart e ↔ ∀ f ∈ fields e, Holds members f := by
  cases e <;> simp [ofKind, kind, fields, dart, number, ← numberHolds, ← textHolds]

theorem ofKindSays {members : Decoded} {raw : String} {e : Event} {other : Units}
    (there : get members "kind" = some (.string other)) : ofKind members raw other = dart e ↔ Says members e := by
  rw [Says, known, List.forall_mem_cons, kindHolds, there, Option.some.injEq, Value.string.injEq]
  constructor
  · intro same
    have reading := ofKindNamed members raw other
    rw [same, namedDart] at reading
    obtain ⟨k, -, rfl, ⟨⟩⟩ | ⟨-, unknown⟩ := reading
    · exact ⟨rfl, ofKindHolds.mp same⟩
    · cases e <;> cases unknown
  · rintro ⟨rfl, holds⟩
    exact ofKindHolds.mpr holds

def objectOf (text : String) : Option Decoded :=
  match Dialect.dart.decode text with
  | some (.object decoded) => some decoded
  | _ => none

theorem fromJsonObject (complaint : String → String) (text : String) :
    (∃ members, objectOf text = some members ∧ fromJson complaint text =
      match get members "kind" with
      | some (.string kind) => ofKind members text kind
      | _ => .unknownQuicEvent (Utf16.encode "<no kind>") text none) ∨
    objectOf text = none ∧ ∃ kind detail, fromJson complaint text = .unknownQuicEvent kind text detail := by
  simp only [objectOf, fromJson]
  cases Dialect.dart.decode text with
  | none => exact .inr ⟨rfl, _, _, rfl⟩
  | some v =>
    cases v with
    | object members => exact .inl ⟨members, rfl, rfl⟩
    | _ => exact .inr ⟨rfl, _, _, rfl⟩

/-- A text is read as an event if and only if it is an object that says it, which an object with added members
does. A kind that the program does not know is kept with the whole text; and what is not read as one of the
kinds that it knows is kept. -/
theorem newerEventsRead (complaint : String → String) (text : String) :
    (∀ e, fromJson complaint text = dart e ↔ ∃ members ∈ objectOf text, Says members e) ∧
    (∀ members e, Extends members e → Says members e) ∧
    (∀ members ∈ objectOf text, ∀ other, get members "kind" = some (.string other) →
      (∀ k ∈ kinds, other ≠ Utf16.encode k) → fromJson complaint text = .unknownQuicEvent other text none) ∧
    ((∃ members ∈ objectOf text, ∃ k ∈ kinds, get members "kind" = some (.string (Utf16.encode k)) ∧
        named (fromJson complaint text) = some k) ∨
      ∃ kind detail, fromJson complaint text = .unknownQuicEvent kind text detail) := by
  rcases fromJsonObject complaint text with ⟨members, object, reads⟩ | ⟨none_, kind, detail, kept⟩
  · simp only [object, Option.mem_def, Option.some.injEq, exists_eq_left', forall_eq', reads]
    split
    · rename_i other there
      refine ⟨fun e => ofKindSays there, fun _ _ => extendedSays, fun _ same unknown => ?_, ?_⟩
      · cases there.symm.trans same
        rcases ofKindNamed members text other with ⟨k, listed, same, -⟩ | ⟨-, kept⟩
        · exact absurd same (unknown k listed)
        · exact kept
      · rcases ofKindNamed members text other with ⟨k, listed, rfl, known_⟩ | ⟨-, kept⟩
        · exact .inl ⟨k, listed, there, known_⟩
        · exact .inr ⟨_, _, kept⟩
    · rename_i missing
      refine ⟨fun e => iff_of_false ?_ fun told => ?_, fun _ _ => extendedSays, fun other there => ?_,
        .inr ⟨_, _, rfl⟩⟩
      · cases e <;> simp [dart]
      · exact missing _ (kindHolds.mp (told _ List.mem_cons_self))
      · exact (missing other there).elim
  · simp only [none_, Option.mem_def, reduceCtorEq, false_and, exists_false, false_or, kept]
    refine ⟨fun e => iff_of_false ?_ not_false, fun _ _ => extendedSays, fun _ none_ => none_.elim, ⟨_, _, rfl⟩⟩
    cases e <;> simp [dart]

def newerDatagram : String :=
  "\x7b \"utf8\":\"hi\",\n\"via\":[1.5e3, \x7b\"\\ud800\":18446744073709551616\x7d]," ++
    "\"sessionId\" : 7, \"kind\":\"datagr\\u0061m\"\x7d"

theorem newerDatagramRead : fromJson id newerDatagram = .datagramReceived 7 (Utf16.encode "hi") :=
  ((newerEventsRead id newerDatagram).1 (.datagram 7 "hi")).mpr (by decide +kernel)

end RkQuic.EventJson
