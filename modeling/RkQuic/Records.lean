import RkQuic.Outcomes

/-! Reading a record out of the members of an object, the way a derived decoder does: a key
names at most one field, a field is named once, and for an absent field something may stand in.
What a key and a value mean is the schema's affair. -/
namespace RkQuic.Records
open Outcomes

/-- `strict` is that a key which names no field is an error; otherwise its value is skipped. -/
structure Schema (κ : Type) (slot : κ → Type) (V : Type) where
  field : String → Option κ
  read : (k : κ) → V → Option (slot k)
  fallback : (k : κ) → Option (slot k)
  strict : Bool

inductive Fault (κ : Type) where
  | unknownField (key : String)
  | duplicateField (k : κ)
  | invalidValue (k : κ)
  | missingField (k : κ)
  deriving DecidableEq, Repr

variable {κ V : Type} [DecidableEq κ] {slot : κ → Type} (schema : Schema κ slot V)

def Schema.visit (taken : (k : κ) → Option (slot k)) :
    List (String × V) → Outcome (Fault κ) ((k : κ) → Option (slot k))
  | [] => .ok taken
  | (key, v) :: members =>
    match schema.field key with
    | none => if schema.strict then .err (.unknownField key) else visit taken members
    | some k =>
      match taken k with
      | some _ => .err (.duplicateField k)
      | none =>
        match schema.read k v with
        | none => .err (.invalidValue k)
        | some x => visit (Function.update taken k (some x)) members

omit [DecidableEq κ] in
def Schema.need (taken : (k : κ) → Option (slot k)) (k : κ) : Outcome (Fault κ) (slot k) :=
  .okOr (.missingField k) ((taken k).or (schema.fallback k))

def Schema.entries (k : κ) (members : List (String × V)) : List V :=
  members.filterMap fun m => if schema.field m.1 = some k then some m.2 else none

def Schema.said (k : κ) (members : List (String × V)) : Option (slot k) :=
  match schema.entries k members with
  | [] => schema.fallback k
  | [v] => schema.read k v
  | _ => none

def Schema.Strange (members : List (String × V)) : Prop := ∃ m ∈ members, schema.field m.1 = none

def Schema.fill (k : κ) : Option (slot k) → List V → Option (Option (slot k))
  | old, [] => some old
  | none, v :: vs => (schema.read k v).bind fun x => fill k (some x) vs
  | some _, _ :: _ => none

variable {schema} {members : List (String × V)}

theorem entriesHere {k : κ} {key : String} {v : V} (named : schema.field key = some k) :
    schema.entries k ((key, v) :: members) = v :: schema.entries k members := by
  simp [Schema.entries, named]

theorem entriesElsewhere {k : κ} {key : String} {v : V} (other : schema.field key ≠ some k) :
    schema.entries k ((key, v) :: members) = schema.entries k members := by
  simp [Schema.entries, other]

theorem visitSteady {taken : (k : κ) → Option (slot k)} : schema.visit taken members ≠ .panicked := by
  fun_induction Schema.visit schema taken members <;> simp_all

theorem visitField {taken grown : (k : κ) → Option (slot k)} {k : κ} {key : String} {v : V}
    (named : schema.field key = some k) : schema.visit taken ((key, v) :: members) = .ok grown ↔
      taken k = none ∧ ∃ x, schema.read k v = some x ∧
        schema.visit (Function.update taken k (some x)) members = .ok grown := by
  rw [Schema.visit, named]
  cases free : taken k <;> cases read : schema.read k v <;> simp [free, read]

theorem fillField {taken grown : (k : κ) → Option (slot k)} {k : κ} {key : String} {v : V}
    (named : schema.field key = some k) :
    (∀ k', schema.fill k' (taken k') (schema.entries k' ((key, v) :: members)) = some (grown k')) ↔
      taken k = none ∧ ∃ x, schema.read k v = some x ∧
        ∀ k', schema.fill k' (Function.update taken k (some x) k') (schema.entries k' members) = some (grown k') := by
  have others : ∀ k' ≠ k, schema.entries k' ((key, v) :: members) = schema.entries k' members :=
    fun k' other => entriesElsewhere (by simpa [named] using other.symm)
  have here := @entriesHere _ _ _ _ schema members k key v named
  constructor
  · intro fills
    have mine := fills k
    rw [here] at mine
    rcases free : taken k with _ | old
    · rw [free, Schema.fill] at mine
      obtain ⟨x, read, rest⟩ := Option.bind_eq_some_iff.mp mine
      refine ⟨rfl, x, read, fun k' => ?_⟩
      by_cases same : k' = k
      · subst same
        rwa [Function.update_self]
      · rw [Function.update_of_ne same, ← others k' same]
        exact fills k'
    · rw [free, Schema.fill] at mine
      cases mine
  · rintro ⟨free, x, read, fills⟩ k'
    have mine := fills k'
    by_cases same : k' = k
    · subst same
      rw [Function.update_self] at mine
      rw [here, free, Schema.fill, read]
      exact mine
    · rw [Function.update_of_ne same] at mine
      rw [others k' same]
      exact mine

theorem visitOk {taken grown : (k : κ) → Option (slot k)} :
    schema.visit taken members = .ok grown ↔
      (schema.strict = true → ¬ schema.Strange members) ∧
        ∀ k, schema.fill k (taken k) (schema.entries k members) = some (grown k) := by
  induction members generalizing taken with
  | nil => simp [Schema.visit, Schema.Strange, Schema.entries, Schema.fill, funext_iff]
  | cons m members ih =>
    obtain ⟨key, v⟩ := m
    cases named : schema.field key with
    | none =>
      have same : ∀ k, schema.entries k ((key, v) :: members) = schema.entries k members :=
        fun k => entriesElsewhere (by simp [named])
      rw [Schema.visit, named]
      simp only [same]
      cases strict : schema.strict with
      | true => simp [Schema.Strange, named]
      | false => simpa [strict] using ih
    | some k =>
      have strange : schema.Strange ((key, v) :: members) ↔ schema.Strange members := by simp [Schema.Strange, named]
      rw [strange, visitField named, fillField named]
      simp only [ih]
      tauto

omit [DecidableEq κ] in
theorem needOk {taken : (k : κ) → Option (slot k)} {k : κ} {x : slot k} :
    schema.need taken k = .ok x ↔ (taken k).or (schema.fallback k) = some x := okOrOk

omit [DecidableEq κ] in
theorem fillSaid {k : κ} {x : slot k} {vs : List V} :
    (∃ t, schema.fill k none vs = some t ∧ t.or (schema.fallback k) = some x) ↔
      (match vs with
        | [] => schema.fallback k
        | [v] => schema.read k v
        | _ => none) = some x := by
  rcases vs with _ | ⟨v, _ | ⟨v', vs⟩⟩
  · simp [Schema.fill]
  · cases read : schema.read k v <;> simp [Schema.fill, read]
  · cases read : schema.read k v <;> simp [Schema.fill, read]

theorem recordOk {x : (k : κ) → slot k} :
    (∃ taken, schema.visit (fun _ => none) members = .ok taken ∧ ∀ k, schema.need taken k = .ok (x k)) ↔
      (schema.strict = true → ¬ schema.Strange members) ∧ ∀ k, schema.said k members = some (x k) := by
  simp only [visitOk, needOk, Schema.said, ← fillSaid]
  constructor
  · rintro ⟨taken, ⟨known, fills⟩, needed⟩
    exact ⟨known, fun k => ⟨taken k, fills k, needed k⟩⟩
  · rintro ⟨known, each⟩
    choose taken fills needed using each
    exact ⟨taken, ⟨known, fills⟩, needed⟩

theorem saidOnce {k : κ} {x : slot k} {key : String} {v : V} (there : (key, v) ∈ members)
    (named : schema.field key = some k) (said : schema.said k members = some x) : schema.read k v = some x := by
  have among : v ∈ schema.entries k members := List.mem_filterMap.mpr ⟨(key, v), there, by simp [named]⟩
  unfold Schema.said at said
  split at said <;> rename_i values
  · simp [values] at among
  · rw [values, List.mem_singleton] at among
    rwa [among]
  · cases said

end RkQuic.Records
