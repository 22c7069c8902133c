import RkQuic.Json

/-! JSON text of any value, nested to any depth, and that `serde_json` reads it back. A number with
a fraction, an exponent or too many digits is outside: its text is not kept to one form. -/
namespace RkQuic.Json

def writeInt : Int → List Char
  | .ofNat n => Nat.toDigits 10 n
  | .negSucc n => '-' :: Nat.toDigits 10 (n + 1)

mutual

def Value.write : Value String → List Char
  | .null => ['n', 'u', 'l', 'l']
  | .bool true => ['t', 'r', 'u', 'e']
  | .bool false => ['f', 'a', 'l', 's', 'e']
  | .int n => writeInt n
  | .double text => text.toList
  | .string s => quoted s
  | .array items => '[' :: writeItems items
  | .object fields => '\x7b' :: writeMembers fields

def writeItems : List (Value String) → List Char
  | [] => [']']
  | [v] => v.write ++ [']']
  | v :: w :: more => v.write ++ ',' :: writeItems (w :: more)

def writeMembers : List (String × Value String) → List Char
  | [] => ['\x7d']
  | [m] => writeMember m ++ ['\x7d']
  | m :: m' :: more => writeMember m ++ ',' :: writeMembers (m' :: more)

def writeMember : String × Value String → List Char
  | (key, v) => quoted key ++ ':' :: v.write

end

def encode (v : Value String) : String := String.ofList v.write

inductive Exact : Value String → Prop
  | null : Exact .null
  | bool (b : Bool) : Exact (.bool b)
  | int {n : Int} (low : -2 ^ 63 ≤ n) (high : n < 2 ^ 63) : Exact (.int n)
  | string (s : String) : Exact (.string s)
  | array {items : List (Value String)} (all : ∀ v ∈ items, Exact v) : Exact (.array items)
  | object {fields : List (String × Value String)} (all : ∀ f ∈ fields, Exact f.2) : Exact (.object fields)

def Closed (tail : List Char) : Prop := ∀ c ∈ tail.head?, c = ',' ∨ c = ']' ∨ c = '\x7d'

theorem closedNil : Closed [] := fun _ none_ => by cases none_

theorem closedCons {c : Char} {tail : List Char} (ends : c = ',' ∨ c = ']' ∨ c = '\x7d') : Closed (c :: tail) :=
  fun _ first => Option.some.inj first ▸ ends

theorem digitsClosed (n : Nat) {tail : List Char} (closed : Closed tail) :
    (Nat.toDigits 10 n ++ tail).span Char.isDigit = (Nat.toDigits 10 n, tail) := by
  have all : ∀ c ∈ Nat.toDigits 10 n, c.isDigit = true :=
    fun c member => Nat.isDigit_of_mem_toDigits (by omega) (by omega) member
  have stops : tail.takeWhile Char.isDigit = [] ∧ tail.dropWhile Char.isDigit = tail := by
    cases tail with
    | nil => exact ⟨rfl, rfl⟩
    | cons c rest =>
      have stop : c.isDigit = false := by rcases closed c rfl with rfl | rfl | rfl <;> rfl
      simp [stop]
  rw [List.span_eq_takeWhile_dropWhile, List.takeWhile_append_of_pos all, List.dropWhile_append_of_pos all, stops.1,
    stops.2, List.append_nil]

theorem readClosed (negative : Bool) (n : Nat) {tail : List Char} (closed : Closed tail) :
    readNumber .serde negative (Nat.toDigits 10 n ++ tail) = some (integer .serde negative (Nat.toDigits 10 n), tail) := by
  have whole : ¬ (Nat.toDigits 10 n = [] ∨
      (Nat.toDigits 10 n).head? = some '0' ∧ Nat.toDigits 10 n ≠ ['0']) := by
    rintro (empty | ⟨leads, more⟩)
    · exact Nat.toDigits_ne_nil empty
    · exact more (zeroLeads n leads)
  have plain : readFraction tail = some ([], tail) ∧ readExponent tail = some ([], tail) := by
    cases tail with
    | nil => exact ⟨rfl, rfl⟩
    | cons c rest => rcases closed c rfl with rfl | rfl | rfl <;> exact ⟨rfl, rfl⟩
  rw [readNumber, digitsClosed n closed]
  simp only [if_neg whole, plain.1, plain.2, Option.bind_eq_bind, Option.bind_some, and_self, if_true]

def Opens (text : List Char) : Prop :=
  ∃ c rest, text = c :: rest ∧ (c ≠ ' ' ∧ c ≠ '\t' ∧ c ≠ '\n' ∧ c ≠ '\r') ∧ c ≠ ']'

theorem digitsOpen (n : Nat) : ∃ c rest, Nat.toDigits 10 n = c :: rest ∧ c.isDigit = true := by
  cases digits : Nat.toDigits 10 n with
  | nil => exact absurd digits Nat.toDigits_ne_nil
  | cons c rest =>
    exact ⟨c, rest, rfl, Nat.isDigit_of_mem_toDigits (b := 10) (n := n) (by omega) (by omega)
      (by rw [digits]; exact List.mem_cons_self)⟩

theorem exactOpens {v : Value String} (exact : Exact v) : Opens v.write := by
  cases exact with
  | null => exact ⟨_, _, by rw [Value.write], by decide, by decide⟩
  | bool b => cases b <;> exact ⟨_, _, by rw [Value.write], by decide, by decide⟩
  | @int n =>
    rw [Value.write]
    cases n with
    | negSucc n => exact ⟨_, _, rfl, by decide, by decide⟩
    | ofNat n =>
      obtain ⟨c, rest, starts, digit⟩ := digitsOpen n
      have other {d : Char} : d.isDigit = false → c ≠ d := digitPlain digit
      exact ⟨c, rest, starts, ⟨other rfl, other rfl, other rfl, other rfl⟩, other rfl⟩
  | string s => exact ⟨_, _, by rw [Value.write, quoted]; rfl, by decide, by decide⟩
  | array => exact ⟨_, _, by rw [Value.write], by decide, by decide⟩
  | object => exact ⟨_, _, by rw [Value.write], by decide, by decide⟩

theorem readInt {n : Int} (low : -2 ^ 63 ≤ n) (high : n < 2 ^ 63) {tail : List Char} (closed : Closed tail) (fuel : Nat) :
    readValue .serde (fuel + 1) (writeInt n ++ tail) = some (.int n, tail) := by
  cases n with
  | negSucc n =>
    have number := readClosed true (n + 1) closed
    have value : integer .serde true (Nat.toDigits 10 (n + 1)) = .int (Int.negSucc n) := by
      have within : ¬ (n + 1 = 0 ∧ Dialect.serde.minusZero = false ∨ 2 ^ 63 < n + 1) := by
        rw [Int.negSucc_eq] at low
        omega
      simp only [integer, Nat.ofDigitChars_ten_toDigits, if_true, if_neg within, Int.negSucc_eq, Nat.cast_add, Nat.cast_one]
    rw [writeInt, List.cons_append, readValue, skipPlain _ (by decide)]
    rw [value] at number
    exact number
  | ofNat n =>
    have number := readClosed false n closed
    have value : integer .serde false (Nat.toDigits 10 n) = .int n := by
      have small : n < Dialect.serde.tooGreat := by
        have : ((n : Nat) : Int) < 2 ^ 63 := high
        exact (show n < 2 ^ 63 by omega).trans (by decide)
      simp only [integer, Nat.ofDigitChars_ten_toDigits, Bool.false_eq_true, if_false, if_pos small]
    obtain ⟨c, rest, starts, digit⟩ := digitsOpen n
    have other {d : Char} : d.isDigit = false → c ≠ d := digitPlain digit
    rw [value, starts, List.cons_append] at number
    rw [writeInt, starts, List.cons_append, readValue, skipPlain _ ⟨other rfl, other rfl, other rfl, other rfl⟩]
    split
    case h_8 => exact number
    all_goals
      next same =>
      cases same
      cases digit

section Sequences
variable {item : List Char → Option (Value String × List Char)}

theorem readItems {items : List (Value String)} (some : items ≠ [])
    (each : ∀ v ∈ items, ∀ tail, Closed tail → item (v.write ++ tail) = .some (v, tail)) (tail : List Char) :
    ∀ n, items.length ≤ n → readElements item n (writeItems items ++ tail) = .some (items, tail) := by
  induction items with
  | nil => exact absurd rfl some
  | cons v more ih =>
    intro n enough
    obtain ⟨n, rfl⟩ : ∃ m, n = m + 1 := ⟨n - 1, by simp only [List.length_cons] at enough; omega⟩
    have here {c : Char} (ends : c = ',' ∨ c = ']' ∨ c = '\x7d') (rest : List Char) :
        item (v.write ++ c :: rest) = .some (v, c :: rest) :=
      each v List.mem_cons_self _ (closedCons ends)
    cases more with
    | nil =>
      rw [writeItems, List.append_assoc, List.singleton_append, readElements]
      simp [here (.inr (.inl rfl)), skipPlain]
    | cons w more =>
      have rest := ih (List.cons_ne_nil w more) (fun u member => each u (List.mem_cons_of_mem _ member)) n
        (by simp only [List.length_cons] at enough ⊢; omega)
      rw [writeItems, List.append_assoc, List.cons_append, readElements]
      simp [here (.inl rfl), skipPlain, rest]

theorem readMemberList {fields : List (String × Value String)} (some : fields ≠ [])
    (each : ∀ f ∈ fields, ∀ tail, Closed tail → item (f.2.write ++ tail) = .some (f.2, tail)) (tail : List Char) :
    ∀ n, fields.length ≤ n → readMembers .serde item n (writeMembers fields ++ tail) = .some (fields, tail) := by
  induction fields with
  | nil => exact absurd rfl some
  | cons f more ih =>
    intro n enough
    obtain ⟨n, rfl⟩ : ∃ m, n = m + 1 := ⟨n - 1, by simp only [List.length_cons] at enough; omega⟩
    obtain ⟨key, v⟩ := f
    have here {c : Char} (ends : c = ',' ∨ c = ']' ∨ c = '\x7d') (rest : List Char) :
        item (v.write ++ c :: rest) = .some (v, c :: rest) :=
      each (key, v) List.mem_cons_self _ (closedCons ends)
    cases more with
    | nil =>
      rw [writeMembers, writeMember, List.append_assoc, List.append_assoc, List.cons_append, List.singleton_append,
        readMembers, quotedAppend, skipPlain _ (by decide)]
      simp [readKey, skipPlain, here (.inr (.inr rfl))]
    | cons g more =>
      have rest := ih (List.cons_ne_nil g more) (fun h member => each h (List.mem_cons_of_mem _ member)) n
        (by simp only [List.length_cons] at enough ⊢; omega)
      rw [writeMembers, writeMember, List.append_assoc, List.append_assoc, List.cons_append, List.cons_append,
        readMembers, quotedAppend, skipPlain _ (by decide)]
      simp [readKey, skipPlain, here (.inl rfl), rest]

theorem itemsLength (items : List (Value String)) :
    items.length ≤ (writeItems items).length ∧ ∀ v ∈ items, v.write.length < (writeItems items).length := by
  induction items with
  | nil => simp
  | cons v more ih =>
    cases more with
    | nil => simp [writeItems]
    | cons w more =>
      simp only [writeItems, List.length_append, List.length_cons] at ih ⊢
      refine ⟨by omega, fun u member => ?_⟩
      rcases List.mem_cons.mp member with rfl | later
      · omega
      · have := ih.2 u later
        omega

theorem memberLength (f : String × Value String) : f.2.write.length < (writeMember f).length := by
  obtain ⟨key, v⟩ := f
  simp only [writeMember, List.length_append, List.length_cons]
  omega

theorem membersLength (fields : List (String × Value String)) :
    fields.length ≤ (writeMembers fields).length ∧ ∀ f ∈ fields, f.2.write.length < (writeMembers fields).length := by
  induction fields with
  | nil => simp
  | cons f more ih =>
    have longer := memberLength f
    cases more with
    | nil =>
      simp only [writeMembers, List.length_append, List.length_cons]
      refine ⟨by omega, fun g member => ?_⟩
      cases List.mem_singleton.mp member
      omega
    | cons g more =>
      simp only [writeMembers, List.length_append, List.length_cons] at ih ⊢
      refine ⟨by omega, fun h member => ?_⟩
      rcases List.mem_cons.mp member with rfl | later
      · omega
      · have := ih.2 h later
        omega

theorem itemsOpen {v : Value String} (exact : Exact v) (more : List (Value String)) (tail : List Char) :
    Opens (writeItems (v :: more) ++ tail) := by
  obtain ⟨c, rest, starts, plain, first⟩ := exactOpens exact
  cases more <;> exact ⟨c, _, by rw [writeItems, starts]; rfl, plain, first⟩

theorem membersOpen (f : String × Value String) (more : List (String × Value String)) (tail : List Char) :
    ∃ rest, writeMembers (f :: more) ++ tail = '\x22' :: rest := by
  obtain ⟨key, v⟩ := f
  cases more <;> exact ⟨_, by rw [writeMembers, writeMember, quoted]; rfl⟩

end Sequences

theorem readWrite {v : Value String} (exact : Exact v) :
    ∀ fuel tail, v.write.length < fuel → Closed tail → readValue .serde fuel (v.write ++ tail) = some (v, tail) := by
  induction exact with
  | null | bool b =>
    rintro (_ | fuel) tail enough -
    · exact absurd enough (Nat.not_lt_zero _)
    · first
      | rfl
      | cases b <;> rfl
  | int low high =>
    rintro (_ | fuel) tail enough closed
    · exact absurd enough (Nat.not_lt_zero _)
    · rw [Value.write]
      exact readInt low high closed fuel
  | string s =>
    rintro (_ | fuel) tail enough -
    · exact absurd enough (Nat.not_lt_zero _)
    · rw [Value.write]
      exact readQuoted .serde s tail fuel
  | @array items all ih =>
    rintro (_ | fuel) tail enough -
    · exact absurd enough (Nat.not_lt_zero _)
    · have sizes := itemsLength items
      rw [Value.write, List.length_cons] at enough
      rw [Value.write, List.cons_append, readValue, skipPlain _ (by decide)]
      cases items with
      | nil => simp [writeItems, skipPlain]
      | cons w more =>
        have items := @readItems (readValue .serde fuel) (w :: more) (List.cons_ne_nil _ _)
          (fun u member tail closed => ih u member fuel tail (by have := sizes.2 u member; omega) closed) tail fuel
          (by omega)
        -- no item begins like the end of an array, so the reader goes on to the items
        obtain ⟨c, rest, starts, plain, first⟩ := itemsOpen (all w List.mem_cons_self) more tail
        simp only [starts, skipPlain rest plain] at items ⊢
        split
        · rename_i same
          exact absurd (List.cons.inj same).1 first
        · rw [items]
          rfl
  | @object fields all ih =>
    rintro (_ | fuel) tail enough -
    · exact absurd enough (Nat.not_lt_zero _)
    · have sizes := membersLength fields
      rw [Value.write, List.length_cons] at enough
      rw [Value.write, List.cons_append, readValue, skipPlain _ (by decide)]
      cases fields with
      | nil => simp [writeMembers, skipPlain]
      | cons f more =>
        have members := @readMemberList (readValue .serde fuel) (f :: more) (List.cons_ne_nil _ _)
          (fun g member tail closed => ih g member fuel tail (by have := sizes.2 g member; omega) closed) tail fuel
          (by omega)
        obtain ⟨rest, starts⟩ := membersOpen f more tail
        simp only [starts, skipPlain rest (c := '\x22') (by decide)] at members ⊢
        rw [members]
        rfl

theorem decodeEncode {v : Value String} (exact : Exact v) : Dialect.serde.decode (encode v) = some v := by
  have read := readWrite exact (v.write.length + 1) [] (Nat.lt_succ_self _) closedNil
  rw [List.append_nil] at read
  rw [Dialect.decode, encode, String.length_ofList, String.toList_ofList, read]
  rfl

/-! No character of the text is a control character. -/

theorem itemsHigh {items : List (Value String)} (each : ∀ v ∈ items, High v.write) : High (writeItems items) := by
  induction items with
  | nil => exact highCons (by decide) highNil
  | cons v more ih =>
    have first := each v List.mem_cons_self
    cases more with
    | nil =>
      rw [writeItems]
      exact highAppend first (highCons (by decide) highNil)
    | cons w more =>
      rw [writeItems]
      exact highAppend first (highCons (by decide) (ih fun u member => each u (List.mem_cons_of_mem _ member)))

theorem membersHigh {fields : List (String × Value String)} (each : ∀ f ∈ fields, High f.2.write) :
    High (writeMembers fields) := by
  induction fields with
  | nil => exact highCons (by decide) highNil
  | cons f more ih =>
    obtain ⟨key, v⟩ := f
    have first : High (writeMember (key, v)) := by
      rw [writeMember]
      exact highAppend (quotedHigh key) (highCons (by decide) (each (key, v) List.mem_cons_self))
    cases more with
    | nil =>
      rw [writeMembers]
      exact highAppend first (highCons (by decide) highNil)
    | cons g more =>
      rw [writeMembers]
      exact highAppend first (highCons (by decide) (ih fun h member => each h (List.mem_cons_of_mem _ member)))

theorem exactHigh {v : Value String} (exact : Exact v) : High v.write := by
  induction exact with
  | null =>
    rw [Value.write]
    exact highCons (by decide) (highCons (by decide) (highCons (by decide) (highCons (by decide) highNil)))
  | bool b =>
    cases b with
    | false =>
      rw [Value.write]
      refine highCons (by decide) (highCons (by decide) (highCons (by decide) ?_))
      exact highCons (by decide) (highCons (by decide) highNil)
    | true =>
      rw [Value.write]
      exact highCons (by decide) (highCons (by decide) (highCons (by decide) (highCons (by decide) highNil)))
  | @int n =>
    rw [Value.write]
    cases n with
    | ofNat n => exact digitsHigh n
    | negSucc n => exact highCons (by decide) (digitsHigh (n + 1))
  | string s =>
    rw [Value.write]
    exact quotedHigh s
  | array all ih =>
    rw [Value.write]
    exact highCons (by decide) (itemsHigh ih)
  | object all ih =>
    rw [Value.write]
    exact highCons (by decide) (membersHigh ih)

end RkQuic.Json
