import RkQuic.Utf16
import Mathlib.Data.Int.Notation

/-! JSON text: a flat object written without blanks, and the reading of any text. A value is
followed by a tail that is kept general, so that one lemma serves at every depth. Nothing
here knows what the fields are. -/
namespace RkQuic.Json

/- A number with a fraction, an exponent or too many digits is a `double`, kept as its text. -/
inductive Value (T : Type) where
  | null
  | bool (b : Bool)
  | int (n : Int)
  | double (text : String)
  | string (s : T)
  | array (items : List (Value T))
  | object (fields : List (T × Value T))

/-- Where readers differ: from which number on there are no integers, whether `-0` is one, and which
code units are a string. -/
structure Dialect (T : Type) where
  tooGreat : Nat
  minusZero : Bool
  string : Units → Option T
  ofText : String → T
  reads : ∀ s, string (Utf16.encode s) = some (ofText s)

/- `jsonDecode` of dart:convert: an `int` has 64 bits and no sign of zero, and any code units are a string. -/
def Dialect.dart : Dialect Units := ⟨2 ^ 63, true, some, Utf16.encode, fun _ => rfl⟩

/- `serde_json`: a number may be a `u64`, `-0` is an `f64`, and a string is made of whole characters. -/
def Dialect.serde : Dialect String := ⟨2 ^ 64, false, Utf16.decode, id, Utf16.decodeEncode⟩

@[simp] theorem dartText (s : String) : Dialect.dart.ofText s = Utf16.encode s := rfl

@[simp] theorem serdeText (s : String) : Dialect.serde.ofText s = s := rfl

variable {T : Type} (d : Dialect T)

inductive Scalar where
  | nat (n : Nat)
  | text (s : String)
  deriving DecidableEq, Repr

def Scalar.value : Scalar → Value T
  | .nat n => .int n
  | .text s => .string (d.ofText s)

/-! Writing. -/

def hexDigit (n : Nat) : Char := Nat.digitChar n

def escape (c : Char) : List Char :=
  match c with
  | '\x22' => ['\\', '\x22']
  | '\\' => ['\\', '\\']
  | '\x08' => ['\\', 'b']
  | '\x0c' => ['\\', 'f']
  | '\n' => ['\\', 'n']
  | '\r' => ['\\', 'r']
  | '\t' => ['\\', 't']
  | c =>
    if c.toNat < 0x20 then ['\\', 'u', '0', '0', hexDigit (c.toNat / 16), hexDigit (c.toNat % 16)]
    else [c]

def quoted (s : String) : List Char := '\x22' :: s.toList.flatMap escape ++ ['\x22']

def Scalar.write : Scalar → List Char
  | .nat n => Nat.toDigits 10 n
  | .text s => quoted s

def writeField (f : String × Scalar) : List Char := quoted f.1 ++ ':' :: f.2.write

def writeFields : List (String × Scalar) → List Char
  | [] => []
  | [f] => writeField f
  | f :: g :: more => writeField f ++ ',' :: writeFields (g :: more)

def compact (fields : List (String × Scalar)) : String :=
  String.ofList ('\x7b' :: writeFields fields ++ ['\x7d'])

/-! Reading. -/

def skip : List Char → List Char := List.dropWhile fun c => c = ' ' ∨ c = '\t' ∨ c = '\n' ∨ c = '\r'

def hexValue (c : Char) : Option Nat :=
  if c.isDigit then some (c.toNat - 48)
  else if 'a' ≤ c ∧ c ≤ 'f' then some (c.toNat - 87)
  else if 'A' ≤ c ∧ c ≤ 'F' then some (c.toNat - 55)
  else none

def unit (a b c d : Char) : Option Nat := do
  let a ← hexValue a
  let b ← hexValue b
  let c ← hexValue c
  let d ← hexValue d
  return ((a * 16 + b) * 16 + c) * 16 + d

def unescape : Char → Option Char
  | '\x22' => some '\x22'
  | '\\' => some '\\'
  | '/' => some '/'
  | 'b' => some '\x08'
  | 'f' => some '\x0c'
  | 'n' => some '\n'
  | 'r' => some '\r'
  | 't' => some '\t'
  | _ => none

def push (units : Units) (done : Units × List Char) : Units × List Char := (units ++ done.1, done.2)

/- After the opening quote. An escape with four digits is one code unit, whatever comes beside it. -/
def readText : List Char → Option (Units × List Char)
  | [] => none
  | c :: rest =>
    if c = '\x22' then some ([], rest)
    else if c = '\\' then
      match rest with
      | 'u' :: a :: b :: x :: y :: more => (unit a b x y).bind fun n => (readText more).map (push [UInt16.ofNat n])
      | e :: more => (unescape e).bind fun c => (readText more).map (push (Utf16.unitsOf c))
      | [] => none
    else if c.toNat < 0x20 then none
    else (readText rest).map (push (Utf16.unitsOf c))

def readString (input : List Char) : Option (T × List Char) := do
  let (units, rest) ← readText input
  let s ← d.string units
  some (s, rest)

def integer (negative : Bool) (digits : List Char) : Value T :=
  let n := Nat.ofDigitChars 10 digits 0
  if negative then
    if n = 0 ∧ d.minusZero = false ∨ 2 ^ 63 < n then .double (String.ofList ('-' :: digits)) else .int (-n)
  else if n < d.tooGreat then .int n
  else .double (String.ofList digits)

def readFraction : List Char → Option (List Char × List Char)
  | '.' :: rest =>
    let (digits, rest) := rest.span Char.isDigit
    if digits = [] then none else some ('.' :: digits, rest)
  | rest => some ([], rest)

def readSign : List Char → List Char × List Char
  | '+' :: rest => (['+'], rest)
  | '-' :: rest => (['-'], rest)
  | rest => ([], rest)

def readExponent : List Char → Option (List Char × List Char)
  | c :: rest =>
    if c = 'e' ∨ c = 'E' then
      let (sign, rest) := readSign rest
      let (digits, rest) := rest.span Char.isDigit
      if digits = [] then none else some (c :: sign ++ digits, rest)
    else some ([], c :: rest)
  | [] => some ([], [])

def readNumber (negative : Bool) (input : List Char) : Option (Value T × List Char) := do
  let (whole, rest) := input.span Char.isDigit
  if whole = [] ∨ whole.head? = some '0' ∧ whole ≠ ['0'] then none
  let (fraction, rest) ← readFraction rest
  let (exponent, rest) ← readExponent rest
  if fraction = [] ∧ exponent = [] then some (integer d negative whole, rest)
  else some (.double (String.ofList ((if negative then ['-'] else []) ++ whole ++ fraction ++ exponent)), rest)

def readWord (word : List Char) (v : Value T) (input : List Char) : Option (Value T × List Char) :=
  if word.isPrefixOf input then some (v, input.drop word.length) else none

section Item
variable (item : List Char → Option (Value T × List Char))

def readElements : Nat → List Char → Option (List (Value T) × List Char)
  | 0, _ => none
  | n + 1, input => do
    let (v, rest) ← item input
    match skip rest with
    | ',' :: rest => do
      let (more, rest) ← readElements n rest
      some (v :: more, rest)
    | ']' :: rest => some ([v], rest)
    | _ => none

def readMembers : Nat → List Char → Option (List (T × Value T) × List Char)
  | 0, _ => none
  | n + 1, input =>
    match skip input with
    | '\x22' :: rest => do
      let (key, rest) ← readString d rest
      match skip rest with
      | ':' :: rest => do
        let (v, rest) ← item rest
        match skip rest with
        | ',' :: rest => do
          let (more, rest) ← readMembers n rest
          some ((key, v) :: more, rest)
        | '\x7d' :: rest => some ([(key, v)], rest)
        | _ => none
      | _ => none
    | _ => none

end Item

def readValue : Nat → List Char → Option (Value T × List Char)
  | 0, _ => none
  | n + 1, input =>
    match skip input with
    | '\x22' :: rest => (readString d rest).map fun (s, rest) => (.string s, rest)
    | '\x7b' :: rest =>
      match skip rest with
      | '\x7d' :: rest => some (.object [], rest)
      | _ => (readMembers d (readValue n) n rest).map fun (fields, rest) => (.object fields, rest)
    | '[' :: rest =>
      match skip rest with
      | ']' :: rest => some (.array [], rest)
      | _ => (readElements (readValue n) n rest).map fun (items, rest) => (.array items, rest)
    | 't' :: rest => readWord ['r', 'u', 'e'] (.bool true) rest
    | 'f' :: rest => readWord ['a', 'l', 's', 'e'] (.bool false) rest
    | 'n' :: rest => readWord ['u', 'l', 'l'] .null rest
    | '-' :: rest => readNumber d true rest
    | rest => readNumber d false rest

def Dialect.decode (text : String) : Option (Value T) :=
  match readValue d (text.length + 1) text.toList with
  | some (v, rest) => if skip rest = [] then some v else none
  | none => none

/-! What is written is read. -/

theorem unitLow : ∀ n < 0x20, unit '0' '0' (hexDigit (n / 16)) (hexDigit (n % 16)) = some n := by decide

theorem readPlain {c : Char} (tail : List Char) (quote : c ≠ '\x22') (backslash : c ≠ '\\')
    (low : ¬ c.toNat < 0x20) : readText (c :: tail) = (readText tail).map (push (Utf16.unitsOf c)) := by
  rw [readText.eq_def]
  simp only [if_neg quote, if_neg backslash, if_neg low]

theorem readEscape (c : Char) (tail : List Char) :
    readText (escape c ++ tail) = (readText tail).map (push (Utf16.unitsOf c)) := by
  unfold escape
  split
  · rfl
  · rfl
  · rfl
  · rfl
  · rfl
  · rfl
  · rfl
  · next quote backslash _ _ _ _ _ =>
    split
    · next low =>
      have small : c.toNat < 0x10000 := low.trans (by decide)
      have other : ('\\' : Char) ≠ '\x22' := by decide
      simp only [List.cons_append, List.nil_append, readText, if_neg other, if_true, unitLow _ low, Option.bind_some,
        Utf16.unitsOf, if_pos small]
    · next low =>
      exact readPlain tail quote backslash low

theorem readEscaped (s : List Char) (tail : List Char) :
    readText (s.flatMap escape ++ '\x22' :: tail) = some (s.flatMap Utf16.unitsOf, tail) := by
  induction s with
  | nil =>
    rw [List.flatMap_nil, List.nil_append, readText.eq_def]
    rfl
  | cons c s ih =>
    rw [List.flatMap_cons, List.append_assoc, readEscape, ih]
    rfl

theorem readKey (s : String) (tail : List Char) :
    readString d (s.toList.flatMap escape ++ '\x22' :: tail) = some (d.ofText s, tail) := by
  have whole : d.string (s.toList.flatMap Utf16.unitsOf) = some (d.ofText s) := d.reads s
  simp only [readString, readEscaped, Option.bind_eq_bind, Option.bind_some, whole]

theorem digitsSpan (n : Nat) {sep : Char} (tail : List Char) (stop : sep.isDigit = false) :
    (Nat.toDigits 10 n ++ sep :: tail).span Char.isDigit = (Nat.toDigits 10 n, sep :: tail) := by
  have all : ∀ c ∈ Nat.toDigits 10 n, c.isDigit = true :=
    fun c member => Nat.isDigit_of_mem_toDigits (by omega) (by omega) member
  rw [List.span_eq_takeWhile_dropWhile, List.takeWhile_append_of_pos all, List.dropWhile_append_of_pos all,
    List.takeWhile_cons_of_neg (by simp [stop]), List.dropWhile_cons_of_neg (by simp [stop]), List.append_nil]

theorem zeroLeads : ∀ n, (Nat.toDigits 10 n).head? = some '0' → Nat.toDigits 10 n = ['0'] := by
  intro n
  induction n using Nat.strong_induction_on with
  | _ n ih =>
    intro leads
    by_cases small : n < 10
    · rw [Nat.toDigits_of_lt_base small] at leads ⊢
      rw [List.head?_cons] at leads
      rw [Option.some.inj leads]
    · have split := Nat.toDigits_of_base_le (by omega : 1 < 10) (by omega : 10 ≤ n)
      rw [split, List.head?_append_of_ne_nil _ Nat.toDigits_ne_nil] at leads
      have alone := ih (n / 10) (by omega) leads
      have value : Nat.ofDigitChars 10 (Nat.toDigits 10 (n / 10)) 0 = n / 10 := Nat.ofDigitChars_ten_toDigits
      rw [alone] at value
      have zero : Nat.ofDigitChars 10 ['0'] 0 = 0 := by decide
      omega

def Ends (sep : Char) : Prop := sep = ',' ∨ sep = '\x7d'

theorem readNatural {n : Nat} (small : n < d.tooGreat) {sep : Char} (ends : Ends sep) (tail : List Char) :
    readNumber d false (Nat.toDigits 10 n ++ sep :: tail) = some (.int n, sep :: tail) := by
  have stop : sep.isDigit = false := by rcases ends with rfl | rfl <;> rfl
  have whole : ¬ (Nat.toDigits 10 n = [] ∨
      (Nat.toDigits 10 n).head? = some '0' ∧ Nat.toDigits 10 n ≠ ['0']) := by
    rintro (empty | ⟨leads, more⟩)
    · exact Nat.toDigits_ne_nil empty
    · exact more (zeroLeads n leads)
  have fraction : readFraction (sep :: tail) = some ([], sep :: tail) := by
    rcases ends with rfl | rfl <;> rfl
  have exponent : readExponent (sep :: tail) = some ([], sep :: tail) := by
    rcases ends with rfl | rfl <;> rfl
  have value : integer d false (Nat.toDigits 10 n) = .int n := by
    simp only [integer, Nat.ofDigitChars_ten_toDigits, Bool.false_eq_true, if_false, if_pos small]
  rw [readNumber, digitsSpan n tail stop]
  simp only [if_neg whole, fraction, exponent, value, Option.bind_eq_bind, Option.bind_some, and_self, if_true]

theorem skipPlain {c : Char} (tail : List Char) (plain : c ≠ ' ' ∧ c ≠ '\t' ∧ c ≠ '\n' ∧ c ≠ '\r') :
    skip (c :: tail) = c :: tail := by
  rw [skip, List.dropWhile_cons_of_neg]
  simp [plain]

theorem digitPlain {c : Char} (digit : c.isDigit = true) {d : Char} (other : d.isDigit = false) : c ≠ d := by
  rintro rfl
  rw [digit] at other
  cases other

theorem readDigits {n : Nat} (small : n < d.tooGreat) {sep : Char} (ends : Ends sep) (tail : List Char) (fuel : Nat) :
    readValue d (fuel + 1) (Nat.toDigits 10 n ++ sep :: tail) = some (.int n, sep :: tail) := by
  have number := readNatural d small ends tail
  cases digits : Nat.toDigits 10 n with
  | nil => exact absurd digits Nat.toDigits_ne_nil
  | cons c more =>
    have digit : c.isDigit = true :=
      Nat.isDigit_of_mem_toDigits (b := 10) (n := n) (by omega) (by omega) (by rw [digits]; exact List.mem_cons_self)
    have other {d : Char} : d.isDigit = false → c ≠ d := digitPlain digit
    rw [digits, List.cons_append] at number
    rw [List.cons_append, readValue, skipPlain _ ⟨other rfl, other rfl, other rfl, other rfl⟩]
    split
    case h_8 => exact number
    all_goals
      next same =>
      cases same
      cases digit

theorem quotedAppend (s : String) (tail : List Char) :
    quoted s ++ tail = '\x22' :: (s.toList.flatMap escape ++ '\x22' :: tail) := by
  simp [quoted]

theorem readQuoted (s : String) (tail : List Char) (fuel : Nat) :
    readValue d (fuel + 1) (quoted s ++ tail) = some (.string (d.ofText s), tail) := by
  have text := readKey d s tail
  rw [readValue, quotedAppend, skipPlain _ (by decide)]
  simp [text]

theorem readScalar {v : Scalar} (small : ∀ n, v = .nat n → n < d.tooGreat) {sep : Char} (ends : Ends sep)
    (tail : List Char) (fuel : Nat) :
    readValue d (fuel + 1) (v.write ++ sep :: tail) = some (v.value d, sep :: tail) := by
  cases v with
  | nat n => exact readDigits d (small n rfl) ends tail fuel
  | text s => exact readQuoted d s _ fuel

theorem endsSkip {sep : Char} (ends : Ends sep) (tail : List Char) : skip (sep :: tail) = sep :: tail := by
  rcases ends with rfl | rfl
  · exact skipPlain tail (by decide)
  · exact skipPlain tail (by decide)

def Dialect.field (f : String × Scalar) : T × Value T := (d.ofText f.1, f.2.value d)

theorem readFields {fields : List (String × Scalar)} (some : fields ≠ [])
    (small : ∀ f ∈ fields, ∀ n, f.2 = .nat n → n < d.tooGreat) (tail : List Char) (fuel : Nat) :
    ∀ n, fields.length ≤ n →
      readMembers d (readValue d (fuel + 1)) n (writeFields fields ++ '\x7d' :: tail) =
        .some (fields.map d.field, tail) := by
  induction fields with
  | nil => exact absurd rfl some
  | cons f more ih =>
    intro n enough
    obtain ⟨n, rfl⟩ : ∃ m, n = m + 1 := ⟨n - 1, by simp only [List.length_cons] at enough; omega⟩
    have here {sep : Char} (ends : Ends sep) (rest : List Char) :
        readValue d (fuel + 1) (f.2.write ++ sep :: rest) = .some (f.2.value d, sep :: rest) :=
      readScalar d (small f List.mem_cons_self) ends rest fuel
    cases more with
    | nil =>
      have ends : Ends '\x7d' := .inr rfl
      rw [writeFields, writeField, List.append_assoc, List.cons_append, readMembers, quotedAppend,
        skipPlain _ (by decide)]
      simp [readKey, skipPlain, here ends, endsSkip ends, Dialect.field]
    | cons g more =>
      have ends : Ends ',' := .inl rfl
      have rest := ih (List.cons_ne_nil g more) (fun h hh => small h (List.mem_cons_of_mem _ hh)) n
        (by simp only [List.length_cons] at enough ⊢; omega)
      rw [writeFields, writeField, List.append_assoc, List.append_assoc, List.cons_append, List.cons_append,
        readMembers, quotedAppend, skipPlain _ (by decide)]
      simp [readKey, skipPlain, here ends, endsSkip ends, Dialect.field, rest]

theorem fieldsLength (fields : List (String × Scalar)) : fields.length ≤ (writeFields fields).length := by
  induction fields with
  | nil => exact le_rfl
  | cons f more ih =>
    cases more with
    | nil => simp [writeFields, writeField, quoted]
    | cons g more =>
      rw [writeFields, List.length_append, List.length_cons, List.length_cons]
      exact (Nat.succ_le_succ ih).trans (Nat.le_add_left ..)

theorem writeFieldsHead {fields : List (String × Scalar)} (some : fields ≠ []) :
    ∃ rest, writeFields fields = '\x22' :: rest := by
  match fields, some with
  | [f], _ => exact ⟨_, by rw [writeFields, writeField, quotedAppend]⟩
  | f :: g :: more, _ =>
    exact ⟨_, by rw [writeFields, writeField, List.append_assoc, List.cons_append, quotedAppend]⟩

theorem decodeCompact {fields : List (String × Scalar)} (some : fields ≠ [])
    (small : ∀ f ∈ fields, ∀ n, f.2 = .nat n → n < d.tooGreat) :
    d.decode (compact fields) = .some (.object (fields.map d.field)) := by
  obtain ⟨rest, starts⟩ := writeFieldsHead some
  have size : (compact fields).length = (writeFields fields).length + 1 + 1 := by
    rw [compact, String.length_ofList]
    simp
  have enough : fields.length ≤ (writeFields fields).length + 1 + 1 := by
    have := fieldsLength fields
    omega
  have members := readFields d some small [] ((writeFields fields).length + 1) _ enough
  have text : (compact fields).toList = '\x7b' :: (writeFields fields ++ ['\x7d']) := by
    rw [compact, String.toList_ofList, List.cons_append]
  have whole : readValue d ((compact fields).length + 1) (compact fields).toList =
      .some (.object (fields.map d.field), []) := by
    have skipped : skip (writeFields fields ++ ['\x7d']) = '\x22' :: (rest ++ ['\x7d']) := by
      rw [starts, List.cons_append, skipPlain _ (by decide)]
    rw [text, size, readValue, skipPlain _ (by decide)]
    simp only [skipped]
    exact congrArg (Option.map _) members
  rw [Dialect.decode, whole]
  rfl

theorem hexDigitHigh : ∀ n < 16, 0x20 ≤ (hexDigit n).toNat := by decide

def High (text : List Char) : Prop := ∀ c ∈ text, 0x20 ≤ c.toNat

theorem highNil : High [] := fun _ member => absurd member List.not_mem_nil

theorem highCons {c : Char} {text : List Char} (first : 0x20 ≤ c.toNat) (rest : High text) : High (c :: text) := by
  intro d member
  rcases List.mem_cons.mp member with rfl | member
  · exact first
  · exact rest d member

theorem highAppend {text more : List Char} (first : High text) (rest : High more) : High (text ++ more) := by
  intro c member
  rcases List.mem_append.mp member with member | member
  · exact first c member
  · exact rest c member

theorem escapeHigh (c : Char) : High (escape c) := by
  unfold escape
  split
  all_goals try exact highCons (by decide) (highCons (by decide) highNil)
  next =>
  split
  · next low =>
    have ones := hexDigitHigh (c.toNat % 16) (by omega)
    have tens := hexDigitHigh (c.toNat / 16) (by omega)
    exact highCons (by decide) (highCons (by decide) (highCons (by decide) (highCons (by decide)
      (highCons tens (highCons ones highNil)))))
  · next high => exact highCons (by omega) highNil

theorem quotedHigh (s : String) : High (quoted s) := by
  refine highAppend (highCons (by decide) ?_) (highCons (by decide) highNil)
  intro d member
  obtain ⟨c, -, member⟩ := List.mem_flatMap.mp member
  exact escapeHigh c d member

theorem digitsHigh (n : Nat) : High (Nat.toDigits 10 n) := by
  intro c member
  have digit := Nat.isDigit_of_mem_toDigits (by omega) (by omega) member
  rw [Char.isDigit, Bool.and_eq_true, decide_eq_true_eq, decide_eq_true_eq] at digit
  have first : ('0' : Char).toNat ≤ c.toNat := digit.1
  exact (by decide : 0x20 ≤ ('0' : Char).toNat).trans first

theorem fieldHigh (f : String × Scalar) : High (writeField f) := by
  refine highAppend (quotedHigh f.1) (highCons (by decide) ?_)
  cases f.2 with
  | nat n => exact digitsHigh n
  | text s => exact quotedHigh s

theorem fieldsHigh (fields : List (String × Scalar)) : High (writeFields fields) := by
  induction fields with
  | nil => exact highNil
  | cons f more ih =>
    cases more with
    | nil => exact fieldHigh f
    | cons g more => exact highAppend (fieldHigh f) (highCons (by decide) ih)

theorem compactHigh (fields : List (String × Scalar)) : High (compact fields).toList := by
  rw [compact, String.toList_ofList]
  exact highAppend (highCons (by decide) (fieldsHigh fields)) (highCons (by decide) highNil)

end RkQuic.Json
