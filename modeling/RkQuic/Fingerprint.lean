import RkQuic.ClientConfig

/-! Which texts are taken for a fingerprint, and which bytes they give. -/
namespace RkQuic.Config
open Ffi Outcomes Str

def hexDigits : List Char := "0123456789abcdefABCDEF".toList

def Ascii (chars : List Char) : Prop := ∀ c ∈ chars, c.toNat < 128

def byteOf (c : Char) : UInt8 := UInt8.ofNat c.toNat

def HexText (chars : List Char) : Prop := chars.length = 64 ∧ ∀ c ∈ chars, c ∈ hexDigits

def Taken (x y : Char) : Prop := (x ∈ hexDigits ∨ x = '+') ∧ y ∈ hexDigits

/-- 32 pairs that are taken, one of them with a plus sign. -/
def PlusText (chars : List Char) : Prop :=
  chars.length = 64 ∧ (∀ i x y, chars[i * 2]? = some x → chars[i * 2 + 1]? = some y → Taken x y) ∧
    ∃ i : Nat, chars[i * 2]? = some '+'

theorem encodeAscii {chars : List Char} (ascii : Ascii chars) :
    Utf8.encode (String.ofList chars) = chars.map byteOf := by
  rw [Utf8.encodeOfList]
  induction chars with
  | nil => rfl
  | cons c chars ih =>
    have small : c.toNat < 128 := ascii c (by simp)
    have one : String.utf8EncodeChar c = [byteOf c] := by
      have low : c.val.toNat ≤ 0x7f := Nat.le_of_lt_succ small
      simp only [String.utf8EncodeChar, if_pos low]
      rfl
    rw [List.flatMap_cons, one, ih fun d h => ascii d (List.mem_cons_of_mem _ h)]
    rfl

theorem trimAscii {text : String} (ascii : Ascii text.toList) : Ascii (trim text).toList := by
  intro c member
  rw [trim, String.toList_ofList, List.mem_reverse] at member
  have inside := (List.dropWhile_sublist _).subset member
  exact ascii c ((List.dropWhile_sublist _).subset (List.mem_reverse.mp inside))

theorem encodeTrimmed {text : String} (ascii : Ascii text.toList) :
    Utf8.encode (trim text) = (trim text).toList.map byteOf := by
  conv_lhs => rw [← String.ofList_toList (s := trim text)]
  exact encodeAscii (trimAscii ascii)

theorem digitIff {c : Char} (ascii : c.toNat < 128) : toDigit (byteOf c) ≠ none ↔ c ∈ hexDigits := by
  have all : ∀ n, n < 128 → (toDigit (byteOf (Char.ofNat n)) ≠ none ↔ Char.ofNat n ∈ hexDigits) := by decide +kernel
  have := all c.toNat ascii
  rwa [Char.ofNat_toNat] at this

theorem plusByte {c : Char} (ascii : c.toNat < 128) : byteOf c = 0x2B ↔ c = '+' := by
  have all : ∀ n, n < 128 → (byteOf (Char.ofNat n) = 0x2B ↔ Char.ofNat n = '+') := by decide +kernel
  have := all c.toNat ascii
  rwa [Char.ofNat_toNat] at this

theorem digitLetter {x y : Char} (hexX : x ∈ hexDigits) (hexY : y ∈ hexDigits) :
    toDigit (byteOf x) = toDigit (byteOf y) ↔ x.toLower = y.toLower := by
  -- as Booleans, which the kernel evaluates one after the other
  have all : (hexDigits.all fun x => hexDigits.all fun y =>
      decide (toDigit (byteOf x) = toDigit (byteOf y) ↔ x.toLower = y.toLower)) = true := by decide +kernel
  have row := List.all_eq_true.mp all x hexX
  exact of_decide_eq_true (List.all_eq_true.mp row y hexY)

theorem takenIff {x y : Char} (asciiX : x.toNat < 128) (asciiY : y.toNat < 128) :
    fromStrRadix [byteOf x, byteOf y] ≠ none ↔ Taken x y := by
  rw [Option.ne_none_iff_exists', Taken, ← digitIff asciiX, ← digitIff asciiY, ← plusByte asciiX]
  simp only [pairRead, Option.ne_none_iff_exists']
  constructor
  · rintro ⟨v, ⟨a, b, first, second, -⟩ | ⟨plus, b, second, -⟩⟩
    · exact ⟨.inl ⟨a, first⟩, b, second⟩
    · exact ⟨.inr plus, b, second⟩
  · rintro ⟨⟨a, first⟩ | plus, b, second⟩
    · exact ⟨_, .inl ⟨a, b, first, second, rfl⟩⟩
    · exact ⟨_, .inr ⟨plus, b, second, rfl⟩⟩

theorem pairOf {chars : List Char} {i : Nat} {x y : Char} (first : chars[i * 2]? = some x)
    (second : chars[i * 2 + 1]? = some y) : pairAt (chars.map byteOf) i = [byteOf x, byteOf y] := by
  have moreThan : i * 2 + 1 < chars.length := (List.getElem?_eq_some_iff.mp second).1
  rw [pairAt, ← List.map_drop, ← List.map_take, List.drop_eq_getElem_cons (by omega),
    List.drop_eq_getElem_cons moreThan]
  rw [List.getElem?_eq_getElem (by omega)] at first second
  cases first
  cases second
  rfl

theorem pairExists {chars : List Char} (long : chars.length = 64) {i : Nat} (less : i < 32) :
    ∃ x y, chars[i * 2]? = some x ∧ chars[i * 2 + 1]? = some y :=
  ⟨_, _, List.getElem?_eq_getElem (by omega), List.getElem?_eq_getElem (by omega)⟩

def TakenText (chars : List Char) : Prop :=
  chars.length = 64 ∧ ∀ i x y, chars[i * 2]? = some x → chars[i * 2 + 1]? = some y → Taken x y

theorem acceptedIff (debug : String → String) {text : String} (ascii : Ascii text.toList) :
    (∃ hash, parseHash debug text = .ok hash) ↔ TakenText (trim text).toList := by
  have inside := trimAscii ascii
  have reads : ∀ i x y, (trim text).toList[i * 2]? = some x → (trim text).toList[i * 2 + 1]? = some y →
      (Reads ((trim text).toList.map byteOf) i ↔ Taken x y) := by
    intro i x y first second
    rw [Reads, pairOf first second]
    exact takenIff (inside x (List.mem_of_getElem? first)) (inside y (List.mem_of_getElem? second))
  simp only [parseHash, encodeTrimmed ascii, List.length_map, TakenText]
  split
  · rename_i long
    simp [long]
  · rename_i long
    have long : (trim text).toList.length = 64 := not_not.mp long
    constructor
    · rintro ⟨hash, accepted⟩
      refine ⟨long, fun i x y first second => ?_⟩
      have less : i < 32 := by
        have := (List.getElem?_eq_some_iff.mp second).1
        omega
      obtain ⟨byte, pair, -⟩ := hashReads debug (i := 0) (startBoundary _) accepted i less
      rw [Nat.zero_add] at pair
      exact (reads i x y first second).mp (by rw [Reads, pair]; simp)
    · rintro ⟨-, taken⟩
      refine hashAccepts debug (startBoundary _) fun j less => ?_
      rw [Nat.zero_add]
      refine ⟨asciiBoundary (fun b member => ?_) (by rw [List.length_map]; omega), ?_⟩
      · obtain ⟨c, here, rfl⟩ := List.mem_map.mp member
        have small := inside c here
        rw [byteOf, UInt8.toNat_ofNat']
        omega
      · obtain ⟨x, y, first, second⟩ := pairExists long less
        exact (reads j x y first second).mpr (taken j x y first second)

theorem hexTaken {chars : List Char} (hex : HexText chars) : TakenText chars :=
  ⟨hex.1, fun _ x y first second =>
    ⟨.inl (hex.2 x (List.mem_of_getElem? first)), hex.2 y (List.mem_of_getElem? second)⟩⟩

theorem takenSplit {chars : List Char} : TakenText chars ↔ HexText chars ∨ PlusText chars := by
  constructor
  · rintro ⟨long, taken⟩
    by_cases plus : ∃ i : Nat, chars[i * 2]? = some '+'
    · exact .inr ⟨long, taken, plus⟩
    · refine .inl ⟨long, fun c member => ?_⟩
      obtain ⟨k, less, rfl⟩ := List.getElem_of_mem member
      obtain ⟨x, y, first, second⟩ := pairExists long (i := k / 2) (by omega)
      obtain ⟨head, last⟩ := taken _ x y first second
      rcases Nat.mod_two_eq_zero_or_one k with even | odd
      · rw [show k / 2 * 2 = k by omega, List.getElem?_eq_getElem less] at first
        cases first
        refine head.resolve_right fun same => plus ⟨k / 2, ?_⟩
        rw [show k / 2 * 2 = k by omega, List.getElem?_eq_getElem less, same]
      · rw [show k / 2 * 2 + 1 = k by omega, List.getElem?_eq_getElem less] at second
        cases second
        exact last
  · rintro (hex | ⟨long, taken, -⟩)
    · exact hexTaken hex
    · exact ⟨long, taken⟩

theorem plusNotHex {chars : List Char} (plus : PlusText chars) : ¬ HexText chars := by
  obtain ⟨-, -, i, here⟩ := plus
  exact fun hex => absurd (hex.2 _ (List.mem_of_getElem? here)) (by decide)

theorem asciiNoPanic (debug : String → String) {text : String} (ascii : Ascii text.toList) :
    parseHash debug text ≠ .panicked := by
  rw [Ne, hashPanics, encodeTrimmed ascii]
  rintro ⟨long, j, less, -, inside⟩
  rw [asciiBoundary (fun b member => ?_) (by omega)] at inside
  · cases inside
  · obtain ⟨c, here, rfl⟩ := List.mem_map.mp member
    have small := trimAscii ascii c here
    rw [byteOf, UInt8.toNat_ofNat']
    omega

theorem hashAt {debug : String → String} {text : String} (ascii : Ascii text.toList) {hash : Sized 32}
    (accepted : parseHash debug text = .ok hash) (hex : HexText (trim text).toList) {i : Nat} (less : i < 32) :
    ∃ x y a b, (trim text).toList[i * 2]? = some x ∧ (trim text).toList[i * 2 + 1]? = some y ∧
      x ∈ hexDigits ∧ y ∈ hexDigits ∧ toDigit (byteOf x) = some a ∧ toDigit (byteOf y) = some b ∧
      hash.1[i]? = some (UInt8.ofNat (a * 16 + b)) := by
  simp only [parseHash, encodeTrimmed ascii, List.length_map, ne_eq, hex.1, not_true_eq_false, if_false] at accepted
  obtain ⟨byte, pair, there⟩ := hashReads debug (i := 0) (startBoundary _) accepted i less
  obtain ⟨x, y, first, second⟩ := pairExists hex.1 less
  have hexX := hex.2 x (List.mem_of_getElem? first)
  have hexY := hex.2 y (List.mem_of_getElem? second)
  have inside := trimAscii ascii
  have smallX := inside x (List.mem_of_getElem? first)
  rw [Nat.zero_add, pairOf first second, pairRead] at pair
  rcases pair with ⟨a, b, high, low, rfl⟩ | ⟨plus, -⟩
  · exact ⟨x, y, a, b, first, second, hexX, hexY, high, low, there⟩
  · exact absurd ((plusByte smallX).mp plus ▸ hexX) (by decide)

theorem byteDigits {a b c d : Nat} (smallA : a < 16) (smallB : b < 16) (smallC : c < 16) (smallD : d < 16) :
    UInt8.ofNat (a * 16 + b) = UInt8.ofNat (c * 16 + d) ↔ a = c ∧ b = d := by
  rw [← UInt8.toNat_inj, UInt8.toNat_ofNat', UInt8.toNat_ofNat']
  omega

theorem sameLetters {chars other : List Char} (long : chars.length = 64) (long' : other.length = 64) :
    chars.map Char.toLower = other.map Char.toLower ↔ ∀ i < 32, ∀ x y x' y', chars[i * 2]? = some x →
      chars[i * 2 + 1]? = some y → other[i * 2]? = some x' → other[i * 2 + 1]? = some y' →
      x.toLower = x'.toLower ∧ y.toLower = y'.toLower := by
  constructor
  · intro same i less x y x' y' first second first' second'
    have at_ : ∀ k : Nat, (chars[k]?).map Char.toLower = (other[k]?).map Char.toLower := fun k => by
      rw [← List.getElem?_map, ← List.getElem?_map, same]
    have head := at_ (i * 2)
    have last := at_ (i * 2 + 1)
    rw [first, first'] at head
    rw [second, second'] at last
    exact ⟨Option.some.inj head, Option.some.inj last⟩
  · intro pairs
    refine List.ext_getElem (by simp [long, long']) fun k less less' => ?_
    simp only [List.length_map] at less less'
    obtain ⟨x, y, first, second⟩ := pairExists long (i := k / 2) (by omega)
    obtain ⟨x', y', first', second'⟩ := pairExists long' (i := k / 2) (by omega)
    obtain ⟨head, last⟩ := pairs (k / 2) (by omega) x y x' y' first second first' second'
    rw [List.getElem_map, List.getElem_map]
    rcases Nat.mod_two_eq_zero_or_one k with even | odd
    · have whole : k / 2 * 2 = k := by omega
      rw [whole, List.getElem?_eq_getElem (by omega)] at first first'
      rw [Option.some.inj first, Option.some.inj first']
      exact head
    · have whole : k / 2 * 2 + 1 = k := by omega
      rw [whole, List.getElem?_eq_getElem (by omega)] at second second'
      rw [Option.some.inj second, Option.some.inj second']
      exact last

theorem sameHash {debug : String → String} {text other : String} (ascii : Ascii text.toList)
    (ascii' : Ascii other.toList) {hash hash' : Sized 32} (accepted : parseHash debug text = .ok hash)
    (accepted' : parseHash debug other = .ok hash') (hex : HexText (trim text).toList)
    (hex' : HexText (trim other).toList) :
    hash = hash' ↔ (trim text).toList.map Char.toLower = (trim other).toList.map Char.toLower := by
  have same : hash = hash' ↔ ∀ i < 32, hash.1[i]? = hash'.1[i]? := by
    refine ⟨fun same i _ => by rw [same], fun at_ => Subtype.ext (List.ext_getElem? fun i => ?_)⟩
    by_cases less : i < 32
    · exact at_ i less
    · rw [List.getElem?_eq_none (by have := hash.2; omega), List.getElem?_eq_none (by have := hash'.2; omega)]
  rw [same, sameLetters hex.1 hex'.1]
  refine forall₂_congr fun i less => ?_
  obtain ⟨x, y, a, b, first, second, hexX, hexY, high, low, there⟩ := hashAt ascii accepted hex less
  obtain ⟨x', y', a', b', first', second', hexX', hexY', high', low', there'⟩ := hashAt ascii' accepted' hex' less
  have letters := digitLetter hexX hexX'
  have letters' := digitLetter hexY hexY'
  rw [high, high', Option.some.injEq] at letters
  rw [low, low', Option.some.injEq] at letters'
  rw [there, there', Option.some.injEq, byteDigits (digitBelow high) (digitBelow low) (digitBelow high')
    (digitBelow low'), letters, letters']
  constructor
  · intro both u v u' v' firstU secondV firstU' secondV'
    cases first.symm.trans firstU
    cases second.symm.trans secondV
    cases first'.symm.trans firstU'
    cases second'.symm.trans secondV'
    exact both
  · intro all
    exact all x y x' y' first second first' second'

def Strict (debug : String → String) (text : String) : Prop :=
  ((∃ hash, parseHash debug text = .ok hash) → HexText (trim text).toList) ∧
    (¬ HexText (trim text).toList → ∃ message, parseHash debug text = .err (.invalidArgument, message))

theorem strictIff {debug : String → String} {text : String} (ascii : Ascii text.toList) :
    Strict debug text ↔ ¬ PlusText (trim text).toList := by
  have accepted := (acceptedIff debug ascii).trans takenSplit
  constructor
  · intro strict plus
    exact plusNotHex plus (strict.1 (accepted.mpr (.inr plus)))
  · intro noPlus
    refine ⟨fun ok => (accepted.mp ok).resolve_right noPlus, fun notHex => ?_⟩
    cases parsed : parseHash debug text with
    | ok hash => exact absurd (accepted.mp ⟨hash, parsed⟩) (by simp [notHex, noPlus])
    | err refusal =>
      have status := parseHashRefuses debug parsed
      exact ⟨refusal.2, by rw [← status]⟩
    | panicked => exact absurd parsed (asciiNoPanic debug ascii)

theorem onlyHexButPlus (debug : String → String) {text other : String} (ascii : Ascii text.toList)
    (ascii' : Ascii other.toList) :
    (Strict debug text ↔ ¬ PlusText (trim text).toList) ∧
    (¬ PlusText (trim text).toList → ¬ PlusText (trim other).toList →
      ∀ hash hash', parseHash debug text = .ok hash → parseHash debug other = .ok hash' →
        (hash = hash' ↔ (trim text).toList.map Char.toLower = (trim other).toList.map Char.toLower)) := by
  refine ⟨strictIff ascii, fun noPlus noPlus' hash hash' accepted accepted' => ?_⟩
  exact sameHash ascii ascii' accepted accepted' ((((acceptedIff debug ascii).trans takenSplit).mp
    ⟨hash, accepted⟩).resolve_right noPlus) ((((acceptedIff debug ascii').trans takenSplit).mp
    ⟨hash', accepted'⟩).resolve_right noPlus')

def published : String := "0123456789abcdef0123456789abcdef0123456789abcdef0123456789abcdef"

def publishedUpper : String := "0123456789ABCDEF0123456789ABCDEF0123456789ABCDEF0123456789ABCDEF"

def signed : String := "+a00000000000000000000000000000000000000000000000000000000000000"

theorem hexAll {chars : List Char} (full : chars.length = 64)
    (all : chars.all (fun c => decide (c ∈ hexDigits)) = true) : HexText chars :=
  ⟨full, fun c member => of_decide_eq_true (List.all_eq_true.mp all c member)⟩

theorem digitsAscii {chars : List Char} (hex : HexText chars) : Ascii chars := by
  have all : hexDigits.all (fun c => decide (c.toNat < 128)) = true := by decide
  exact fun c member => of_decide_eq_true (List.all_eq_true.mp all c (hex.2 c member))

def sixteen : List Char := ['0', '1', '2', '3', '4', '5', '6', '7', '8', '9', 'a', 'b', 'c', 'd', 'e', 'f']

def four (digits : List Char) : List Char := digits ++ digits ++ digits ++ digits

theorem publishedChars : published.toList = four sixteen := String.toList_ofList (l := four sixteen)

theorem publishedUpperChars : publishedUpper.toList = four (sixteen.map Char.toUpper) :=
  String.toList_ofList (l := four (sixteen.map Char.toUpper))

theorem publishedHex : HexText published.toList := by
  rw [publishedChars]
  exact hexAll rfl (by decide +kernel)

theorem publishedUpperHex : HexText publishedUpper.toList := by
  rw [publishedUpperChars]
  exact hexAll rfl (by decide +kernel)

theorem hexTrimmed {text : String} (hex : HexText text.toList) : (trim text).toList = text.toList := by
  have all : hexDigits.all (fun c => !isWhitespace c) = true := by decide
  have stays (chars : List Char) (digits : ∀ c ∈ chars, c ∈ hexDigits) : chars.dropWhile isWhitespace = chars := by
    cases chars with
    | nil => rfl
    | cons c more =>
      have inked := List.all_eq_true.mp all c (digits c List.mem_cons_self)
      exact List.dropWhile_cons_of_neg (by simpa using inked)
  rw [trim, String.toList_ofList, stays _ hex.2, stays _ fun c member => hex.2 c (List.mem_reverse.mp member),
    List.reverse_reverse]

theorem hexAccepted {text : String} (ascii : Ascii text.toList) (hex : HexText (trim text).toList) :
    ∃ hash, parseHash id text = .ok hash :=
  ((acceptedIff id ascii).trans takenSplit).mpr (.inl hex)

theorem onlyHexButPlusPublished : Strict id published ∧
    ∃ hash, parseHash id published = .ok hash ∧ parseHash id publishedUpper = .ok hash := by
  have trimmed := hexTrimmed publishedHex
  have trimmed' := hexTrimmed publishedUpperHex
  have hex : HexText (trim published).toList := trimmed.symm ▸ publishedHex
  have hex' : HexText (trim publishedUpper).toList := trimmed'.symm ▸ publishedUpperHex
  have ascii := digitsAscii publishedHex
  have ascii' := digitsAscii publishedUpperHex
  have noPlus : ¬ PlusText (trim published).toList := fun plus => plusNotHex plus hex
  have noPlus' : ¬ PlusText (trim publishedUpper).toList := fun plus => plusNotHex plus hex'
  obtain ⟨strict, same⟩ := onlyHexButPlus id ascii ascii'
  obtain ⟨hash, accepted⟩ := hexAccepted ascii hex
  obtain ⟨hash', accepted'⟩ := hexAccepted ascii' hex'
  have one : hash = hash' := by
    refine (same noPlus noPlus' hash hash' accepted accepted').mpr ?_
    rw [trimmed, trimmed', publishedChars, publishedUpperChars]
    decide +kernel
  exact ⟨strict.mpr noPlus, hash, accepted, one ▸ accepted'⟩

theorem signTaken : ∃ hash, parseHash id signed = .ok hash ∧ hash.1.head? = some 10 ∧
    ¬ HexText (trim signed).toList ∧ ¬ Strict id signed := by
  obtain ⟨hash, accepted, first⟩ : ∃ hash, parseHash id signed = .ok hash ∧ hash.1.head? = some 10 := by
    refine ⟨⟨10 :: List.replicate 31 0, rfl⟩, ?_, rfl⟩
    decide +kernel
  have notHex : ¬ HexText (trim signed).toList := fun hex => absurd (hex.2 '+' (by decide +kernel)) (by decide)
  exact ⟨hash, accepted, first, notHex, fun strict => notHex (strict.1 ⟨hash, accepted⟩)⟩

end RkQuic.Config
