import RkQuic.Fingerprint

/-! Any 32 bytes, written as hex in any mixture of cases and set between any blanks, are the
fingerprint the client's configuration is parsed to. -/
namespace RkQuic.Config
open Ffi Outcomes Str

def hexDigit (upper : Bool) (n : Nat) : Char :=
  Char.ofNat (n + if n < 10 then 48 else if upper then 55 else 87)

/- The digits of the bytes from the `i`th on: byte `i` is written as digits `2 * i` and `2 * i + 1`. -/
def hexFrom (upper : Nat → Bool) (i : Nat) : Bytes → List Char
  | [] => []
  | b :: rest => hexDigit (upper (2 * i)) (b.toNat / 16) ::
      hexDigit (upper (2 * i + 1)) (b.toNat % 16) :: hexFrom upper (i + 1) rest

def hexOf (upper : Nat → Bool) (bytes : Bytes) : List Char := hexFrom upper 0 bytes

def Blank (chars : List Char) : Prop := ∀ c ∈ chars, isWhitespace c = true

theorem dropBlank {lead middle : List Char} (blank : Blank lead) :
    (lead ++ middle).dropWhile isWhitespace = middle.dropWhile isWhitespace := by
  induction lead with
  | nil => rfl
  | cons c lead ih =>
    have first := blank c List.mem_cons_self
    simpa [first] using ih fun d h => blank d (List.mem_cons_of_mem _ h)

theorem dropInked {chars : List Char} (inked : ∀ c ∈ chars, isWhitespace c = false) :
    chars.dropWhile isWhitespace = chars := by
  cases chars with
  | nil => rfl
  | cons c chars => simp [inked c List.mem_cons_self]

theorem trimBetween {lead middle trail : List Char} (before : Blank lead) (after : Blank trail)
    (inked : ∀ c ∈ middle, isWhitespace c = false) :
    trim (String.ofList (lead ++ (middle ++ trail))) = String.ofList middle := by
  have tail : Blank trail.reverse := fun c h => after c (List.mem_reverse.mp h)
  have back : ((middle ++ trail).reverse.dropWhile isWhitespace).reverse = middle := by
    have inkedBack : ∀ c ∈ middle.reverse, isWhitespace c = false := fun c h => inked c (List.mem_reverse.mp h)
    rw [List.reverse_append, dropBlank tail, dropInked inkedBack, List.reverse_reverse]
  rw [trim, String.toList_ofList, dropBlank before]
  cases middle with
  | nil =>
    have nothing : trail.dropWhile isWhitespace = [] := by simpa using @dropBlank trail [] after
    simp [nothing]
  | cons c middle =>
    have first := inked c List.mem_cons_self
    rw [List.cons_append, List.dropWhile_cons_of_neg (by simp [first]), ← List.cons_append, back]

theorem hexDigitFacts {n : Nat} (small : n < 16) (upper : Bool) :
    toDigit (byteOf (hexDigit upper n)) = some n ∧ (hexDigit upper n).toNat < 128 ∧
      isWhitespace (hexDigit upper n) = false := by
  have all : ∀ n < 16, ∀ upper, toDigit (byteOf (hexDigit upper n)) = some n ∧ (hexDigit upper n).toNat < 128 ∧
      isWhitespace (hexDigit upper n) = false := by decide
  exact all n small upper

theorem halves (b : UInt8) : b.toNat / 16 < 16 ∧ b.toNat % 16 < 16 ∧ UInt8.ofNat (b.toNat / 16 * 16 + b.toNat % 16) = b := by
  have below := b.toNat_lt
  have whole : b.toNat / 16 * 16 + b.toNat % 16 = b.toNat := by omega
  exact ⟨by omega, by omega, by rw [whole, UInt8.ofNat_toNat]⟩

variable {upper : Nat → Bool} {bytes : Bytes}

theorem hexLength (i : Nat) : (hexFrom upper i bytes).length = 2 * bytes.length := by
  induction bytes generalizing i with
  | nil => rfl
  | cons b rest ih =>
    simp only [hexFrom, List.length_cons, ih]
    omega

theorem hexMember {i : Nat} {c : Char} (member : c ∈ hexFrom upper i bytes) :
    ∃ n < 16, ∃ u, c = hexDigit u n := by
  induction bytes generalizing i with
  | nil => cases member
  | cons b rest ih =>
    obtain ⟨high, low, -⟩ := halves b
    simp only [hexFrom, List.mem_cons] at member
    rcases member with rfl | rfl | later
    · exact ⟨_, high, _, rfl⟩
    · exact ⟨_, low, _, rfl⟩
    · exact ih later

theorem hexAscii (i : Nat) : Ascii (hexFrom upper i bytes) := by
  intro c member
  obtain ⟨n, small, u, rfl⟩ := hexMember member
  exact (hexDigitFacts small u).2.1

theorem hexInked (i : Nat) : ∀ c ∈ hexFrom upper i bytes, isWhitespace c = false := by
  intro c member
  obtain ⟨n, small, u, rfl⟩ := hexMember member
  exact (hexDigitFacts small u).2.2

theorem hexPair {b : UInt8} {j : Nat} (here : bytes[j]? = some b) (i : Nat) :
    (hexFrom upper i bytes)[j * 2]? = some (hexDigit (upper (2 * (i + j))) (b.toNat / 16)) ∧
      (hexFrom upper i bytes)[j * 2 + 1]? = some (hexDigit (upper (2 * (i + j) + 1)) (b.toNat % 16)) := by
  induction bytes generalizing i j with
  | nil => cases here
  | cons c rest ih =>
    cases j with
    | zero =>
      cases here
      exact ⟨rfl, rfl⟩
    | succ j =>
      have later := ih (j := j) here (i + 1)
      rw [show i + 1 + j = i + (j + 1) by omega] at later
      rw [Nat.add_mul]
      exact later

theorem hexReads {b : UInt8} {j : Nat} (here : bytes[j]? = some b) :
    fromStrRadix (pairAt ((hexOf upper bytes).map byteOf) j) = some b := by
  obtain ⟨first, second⟩ := @hexPair upper bytes b j here 0
  obtain ⟨high, low, whole⟩ := halves b
  rw [hexOf, pairOf first second, pairRead]
  exact .inl ⟨_, _, (hexDigitFacts high _).1, (hexDigitFacts low _).1, whole.symm⟩

theorem hexBoundary {i : Nat} (inside : i ≤ 2 * bytes.length) :
    isCharBoundary ((hexOf upper bytes).map byteOf) i = true := by
  refine asciiBoundary (fun b member => ?_) (by rwa [List.length_map, hexOf, hexLength])
  obtain ⟨c, there, rfl⟩ := List.mem_map.mp member
  have small := hexAscii 0 c there
  rw [byteOf, UInt8.toNat_ofNat']
  omega

theorem parseHashFormatted (debug : String → String) (upper : Nat → Bool) (bytes : Sized 32) {lead trail : List Char}
    (before : Blank lead) (after : Blank trail) :
    parseHash debug (String.ofList (lead ++ (hexOf upper bytes.1 ++ trail))) = .ok bytes := by
  have long := bytes.2
  have trimmed : Utf8.encode (trim (String.ofList (lead ++ (hexOf upper bytes.1 ++ trail)))) =
      (hexOf upper bytes.1).map byteOf := by
    rw [hexOf, trimBetween before after (hexInked 0), encodeAscii (hexAscii 0)]
  rw [parseHash, trimmed, List.length_map, hexOf, hexLength, long, if_neg (by simp), ← hexOf]
  have start := startBoundary ((hexOf upper bytes.1).map byteOf)
  have each : ∀ j < 32, ∃ b, bytes.1[j]? = some b := fun j less => ⟨_, List.getElem?_eq_getElem (by omega)⟩
  obtain ⟨hash, accepted⟩ := hashAccepts debug (i := 0) (n := 32) start fun j less => by
    obtain ⟨b, here⟩ := each j less
    rw [Nat.zero_add]
    exact ⟨hexBoundary (by omega), by rw [Reads, hexReads here]; simp⟩
  have same : hash.1 = bytes.1 := by
    refine List.ext_getElem? fun j => ?_
    by_cases less : j < 32
    · obtain ⟨b, here⟩ := each j less
      obtain ⟨byte, read, there⟩ := hashReads debug (i := 0) start accepted j less
      rw [Nat.zero_add, hexReads here] at read
      rw [there, here, read]
    · rw [List.getElem?_eq_none (by have := hash.2; omega), List.getElem?_eq_none (by omega)]
  rw [accepted, Subtype.ext same]

theorem parseFormatted (debug : String → String) (upper : Nat → Bool) (bytes : Sized 32) {lead trail : List Char}
    (before : Blank lead) (after : Blank trail) {config : ClientConfig}
    (url : "https://".toList <+: config.url.toList) (idle : config.idle_timeout_ms ≠ 0)
    (written : config.certificate_hash_sha256 = String.ofList (lead ++ (hexOf upper bytes.1 ++ trail))) :
    config.parse debug = .ok ⟨config.url, bytes, config.idle_timeout_ms⟩ := by
  have some : config.url.toList ≠ [] := by
    intro empty
    rw [empty] at url
    cases List.prefix_nil.mp url
  simp only [ClientConfig.parse, some, url, idle, if_false, not_true_eq_false, written,
    parseHashFormatted debug upper bytes before after, okBind, pureOk]

def mixed : ClientConfig :=
  ⟨"https://[::1]:4433/rk", String.ofList ('\n' :: hexOf (fun i => i % 2 = 0) (List.replicate 32 0xAB) ++ ['\u3000']), 30000⟩

theorem parseFormattedMixed : mixed.certificate_hash_sha256.toList.take 5 = ['\n', 'A', 'b', 'A', 'b'] ∧
    mixed.parse id = .ok ⟨"https://[::1]:4433/rk", ⟨List.replicate 32 0xAB, rfl⟩, 30000⟩ := by
  refine ⟨by decide +kernel, ?_⟩
  have before : Blank ['\n'] := by simp [Blank, isWhitespace]
  have after : Blank ['\u3000'] := by simp [Blank, isWhitespace]
  exact parseFormatted id (fun i => i % 2 = 0) ⟨List.replicate 32 0xAB, rfl⟩ before after (by decide) (by decide) rfl

end RkQuic.Config
