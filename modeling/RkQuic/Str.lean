import RkQuic.Utf8

/-! The parts of the standard library's `str` that the client configuration is checked
with: trimming, slicing by bytes, and reading a number in base sixteen. -/
namespace RkQuic.Str

def isWhitespace (c : Char) : Bool :=
  let n := c.toNat
  (9 ≤ n && n ≤ 13) || n == 0x20 || n == 0x85 || n == 0xA0 || n == 0x1680 || (0x2000 ≤ n && n ≤ 0x200A) ||
    n == 0x2028 || n == 0x2029 || n == 0x202F || n == 0x205F || n == 0x3000

def trim (s : String) : String :=
  String.ofList (((s.toList.dropWhile isWhitespace).reverse.dropWhile isWhitespace).reverse)

def isCharBoundary (bytes : Bytes) (i : Nat) : Bool :=
  if i = 0 then true
  else
    match bytes[i]? with
    | some b => b.toNat < 0x80 || 0xC0 ≤ b.toNat
    | none => i = bytes.length

/-- `&s[i..j]`, which panics where this is `none`. -/
def slice (bytes : Bytes) (i j : Nat) : Option Bytes :=
  if i ≤ j ∧ isCharBoundary bytes i ∧ isCharBoundary bytes j then some ((bytes.drop i).take (j - i)) else none

def toDigit (b : UInt8) : Option Nat :=
  let n := b.toNat
  if 0x30 ≤ n ∧ n ≤ 0x39 then some (n - 0x30)
  else if 0x61 ≤ n ∧ n ≤ 0x66 then some (n - 0x57)
  else if 0x41 ≤ n ∧ n ≤ 0x46 then some (n - 0x37)
  else none

def readDigits (acc : Nat) : Bytes → Option Nat
  | [] => some acc
  | b :: rest => do
    let d ← toDigit b
    if acc * 16 + d < 256 then readDigits (acc * 16 + d) rest else none

/-- `u8::from_str_radix(_, 16)`: an optional plus sign and then digits. -/
def fromStrRadix : Bytes → Option UInt8
  | [] => none
  | [b] => if b = 0x2B ∨ b = 0x2D then none else (readDigits 0 [b]).map UInt8.ofNat
  | b :: rest => (readDigits 0 (if b = 0x2B then rest else b :: rest)).map UInt8.ofNat

theorem digitBelow {b d} (digit : toDigit b = some d) : d < 16 := by
  unfold toDigit at digit
  dsimp only at digit
  split_ifs at digit <;> cases digit <;> omega

theorem plusNoDigit : toDigit 0x2B = none := by decide

theorem readTwo {x y a b} (first : toDigit x = some a) (second : toDigit y = some b) :
    readDigits 0 [x, y] = some (a * 16 + b) := by
  have := digitBelow first
  have := digitBelow second
  have small : a < 256 := by omega
  have whole : a * 16 + b < 256 := by omega
  simp only [readDigits, first, second, bind, Option.bind_some, Nat.zero_mul, Nat.zero_add, if_pos small,
    if_pos whole]

theorem pairRead {x y : UInt8} {v : UInt8} : fromStrRadix [x, y] = some v ↔
    (∃ a b, toDigit x = some a ∧ toDigit y = some b ∧ v = UInt8.ofNat (a * 16 + b)) ∨
      (x = 0x2B ∧ ∃ b, toDigit y = some b ∧ v = UInt8.ofNat b) := by
  simp only [fromStrRadix]
  by_cases plus : x = 0x2B
  · subst plus
    have unsigned : ¬ ∃ a b, toDigit 0x2B = some a ∧ toDigit y = some b ∧ v = UInt8.ofNat (a * 16 + b) := by
      rintro ⟨a, b, first, -⟩
      rw [plusNoDigit] at first
      cases first
    rw [if_pos rfl]
    simp only [unsigned, false_or, true_and]
    cases digit : toDigit y with
    | none => simp [readDigits, digit]
    | some b =>
      have small : b < 256 := (digitBelow digit).trans (by decide)
      simp [readDigits, digit, small, eq_comm]
  · rw [if_neg plus]
    simp only [plus, false_and, or_false]
    cases first : toDigit x with
    | none => simp [readDigits, first]
    | some a =>
      cases second : toDigit y with
      | none =>
        simp [readDigits, first, second]
      | some b => simp [readTwo first second, eq_comm]

theorem startBoundary (bytes : Bytes) : isCharBoundary bytes 0 = true := rfl

theorem asciiBoundary {bytes : Bytes} (ascii : ∀ b ∈ bytes, b.toNat < 0x80) {i : Nat}
    (inside : i ≤ bytes.length) : isCharBoundary bytes i = true := by
  unfold isCharBoundary
  split
  · rfl
  · split
    · rename_i b here
      simp [ascii b (List.mem_of_getElem? here)]
    · rename_i beyond
      have := List.getElem?_eq_none_iff.mp beyond
      simp only [decide_eq_true_eq]
      omega

end RkQuic.Str
