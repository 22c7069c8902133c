import Mathlib.Tactic

/-! Strings as the code units of their UTF-16 encoding. A unit of the surrogate range is half a
character, and half a character that stands alone is in no string of characters. -/
namespace RkQuic

abbrev Units := List UInt16

namespace Utf16

def unitsOf (c : Char) : Units :=
  if c.toNat < 0x10000 then [UInt16.ofNat c.toNat]
  else [UInt16.ofNat (0xd800 + (c.toNat - 0x10000) / 0x400), UInt16.ofNat (0xdc00 + (c.toNat - 0x10000) % 0x400)]

def encode (s : String) : Units := s.toList.flatMap unitsOf

def join (high low : Nat) : Char := Char.ofNat (0x10000 + (high - 0xd800) * 0x400 + (low - 0xdc00))

def chars : Units → Option (List Char)
  | [] => some []
  | u :: rest =>
    if u.toNat < 0xd800 ∨ 0xe000 ≤ u.toNat then (chars rest).map (Char.ofNat u.toNat :: ·)
    else
      match rest with
      | v :: more =>
        if u.toNat < 0xdc00 ∧ 0xdc00 ≤ v.toNat ∧ v.toNat < 0xe000 then (chars more).map (join u.toNat v.toNat :: ·) else none
      | [] => none

def decode (units : Units) : Option String := (chars units).map String.ofList

theorem scalarRange (c : Char) : c.toNat < 0xd800 ∨ 0xe000 ≤ c.toNat ∧ c.toNat < 0x110000 := by
  rcases c.valid with low | ⟨high, below⟩
  · exact .inl low
  · exact .inr ⟨Nat.succ_le_of_lt high, below⟩

theorem charsUnits (c : Char) (rest : Units) : chars (unitsOf c ++ rest) = (chars rest).map (c :: ·) := by
  have range := scalarRange c
  unfold unitsOf
  split
  · rename_i small
    have same : (UInt16.ofNat c.toNat).toNat = c.toNat := UInt16.toNat_ofNat_of_lt' small
    have alone : c.toNat < 0xd800 ∨ 0xe000 ≤ c.toNat := range.imp_right And.left
    rw [List.singleton_append, chars.eq_def]
    simp only [same, if_pos alone, Char.ofNat_toNat]
  · rename_i great
    obtain ⟨n, split⟩ : ∃ n, c.toNat = 0x10000 + n := ⟨c.toNat - 0x10000, by omega⟩
    have bound : n < 0x100000 := by omega
    have high : (UInt16.ofNat (0xd800 + n / 0x400)).toNat = 0xd800 + n / 0x400 :=
      UInt16.toNat_ofNat_of_lt' (show 0xd800 + n / 0x400 < 2 ^ 16 by omega)
    have low : (UInt16.ofNat (0xdc00 + n % 0x400)).toNat = 0xdc00 + n % 0x400 :=
      UInt16.toNat_ofNat_of_lt' (show 0xdc00 + n % 0x400 < 2 ^ 16 by omega)
    have half : ¬ (0xd800 + n / 0x400 < 0xd800 ∨ 0xe000 ≤ 0xd800 + n / 0x400) := by omega
    have pair : 0xd800 + n / 0x400 < 0xdc00 ∧ 0xdc00 ≤ 0xdc00 + n % 0x400 ∧ 0xdc00 + n % 0x400 < 0xe000 := by omega
    have whole : join (0xd800 + n / 0x400) (0xdc00 + n % 0x400) = c := by
      rw [join, show 0x10000 + (0xd800 + n / 0x400 - 0xd800) * 0x400 + (0xdc00 + n % 0x400 - 0xdc00) = c.toNat by omega,
        Char.ofNat_toNat]
    rw [split, Nat.add_sub_cancel_left, List.cons_append, List.cons_append, List.nil_append, chars.eq_def]
    simp only [high, low, if_neg half, if_pos pair, whole]

@[simp] theorem decodeEncode (s : String) : decode (encode s) = some s := by
  have read (text : List Char) : chars (text.flatMap unitsOf) = some text := by
    induction text with
    | nil => rfl
    | cons c text ih => rw [List.flatMap_cons, charsUnits, ih, Option.map_some]
  rw [decode, encode, read, Option.map_some, String.ofList_toList]

@[simp] theorem encodeEq {s t : String} : encode s = encode t ↔ s = t := by
  refine ⟨fun same => ?_, congrArg encode⟩
  have texts := congrArg decode same
  rw [decodeEncode, decodeEncode] at texts
  exact Option.some.inj texts

end Utf16
end RkQuic
