import Mathlib.Data.List.TakeWhile
import Mathlib.Tactic

/-! Strings as the bytes of their UTF-8 encoding, over the encoder and the validator of
the core library. `decode` is what `str::from_utf8` answers. -/
namespace RkQuic

abbrev Bytes := List UInt8

namespace Utf8

def encode (s : String) : Bytes := s.toByteArray.data.toList

def decode (bytes : Bytes) : Option String := String.fromUTF8? ⟨bytes.toArray⟩

theorem encodeInjective {s t : String} (same : encode s = encode t) : s = t := by
  apply String.toByteArray_inj.mp
  apply ByteArray.ext
  exact Array.toList_inj.mp same

theorem decodeSound {bytes : Bytes} {s : String} (ok : decode bytes = some s) : encode s = bytes := by
  unfold decode String.fromUTF8? at ok
  split at ok
  · cases Option.some.inj ok
    simp [encode, String.fromUTF8]
  · contradiction

@[simp] theorem decodeEncode (s : String) : decode (encode s) = some s := by
  have valid : (ByteArray.mk (encode s).toArray).IsValidUTF8 := by
    simpa [encode] using s.isValidUTF8
  simp only [decode, String.fromUTF8?, dif_pos valid, Option.some.injEq]
  apply encodeInjective
  simp [encode, String.fromUTF8]

theorem decodeIff {bytes : Bytes} {s : String} : decode bytes = some s ↔ encode s = bytes :=
  ⟨decodeSound, fun same => same ▸ decodeEncode s⟩

@[simp] theorem encodeAppend (s t : String) : encode (s ++ t) = encode s ++ encode t := by
  simp [encode, String.toByteArray_append]

@[simp] theorem encodeEmpty : encode "" = [] := rfl

theorem decodeConcat (parts : List String) :
    decode (parts.flatMap encode) = some (parts.foldr (· ++ ·) "") := by
  rw [decodeIff]
  induction parts with
  | nil => rfl
  | cons s parts ih => rw [List.foldr_cons, encodeAppend, ih, List.flatMap_cons]

theorem encodeChars (s : String) : encode s = s.toList.flatMap String.utf8EncodeChar := by
  have h := congrArg (fun b => b.data.toList) (String.utf8Encode_toList (b := s))
  simpa [encode, List.utf8Encode] using h.symm

theorem encodeOfList (chars : List Char) :
    encode (String.ofList chars) = chars.flatMap String.utf8EncodeChar := by
  simp [encodeChars]

theorem charBelow (c : Char) : c.val.toNat < 0x110000 := by
  rcases c.valid with h | ⟨_, h⟩
  · exact Nat.lt_trans h (by decide)
  · exact h

theorem zeroByte (c : Char) : (0 : UInt8) ∈ String.utf8EncodeChar c ↔ c = '\x00' := by
  constructor
  · intro member
    have bound := charBelow c
    have zero : c.val.toNat = 0 := by
      unfold String.utf8EncodeChar at member
      generalize c.val.toNat = v at member bound
      dsimp only at member
      split_ifs at member <;>
        simp only [List.mem_cons, List.not_mem_nil, or_false, ← UInt8.toNat_inj, UInt8.toNat_ofNat',
          UInt8.reduceToNat] at member <;> omega
    exact Char.ext (UInt32.toNat_inj.mp zero)
  · rintro rfl
    decide

theorem untilZero (chars : List Char) :
    (chars.flatMap String.utf8EncodeChar ++ [0]).takeWhile (· ≠ 0) =
      (chars.takeWhile (· ≠ '\x00')).flatMap String.utf8EncodeChar := by
  induction chars with
  | nil => decide
  | cons c chars ih =>
    by_cases zero : c = '\x00'
    · subst zero
      simp [show String.utf8EncodeChar '\x00' = [0] from by decide]
    · have none : ∀ b ∈ String.utf8EncodeChar c, (b ≠ 0 : Bool) = true := by
        intro b member
        have : b ≠ 0 := fun h => zero ((zeroByte c).mp (h ▸ member))
        simpa using this
      rw [List.flatMap_cons, List.append_assoc, List.takeWhile_append_of_pos none, ih]
      simp [zero]

end Utf8
end RkQuic
