import RkQuic.Status

/-! Strings across the C boundary. A pointer is modelled by the bytes from where it
points, terminator included, and null by `none`; what is read is what the readers on
either side read, which is everything before the first zero byte. -/
namespace RkQuic.Ffi

/- `toNativeUtf8` knows the length of the string and still ends the buffer with one NUL. -/
def toNativeUtf8 (s : String) : Bytes := Utf8.encode s ++ [0]

/- `CStr::from_ptr`, and `toDartString` before it decodes. -/
def untilNul (bytes : Bytes) : Bytes := bytes.takeWhile (· ≠ 0)

def borrowCString (s : Option Bytes) : Option String :=
  s.bind (fun bytes => Utf8.decode (untilNul bytes))

def asCStr (s : Status) : Bytes := Utf8.encode s.nameWithNul

def toDartString (bytes : Bytes) : Option String := Utf8.decode (untilNul bytes)

def beforeNul (s : String) : String := String.ofList (s.toList.takeWhile (· ≠ '\x00'))

theorem untilNulNative (s : String) : untilNul (toNativeUtf8 s) = Utf8.encode (beforeNul s) := by
  rw [untilNul, toNativeUtf8, beforeNul, Utf8.encodeOfList, ← Utf8.untilZero, Utf8.encodeChars]

theorem beforeNulSelf {s : String} (clean : '\x00' ∉ s.toList) : beforeNul s = s := by
  have whole : s.toList.takeWhile (· ≠ '\x00') = s.toList := by
    rw [List.takeWhile_eq_self_iff]
    intro c member
    have : c ≠ '\x00' := fun h => clean (h ▸ member)
    simpa using this
  rw [beforeNul, whole, String.ofList_toList]

theorem beforeNulClean (s : String) : '\x00' ∉ (beforeNul s).toList := by
  intro member
  rw [beforeNul, String.toList_ofList] at member
  have := List.mem_takeWhile_imp member
  simp at this

theorem borrowNative (s : String) : borrowCString (some (toNativeUtf8 s)) = some (beforeNul s) := by
  simp [borrowCString, untilNulNative]

theorem statusCrosses (s : Status) :
    statusFromWireName (toDartString (asCStr s)) = RkQuicStatus.ofStatus s := by
  have native : asCStr s = toNativeUtf8 s.name := by
    rw [asCStr, Status.nameWithNul, Utf8.encodeAppend, toNativeUtf8]
    rfl
  rw [native, toDartString, untilNulNative, Utf8.decodeEncode, beforeNulSelf (nameHasNoNul s),
    statusFromName]

end RkQuic.Ffi
