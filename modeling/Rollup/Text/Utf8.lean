import Rollup.Bytes

namespace Rollup.Utf8

def encode (s : String) : Bytes := s.toByteArray.data.toList

theorem encode_injective (a b : String) (h : encode a = encode b) : a = b := by
  apply String.toByteArray_inj.mp
  unfold encode at h
  cases ha : a.toByteArray
  cases hb : b.toByteArray
  simp_all

/-- Strings in the order of their UTF-8 bytes, which is also the order of their code points. -/
instance : KeyOrder String := KeyOrder.ofInjective encode encode_injective

/-- Where a byte string stops being UTF-8: the number of bytes of whole characters
before the fault, and the length of the faulty sequence. There is no length when the
byte string ends inside a character. -/
structure Fault where
  start : Nat
  length : Option Nat
  deriving DecidableEq, Repr

namespace Fault

def message (fault : Fault) : String :=
  match fault.length with
  | some n => s!"invalid utf-8 sequence of {n} bytes from index {fault.start}"
  | none => s!"incomplete utf-8 byte sequence from index {fault.start}"

end Fault

/-- The ranges in which the bytes after a leading byte lie, or nothing when no
character starts with that byte. The narrow first ranges keep out overlong forms,
surrogates and code points above U+10FFFF. -/
def continuation (lead : UInt8) : Option (List (UInt8 × UInt8)) :=
  if lead < 0x80 then some []
  else if lead < 0xC2 then none
  else if lead < 0xE0 then some [(0x80, 0xBF)]
  else if lead == 0xE0 then some [(0xA0, 0xBF), (0x80, 0xBF)]
  else if lead == 0xED then some [(0x80, 0x9F), (0x80, 0xBF)]
  else if lead < 0xF0 then some [(0x80, 0xBF), (0x80, 0xBF)]
  else if lead == 0xF0 then some [(0x90, 0xBF), (0x80, 0xBF), (0x80, 0xBF)]
  else if lead < 0xF4 then some [(0x80, 0xBF), (0x80, 0xBF), (0x80, 0xBF)]
  else if lead == 0xF4 then some [(0x80, 0x8F), (0x80, 0xBF), (0x80, 0xBF)]
  else none

/-- Looks for the first fault. `start` counts the bytes of whole characters so far,
`taken` those of the character being read, and `expected` holds the ranges of its
remaining bytes. -/
def findFault (start taken : Nat) : List (UInt8 × UInt8) → Bytes → Option Fault
  | [], [] => none
  | _ :: _, [] => some ⟨start, none⟩
  | [], b :: rest =>
    match continuation b with
    | none => some ⟨start, some 1⟩
    | some [] => findFault (start + 1) 0 [] rest
    | some (range :: ranges) => findFault start 1 (range :: ranges) rest
  | (low, high) :: ranges, b :: rest =>
    if low ≤ b && b ≤ high then
      match ranges with
      | [] => findFault (start + taken + 1) 0 [] rest
      | range :: ranges => findFault start (taken + 1) (range :: ranges) rest
    else some ⟨start, some taken⟩

/-- The text that a byte string encodes, or its first fault. -/
def decode (bytes : Bytes) : Except Fault String :=
  match String.fromUTF8? ⟨bytes.toArray⟩ with
  | some s => .ok s
  | none => .error ((findFault 0 0 [] bytes).getD ⟨bytes.length, none⟩)

theorem decode_encode (s : String) : decode (encode s) = .ok s := by
  have harray : (⟨(encode s).toArray⟩ : ByteArray) = s.toByteArray := by
    unfold encode
    cases s.toByteArray
    simp
  have hvalid := s.isValidUTF8
  simp [decode, harray, String.fromUTF8?, hvalid]
  rfl

theorem eq_encode_of_decode {bytes : Bytes} {s : String} (h : decode bytes = .ok s) :
    bytes = encode s := by
  simp only [decode, String.fromUTF8?] at h
  split at h
  · next t hs =>
    split at hs
    · simp only [Option.some.injEq] at hs
      simp only [Except.ok.injEq] at h
      subst hs
      rw [← h]
      rfl
    · simp at hs
  · simp at h

theorem decode_eq_ok_iff {bytes : Bytes} {s : String} :
    decode bytes = .ok s ↔ bytes = encode s :=
  ⟨eq_encode_of_decode, fun h => h ▸ decode_encode s⟩

end Rollup.Utf8
