import Rollup.Error
import Rollup.KeyRange

/-!
The logical row keys of a fact table: the time of the row, the number of the metric, and the
numbers of its tags in the order of their names, all big-endian.
-/

namespace Rollup

structure FactKey where
  /-- The start of the first bucket of the row. -/
  base : UInt64
  metric : UInt32
  /-- The tags, each with the number of its name and the number of its value. -/
  tags : List (UInt32 × UInt32)
  deriving DecidableEq, Repr

namespace FactKey

def encodeTags (tags : List (UInt32 × UInt32)) : Bytes :=
  tags.flatMap fun tag => Bytes.ofUInt32 tag.1 ++ Bytes.ofUInt32 tag.2

def encode (key : FactKey) : Bytes :=
  Bytes.ofUInt64 key.base ++ (Bytes.ofUInt32 key.metric ++ encodeTags key.tags)

def decodeTags? : Bytes → Option (List (UInt32 × UInt32))
  | [] => some []
  | n₀ :: n₁ :: n₂ :: n₃ :: v₀ :: v₁ :: v₂ :: v₃ :: rest =>
    (decodeTags? rest).map fun tags =>
      (Bytes.toUInt32 [n₀, n₁, n₂, n₃], Bytes.toUInt32 [v₀, v₁, v₂, v₃]) :: tags
  | _ => none

def decode? (bytes : Bytes) : Option FactKey := do
  let (base, bytes) ← Bytes.splitAt? 8 bytes
  let (metric, bytes) ← Bytes.splitAt? 4 bytes
  let tags ← decodeTags? bytes
  return { base := Bytes.toUInt64 base, metric := Bytes.toUInt32 metric, tags }

def decode (bytes : Bytes) : Except Error FactKey :=
  match decode? bytes with
  | some key => .ok key
  | none => .error (.decode s!"malformed fact row key of {bytes.length} bytes")

theorem decodeTags?_encodeTags (tags : List (UInt32 × UInt32)) :
    decodeTags? (encodeTags tags) = some tags := by
  induction tags with
  | nil => rfl
  | cons tag tags ih =>
    obtain ⟨name, value⟩ := tag
    obtain ⟨n₀, n₁, n₂, n₃, hname⟩ : ∃ a b c d, Bytes.ofUInt32 name = [a, b, c, d] :=
      ⟨_, _, _, _, rfl⟩
    obtain ⟨v₀, v₁, v₂, v₃, hvalue⟩ : ∃ a b c d, Bytes.ofUInt32 value = [a, b, c, d] :=
      ⟨_, _, _, _, rfl⟩
    have hread : encodeTags ((name, value) :: tags) =
        n₀ :: n₁ :: n₂ :: n₃ :: v₀ :: v₁ :: v₂ :: v₃ :: encodeTags tags := by
      simp [encodeTags, hname, hvalue]
    rw [hread, decodeTags?, ih, ← hname, ← hvalue]
    simp

theorem decode_encode (key : FactKey) : decode key.encode = .ok key := by
  have baseSplit := Bytes.splitAt?_append (Bytes.ofUInt64 key.base)
    (Bytes.ofUInt32 key.metric ++ encodeTags key.tags)
  have hmetric := Bytes.splitAt?_append (Bytes.ofUInt32 key.metric) (encodeTags key.tags)
  rw [Bytes.length_ofUInt64] at baseSplit
  rw [Bytes.length_ofUInt32] at hmetric
  simp [decode, decode?, encode, baseSplit, hmetric, decodeTags?_encodeTags]

end FactKey

end Rollup
