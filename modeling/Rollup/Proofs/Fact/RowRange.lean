import Rollup.Fact.Table
import Rollup.Proofs.Bytes
import Rollup.Proofs.Fact.Place
import Rollup.Proofs.Salting

namespace Rollup

open KeyOrder

namespace FactKey

variable {key key' : FactKey}

theorem encode_injective (h : key.encode = key'.encode) : key = key' := by
  have hread := decode_encode key
  rw [h, decode_encode key'] at hread
  exact (Except.ok.inj hread).symm

/-- The range from one base time on and before another, if there is another. -/
def between (first : UInt64) (stop : Option UInt64) : KeyRange :=
  ⟨Bytes.ofUInt64 first, stop.map Bytes.ofUInt64⟩

theorem contains_between (first : UInt64) (stop : Option UInt64) (key : FactKey) :
    (between first stop).contains key.encode = true ↔
      first.toNat ≤ key.base.toNat ∧ ∀ last ∈ stop, key.base.toNat < last.toNat := by
  have hbefore := fun bound => Bytes.before_ofUInt64_append key.base bound
    (Bytes.ofUInt32 key.metric ++ encodeTags key.tags)
  have hstart : before key.encode (Bytes.ofUInt64 first) = false ↔
      first.toNat ≤ key.base.toNat := by
    rw [← Bool.not_eq_true, ← Nat.not_lt]
    exact not_congr (hbefore first)
  rw [KeyRange.contains, Bool.and_eq_true, Bool.not_eq_true']
  refine and_congr hstart ?_
  cases stop with
  | none => simp [between]
  | some last => simpa [between, encode] using hbefore last

end FactKey

namespace FactTable

variable {t : FactTable} {range : KeyRange} {key key' : Bytes}

theorem physicalKey_injective (h : t.physicalKey key = t.physicalKey key') : key = key' := by
  simp only [physicalKey] at h
  split at h
  · exact (List.cons.inj h).2
  · exact h

@[simp] theorem logicalKey_physicalKey (t : FactTable) (key : Bytes) :
    t.logicalKey (t.physicalKey key) = key := by
  unfold logicalKey physicalKey
  cases t.salting <;> rfl

theorem contains_ranges (t : FactTable) (range : KeyRange) (key : Bytes) :
    (∃ part ∈ t.ranges range, part.contains (t.physicalKey key) = true) ↔
      range.contains key = true := by
  unfold ranges physicalKey
  cases t.salting with
  | none => simp
  | some salting =>
      simp only [Salting.ranges, List.mem_map, Salting.distribute]
      constructor
      · rintro ⟨_, ⟨bucket, _, rfl⟩, h⟩
        exact ((Salting.contains_rangeIn bucket range _ key).mp h).2
      · intro h
        exact ⟨_, ⟨_, salting.bucketOf_mem key, rfl⟩,
          (Salting.contains_rangeIn _ range _ key).mpr ⟨rfl, h⟩⟩

theorem ranges_disjoint (t : FactTable) (range : KeyRange) : (t.ranges range).Pairwise
    fun part part' => ∀ key, part.contains key = true → ¬ part'.contains key = true := by
  unfold ranges
  cases t.salting with
  | none => exact List.pairwise_singleton _ _
  | some salting =>
      exact (salting.precedes_ranges range).imp fun h key hkey => by simp [h.disjoint hkey]

end FactTable

end Rollup
