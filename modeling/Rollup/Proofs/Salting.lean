import Mathlib.Data.List.Nodup
import Rollup.Salting

namespace Rollup

namespace KeyRange

variable {range part part' : KeyRange} {key key' : Bytes}

def Ordered (range : KeyRange) : Prop :=
  ∀ stop ∈ range.stop, KeyOrder.before stop range.start = false

instance (range : KeyRange) : Decidable range.Ordered :=
  inferInstanceAs (Decidable (∀ stop ∈ range.stop, KeyOrder.before stop range.start = false))

/-- The one range is over where the other starts. -/
def Precedes (part part' : KeyRange) : Prop :=
  ∃ stop, part.stop = some stop ∧ KeyOrder.before part'.start stop = false

theorem contains_iff : range.contains key = true ↔
    KeyOrder.before key range.start = false ∧
      ∀ stop ∈ range.stop, KeyOrder.before key stop = true := by
  cases hstop : range.stop <;> simp [contains, hstop]

theorem Precedes.before (h : part.Precedes part') (hkey : part.contains key = true)
    (hkey' : part'.contains key' = true) : KeyOrder.before key key' = true := by
  obtain ⟨stop, hstop, hle⟩ := h
  have hlt := (contains_iff.mp hkey).2 stop hstop
  have hge := (contains_iff.mp hkey').1
  exact KeyOrder.before_of_not_before (KeyOrder.before_of_not_before hlt hle) hge

theorem Precedes.disjoint (h : part.Precedes part') (hkey : part.contains key = true) :
    part'.contains key = false := by
  rw [← Bool.not_eq_true]
  intro hkey'
  exact KeyOrder.ne_of_before (h.before hkey hkey') rfl

end KeyRange

namespace Salting

open KeyOrder

variable {s : Salting} {range part : KeyRange} {key : Bytes} {bucket : UInt8} {i : Nat}

theorem toNat_bucketOf_lt (s : Salting) (key : Bytes) : (s.bucketOf key).toNat < s.buckets := by
  have hpos := s.buckets_pos
  have hle := s.buckets_le
  have hlt : ((hash key).toInt.tmod s.buckets).natAbs < s.buckets := by
    rw [Int.natAbs_tmod]
    exact Nat.mod_lt _ (by omega)
  rw [bucketOf, UInt8.toNat_ofNat', Nat.mod_eq_of_lt (by omega)]
  exact hlt

theorem toNat_ofNat_of_lt (s : Salting) (h : i < s.buckets) : (UInt8.ofNat i).toNat = i := by
  have hle := s.buckets_le
  rw [UInt8.toNat_ofNat', Nat.mod_eq_of_lt (by omega)]

theorem mem_allBuckets : bucket ∈ s.allBuckets ↔ bucket.toNat < s.buckets := by
  rw [allBuckets, List.mem_map]
  constructor
  · rintro ⟨i, hi, rfl⟩
    rw [List.mem_range] at hi
    rwa [s.toNat_ofNat_of_lt hi]
  · intro h
    exact ⟨bucket.toNat, List.mem_range.mpr h, UInt8.ofNat_toNat⟩

theorem bucketOf_mem (s : Salting) (key : Bytes) : s.bucketOf key ∈ s.allBuckets :=
  mem_allBuckets.mpr (s.toNat_bucketOf_lt key)

theorem ascending_allBuckets (s : Salting) :
    s.allBuckets.Pairwise fun bucket bucket' => bucket.toNat < bucket'.toNat := by
  rw [allBuckets, List.pairwise_map]
  refine List.pairwise_lt_range.imp_of_mem fun {i j} hi hj hlt => ?_
  rwa [s.toNat_ofNat_of_lt (List.mem_range.mp hi), s.toNat_ofNat_of_lt (List.mem_range.mp hj)]

theorem nodup_allBuckets (s : Salting) : s.allBuckets.Nodup :=
  s.ascending_allBuckets.imp fun hlt heq => Nat.ne_of_lt hlt (congrArg UInt8.toNat heq)

section

variable {b c : UInt8}

theorem before_cons_of_lt (h : b.toNat < c.toNat) (bs cs : Bytes) :
    before (b :: bs) (c :: cs) = true :=
  Bool.or_eq_true_iff.mpr (.inl (decide_eq_true h))

theorem before_cons_self (b : UInt8) (bs cs : Bytes) :
    before (b :: bs) (b :: cs) = before bs cs := by
  have hcons : before (b :: bs) (b :: cs) = (before b b || (!before b b && before bs cs)) := rfl
  simp [hcons, KeyOrder.irrefl]

theorem toNat_add_one (h : bucket ≠ 255) : (bucket + 1).toNat = bucket.toNat + 1 := by
  have hlt := bucket.toNat_lt
  have hne : bucket.toNat ≠ (255 : UInt8).toNat := mt UInt8.toNat_inj.mp h
  have hlast : (255 : UInt8).toNat = 255 := rfl
  rw [UInt8.toNat_add, UInt8.toNat_one, Nat.mod_eq_of_lt (by omega)]

theorem before_next (h : bucket ≠ 255) (key : Bytes) :
    before (bucket :: key) [bucket + 1] = true :=
  before_cons_of_lt (by rw [toNat_add_one h]; exact Nat.lt_succ_self _) key []

theorem exists_stop_of_lt (range : KeyRange) (h : bucket.toNat < b.toNat) (key : Bytes) :
    ∃ stop, (rangeIn bucket range).stop = some stop ∧ before (b :: key) stop = false := by
  cases hstop : range.stop with
  | some stop =>
      exact ⟨bucket :: stop, by simp [rangeIn, hstop], asymm (before_cons_of_lt h stop key)⟩
  | none =>
      have hlast : bucket ≠ 255 := by
        rintro rfl
        exact absurd b.toNat_lt (Nat.not_lt.mpr h)
      refine ⟨[bucket + 1], by simp [rangeIn, hstop, hlast], ?_⟩
      rcases Nat.lt_or_eq_of_le (Nat.succ_le_of_lt h) with hlt | heq
      · exact asymm (before_cons_of_lt (by rwa [toNat_add_one hlast]) [] key)
      · obtain rfl : bucket + 1 = b := UInt8.toNat_inj.mp (by rw [toNat_add_one hlast, ← heq])
        rw [before_cons_self]
        cases key <;> rfl

theorem contains_rangeIn_self (bucket : UInt8) (range : KeyRange) (key : Bytes) :
    (rangeIn bucket range).contains (bucket :: key) = range.contains key := by
  have hstart : (rangeIn bucket range).start = bucket :: range.start := rfl
  rw [KeyRange.contains, KeyRange.contains, hstart, before_cons_self]
  congr 1
  cases hstop : range.stop with
  | some stop => simp [rangeIn, hstop, before_cons_self]
  | none =>
      by_cases hlast : bucket = 255
      · simp [rangeIn, hstop, hlast]
      · simp [rangeIn, hstop, hlast, before_next]

theorem contains_rangeIn (bucket : UInt8) (range : KeyRange) (b : UInt8) (key : Bytes) :
    (rangeIn bucket range).contains (b :: key) = true ↔
      b = bucket ∧ range.contains key = true := by
  rcases Nat.lt_trichotomy b.toNat bucket.toNat with hlt | heq | hgt
  · have hne : b ≠ bucket := fun h => Nat.ne_of_lt hlt (congrArg UInt8.toNat h)
    have hbefore : before (b :: key) (rangeIn bucket range).start = true :=
      before_cons_of_lt hlt key range.start
    simp [KeyRange.contains, hbefore, hne]
  · obtain rfl := UInt8.toNat_inj.mp heq
    simp [contains_rangeIn_self]
  · have hne : b ≠ bucket := fun h => Nat.ne_of_gt hgt (congrArg UInt8.toNat h)
    obtain ⟨stop, hstop, hover⟩ := exists_stop_of_lt range hgt key
    simp [KeyRange.contains, hstop, hover, hne]

end

theorem of_contains_rangeIn (h : (rangeIn bucket range).contains key = true) :
    ∃ rest, key = bucket :: rest := by
  cases key with
  | nil => simp [KeyRange.contains, rangeIn, before, listBefore] at h
  | cons b rest => exact ⟨rest, by rw [((contains_rangeIn bucket range b rest).mp h).1]⟩

theorem ordered_rangeIn (bucket : UInt8) (range : KeyRange) :
    (rangeIn bucket range).Ordered ↔ range.Ordered := by
  cases hstop : range.stop with
  | some stop => simp [KeyRange.Ordered, rangeIn, hstop, before_cons_self]
  | none =>
      have hordered : range.Ordered := by simp [KeyRange.Ordered, hstop]
      refine iff_of_true (fun stop hmem => ?_) hordered
      by_cases hlast : bucket = 255
      · simp [rangeIn, hstop, hlast] at hmem
      · obtain rfl : [bucket + 1] = stop := by simpa [rangeIn, hstop, hlast] using hmem
        exact asymm (before_next hlast range.start)

theorem getElem?_ranges (h : (s.ranges range)[i]? = some part) :
    i < s.buckets ∧ part = rangeIn (UInt8.ofNat i) range := by
  obtain ⟨hlt, rfl⟩ := List.getElem?_eq_some_iff.mp h
  have hi : i < s.buckets := by simpa [ranges, allBuckets] using hlt
  exact ⟨hi, by simp [ranges, allBuckets]⟩

theorem bucketOf_eq_ofNat_iff (h : i < s.buckets) :
    s.bucketOf key = UInt8.ofNat i ↔ i = (s.bucketOf key).toNat := by
  rw [← UInt8.toNat_inj, s.toNat_ofNat_of_lt h, eq_comm]

theorem precedes_ranges (s : Salting) (range : KeyRange) :
    (s.ranges range).Pairwise KeyRange.Precedes := by
  rw [ranges, List.pairwise_map]
  exact s.ascending_allBuckets.imp fun hlt => exists_stop_of_lt range hlt range.start

theorem countP_ranges (s : Salting) (range : KeyRange) (key : Bytes) :
    (s.ranges range).countP (·.contains (s.distribute key)) =
      if range.contains key then 1 else 0 := by
  rw [ranges, List.countP_map]
  have hpart : ∀ bucket, (rangeIn bucket range).contains (s.distribute key) = true ↔
      s.bucketOf key = bucket ∧ range.contains key = true :=
    fun bucket => contains_rangeIn bucket range (s.bucketOf key) key
  by_cases hkey : range.contains key = true
  · rw [if_pos hkey]
    calc s.allBuckets.countP ((·.contains (s.distribute key)) ∘ fun b => rangeIn b range)
        = s.allBuckets.count (s.bucketOf key) := by
          refine List.countP_congr fun bucket _ => ?_
          rw [Function.comp_apply, hpart, beq_iff_eq]
          exact ⟨fun h => h.1.symm, fun h => ⟨h.symm, hkey⟩⟩
      _ = 1 := List.count_eq_one_of_mem s.nodup_allBuckets (s.bucketOf_mem key)
  · rw [if_neg hkey, List.countP_eq_zero]
    intro bucket _ hcontains
    exact hkey ((hpart bucket).mp hcontains).2

/-- The parts of a range in the buckets cover it exactly once. A salted key has the number
of a bucket before the logical key. It lies in one of the parts, that of its bucket, if the
range takes the logical key in, and else in none. Each part lies among the keys of its
bucket and is in order if the range is, and the parts ascend and do not overlap. -/
theorem ranges_cover_once (s : Salting) (range : KeyRange) :
    (s.ranges range).length = s.buckets ∧
      (∀ key, (s.bucketOf key).toNat < s.buckets ∧
        s.distribute key = s.bucketOf key :: key ∧ unsalted (s.distribute key) = key ∧
        (s.ranges range).countP (·.contains (s.distribute key)) =
          (if range.contains key then 1 else 0) ∧
        ∀ i part, (s.ranges range)[i]? = some part →
          (part.contains (s.distribute key) = true ↔
            i = (s.bucketOf key).toNat ∧ range.contains key = true)) ∧
      (∀ i part, (s.ranges range)[i]? = some part →
        (part.Ordered ↔ range.Ordered) ∧
          ∀ row, part.contains row = true → ∃ key, row = UInt8.ofNat i :: key) ∧
      (s.ranges range).Pairwise fun part part' => part.Precedes part' ∧
        ∀ row, part.contains row = true → part'.contains row = false := by
  refine ⟨by simp [ranges, allBuckets], fun key => ⟨s.toNat_bucketOf_lt key, rfl, rfl,
    s.countP_ranges range key, fun i part hpart => ?_⟩, fun i part hpart => ?_, ?_⟩
  · obtain ⟨hi, rfl⟩ := getElem?_ranges hpart
    rw [← bucketOf_eq_ofNat_iff hi]
    exact contains_rangeIn _ range _ key
  · obtain ⟨-, rfl⟩ := getElem?_ranges hpart
    exact ⟨ordered_rangeIn _ range, fun row => of_contains_rangeIn⟩
  · exact (s.precedes_ranges range).imp fun h => ⟨h, fun row => h.disjoint⟩

/-- The last part has no end if there is no bucket after it. -/
example :
    let s : Salting := ⟨256, by decide, by decide⟩
    (s.ranges ⟨[], none⟩).getLast? = some ⟨[255], none⟩ := by
  decide +kernel

end Salting

end Rollup
