import Rollup.Proofs.Fact.RowRange
import Rollup.Proofs.Storage.Run

namespace Rollup

open Storage

structure SeriesNumbers where
  metric : UInt32
  tags : List (UInt32 × UInt32)
  deriving DecidableEq

namespace FactTable

variable {t : FactTable} {T T' : Table} {k k' : SeriesNumbers} {time time' cutoff : Int64}

def keyOf (t : FactTable) (k : SeriesNumbers) (time : Int64) : FactKey :=
  { base := (t.locate time).base, metric := k.metric, tags := k.tags }

def rowOf (t : FactTable) (k : SeriesNumbers) (time : Int64) : Bytes :=
  t.physicalKey (t.keyOf k time).encode

def columnOf (t : FactTable) (time : Int64) : Bytes :=
  Place.encodeOffset (t.locate time).offset

def Expired (t : FactTable) (cutoff time : Int64) : Prop :=
  t.resolution.expires = true ∧
    t.resolution.bucketStart time.toInt + t.resolution.width.toInt ≤ cutoff.toInt

/-- Rows hold as many buckets as some configuration asks for. -/
structure Rolled (t : FactTable) : Prop where
  pos : 0 < t.roll.toInt
  le : t.roll.toInt ≤ 65536

theorem rolled_of_eq {asked : Nat} (h : t.roll = Place.roll t.resolution asked) : t.Rolled :=
  ⟨h ▸ Place.roll_pos _ _, h ▸ Place.roll_le _ _⟩

def Laid (t : FactTable) (T : Table) : Prop :=
  ∀ row column cell, T.cell? row column = some cell → ∃ k time value, 0 ≤ time.toInt ∧
    row = t.rowOf k time ∧ column = t.columnOf time ∧ cell = Bytes.ofInt64 value

theorem laid_empty (t : FactTable) : t.Laid .empty := by
  intro row column cell h
  simp [Table.cell?, Table.columns, Table.empty] at h

theorem encodeOffset_injective {m n : UInt16} (h : Place.encodeOffset m = Place.encodeOffset n) :
    m = n := by
  have hread := Place.decodeOffset_encodeOffset m
  rw [h, Place.decodeOffset_encodeOffset n] at hread
  exact (Except.ok.inj hread).symm

theorem cell_eq_iff (ht : t.Rolled) (htime : 0 ≤ time.toInt) (htime' : 0 ≤ time'.toInt) :
    t.rowOf k time = t.rowOf k' time' ∧ t.columnOf time = t.columnOf time' ↔
      k = k' ∧ t.resolution.bucketStart time.toInt = t.resolution.bucketStart time'.toInt := by
  rw [← Place.ofTimestamp_eq_iff ht.pos ht.le htime htime']
  constructor
  · rintro ⟨hrow, hcolumn⟩
    have hkey := FactKey.encode_injective (physicalKey_injective hrow)
    simp only [keyOf, FactKey.mk.injEq] at hkey
    have hplace : t.locate time = t.locate time' := by
      rw [Place.mk.injEq]
      exact ⟨hkey.1, encodeOffset_injective hcolumn⟩
    refine ⟨?_, hplace⟩
    rw [SeriesNumbers.mk.injEq]
    exact hkey.2
  · rintro ⟨rfl, hplace⟩
    have hplace : t.locate time = t.locate time' := hplace
    simp only [rowOf, columnOf, keyOf, hplace, and_self]

theorem firstKept?_eq_none (htotal : t.resolution ≠ .total) (h : t.firstKept? cutoff = none)
    (htime : 0 ≤ time.toInt) : ¬ t.Expired cutoff time := by
  rintro ⟨-, hend⟩
  rw [Place.bucketEnd_le_iff htotal] at hend
  have hbucket := Int.ediv_nonneg htime (Int.le_of_lt t.resolution.width_pos)
  simp only [firstKept?] at h
  split at h
  · next hle =>
    rw [Int64.le_iff_toInt_le, Place.toInt_floorDiv cutoff t.resolution.width_pos] at hle
    simp only [Int64.toInt_zero] at hle
    omega
  · cases h

theorem firstKept?_eq_some {base : UInt64} {offset : Int64} (ht : t.Rolled)
    (htotal : t.resolution ≠ .total) (h : t.firstKept? cutoff = some (base, offset)) :
    0 ≤ cutoff.toInt ∧ base = (t.locate cutoff).base ∧
      offset.toInt = (t.locate cutoff).offset.toNat := by
  simp only [firstKept?] at h
  split at h
  · cases h
  · next hpos =>
    rw [Int64.le_iff_toInt_le, Int64.toInt_zero, Int.not_le] at hpos
    simp only [Option.some.injEq, Prod.mk.injEq] at h
    obtain ⟨hbase, hoffset⟩ := h
    refine ⟨Place.nonneg_of_floorDiv_pos hpos, ?_, ?_⟩
    · rw [← hbase]
      cases hr : t.resolution <;> simp only [locate, Place.ofTimestamp, hr]
      exact absurd hr htotal
    · rw [← hoffset, Place.toInt_floorMod _ ht.pos,
        Place.toInt_floorDiv cutoff t.resolution.width_pos]
      exact (Place.offset_ofTimestamp cutoff htotal ht.pos ht.le).symm

/-- A bucket has expired if its row lies before that of the cutoff, or if it lies before
the cutoff in one row. -/
theorem expired_iff (ht : t.Rolled) (htotal : t.resolution ≠ .total)
    (hcutoff : 0 ≤ cutoff.toInt) (htime : 0 ≤ time.toInt) :
    t.Expired cutoff time ↔
      (t.locate time).base.toNat < (t.locate cutoff).base.toNat ∨
      (t.locate time).base.toNat = (t.locate cutoff).base.toNat ∧
        (t.locate time).offset.toNat < (t.locate cutoff).offset.toNat := by
  have hexpires : t.resolution.expires = true := by
    cases hr : t.resolution <;> first | rfl | exact absurd hr htotal
  rw [Expired, Place.bucketEnd_le_iff htotal,
    Place.ofTimestamp_lt_iff htotal ht.pos ht.le htime hcutoff]
  exact and_iff_right hexpires

theorem base_lt (ht : t.Rolled) (htime : 0 ≤ time.toInt) :
    (t.locate time).base.toNat < 2 ^ 63 := by
  by_cases hr : t.resolution = .total
  · have hbase : (t.locate time).base = 0 := by
      simp only [locate, Place.ofTimestamp, hr]
    rw [hbase]
    decide
  · have hbase := Place.base_ofTimestamp hr ht.pos htime
    have hw := t.resolution.width_pos
    have hoffset := Int.emod_nonneg (time.toInt / t.resolution.width.toInt) (Int.ne_of_gt ht.pos)
    have hle : (time.toInt / t.resolution.width.toInt -
        time.toInt / t.resolution.width.toInt % t.roll.toInt) * t.resolution.width.toInt ≤
          time.toInt / t.resolution.width.toInt * t.resolution.width.toInt :=
      Int.mul_le_mul_of_nonneg_right (by omega) (Int.le_of_lt hw)
    have hstart := Int.ediv_mul_le time.toInt (Int.ne_of_gt hw)
    have htop := time.toInt_lt
    simp only [locate]
    omega

theorem toNat_base_add_one (ht : t.Rolled) (htime : 0 ≤ time.toInt) :
    ((t.locate time).base + 1).toNat = (t.locate time).base.toNat + 1 := by
  have hbase := base_lt ht htime
  rw [UInt64.toNat_add, UInt64.toNat_one, Nat.mod_eq_of_lt (by omega)]

end FactTable

end Rollup
