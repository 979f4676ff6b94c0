import Mathlib.Data.UInt
import Rollup.Fact.Place

namespace Rollup

namespace Resolution

/-- The start of the bucket that a time falls into. -/
def bucketStart (r : Resolution) (time : Int) : Int :=
  match r with
  | .total => 0
  | r => time / r.width.toInt * r.width.toInt

theorem width_pos (r : Resolution) : 0 < r.width.toInt := by
  cases r <;> decide

theorem width_le {r : Resolution} (hr : r ≠ .total) : r.width.toInt ≤ 3600 := by
  cases r <;> first | decide | exact absurd rfl hr

theorem bucketStart_eq {r : Resolution} (hr : r ≠ .total) (time : Int) :
    r.bucketStart time = time / r.width.toInt * r.width.toInt := by
  cases r <;> first | rfl | exact absurd rfl hr

theorem bucketStart_nonneg (r : Resolution) {time : Int} (h : 0 ≤ time) :
    0 ≤ r.bucketStart time := by
  by_cases hr : r = .total
  · rw [hr]
    exact Int.le_refl 0
  · rw [bucketStart_eq hr]
    exact Int.mul_nonneg (Int.ediv_nonneg h (Int.le_of_lt r.width_pos)) (Int.le_of_lt r.width_pos)

theorem bucketStart_le (r : Resolution) {time : Int} (h : 0 ≤ time) :
    r.bucketStart time ≤ time := by
  by_cases hr : r = .total
  · rw [hr]
    exact h
  · rw [bucketStart_eq hr]
    exact Int.ediv_mul_le time (Int.ne_of_gt r.width_pos)

theorem bucketStart_bucketStart (r : Resolution) (time : Int) :
    r.bucketStart (r.bucketStart time) = r.bucketStart time := by
  by_cases hr : r = .total
  · rw [hr]
    rfl
  · rw [bucketStart_eq hr, bucketStart_eq hr,
      Int.mul_ediv_cancel _ (Int.ne_of_gt r.width_pos)]

end Resolution

namespace Place

variable {r : Resolution} {roll time time' cutoff : Int64}

theorem toInt_roll {r : Resolution} (hr : r ≠ .total) (asked : Nat) :
    (Place.roll r asked).toInt = max 1 (min asked 65536) := by
  have h : max 1 (min asked maxRoll) < 2 ^ 63 := by
    simp only [maxRoll]
    omega
  have hroll : Place.roll r asked = Int64.ofNat (max 1 (min asked maxRoll)) := by
    cases r <;> first | rfl | exact absurd rfl hr
  rw [hroll, Int64.toInt_ofNat_of_lt h]
  simp only [maxRoll]

theorem roll_pos (r : Resolution) (asked : Nat) : 0 < (Place.roll r asked).toInt := by
  by_cases hr : r = .total
  · subst hr
    exact Int.one_pos
  · rw [toInt_roll hr]
    omega

theorem roll_le (r : Resolution) (asked : Nat) : (Place.roll r asked).toInt ≤ 65536 := by
  by_cases hr : r = .total
  · subst hr
    show (1 : Int64).toInt ≤ 65536
    decide
  · rw [toInt_roll hr]
    omega

theorem toInt_floorDiv (a : Int64) {b : Int64} (hb : 0 < b.toInt) :
    (floorDiv a b).toInt = a.toInt / b.toInt := by
  have hlow := a.le_toInt
  have hhigh := a.toInt_lt
  refine Int64.toInt_ofInt_of_le ?_ ?_
  · rw [Int.le_ediv_iff_mul_le hb]
    have : -2 ^ 63 * b.toInt ≤ -2 ^ 63 * 1 := Int.mul_le_mul_of_nonpos_left (by decide) hb
    omega
  · rw [Int.ediv_lt_iff_lt_mul hb]
    have : 2 ^ 63 * 1 ≤ 2 ^ 63 * b.toInt := Int.mul_le_mul_of_nonneg_left hb (by decide)
    omega

theorem toInt_floorMod (a : Int64) {b : Int64} (hb : 0 < b.toInt) :
    (floorMod a b).toInt = a.toInt % b.toInt := by
  have hnonneg := Int.emod_nonneg a.toInt (Int.ne_of_gt hb)
  have hlt := Int.emod_lt_of_pos a.toInt hb
  have hhigh := b.toInt_lt
  exact Int64.toInt_ofInt_of_le (by omega) (by omega)

theorem nonneg_of_floorDiv_pos (h : 0 < (floorDiv time r.width).toInt) : 0 ≤ time.toInt := by
  rw [toInt_floorDiv time r.width_pos] at h
  rcases Int.lt_or_le time.toInt 0 with hneg | hnonneg
  · have := Int.ediv_neg_of_neg_of_pos hneg r.width_pos
    omega
  · exact hnonneg

theorem emod_le_self {a b : Int} (ha : 0 ≤ a) (hb : 0 < b) : a % b ≤ a := by
  have hsplit := Int.emod_add_mul_ediv a b
  have hquotient : 0 ≤ b * (a / b) :=
    Int.mul_nonneg (Int.le_of_lt hb) (Int.ediv_nonneg ha (Int.le_of_lt hb))
  omega

theorem toNat_toUInt64 {n : Int64} (h : 0 ≤ n.toInt) : (n.toUInt64.toNat : Int) = n.toInt := by
  have hle : (0 : Int64) ≤ n := Int64.le_iff_toInt_le.mpr h
  rw [Int64.toNat_toUInt64_of_le hle]
  exact Int.toNat_of_nonneg h

theorem toInt_toInt64 {n : UInt64} (h : n.toNat < 2 ^ 63) : n.toInt64.toInt = n.toNat := by
  have hofNat : n.toInt64 = Int64.ofNat n.toNat := by
    rw [← UInt64.toInt64_ofNat', UInt64.ofNat_toNat]
  rw [hofNat, Int64.toInt_ofNat_of_lt h]

theorem toInt_sub_floorMod (hroll : 0 < roll.toInt) (htime : 0 ≤ time.toInt) :
    (floorDiv time r.width - floorMod (floorDiv time r.width) roll).toInt =
      time.toInt / r.width.toInt - time.toInt / r.width.toInt % roll.toInt := by
  have hdiv := toInt_floorDiv time r.width_pos
  have hmod := toInt_floorMod (floorDiv time r.width) hroll
  rw [hdiv] at hmod
  have hbucket : 0 ≤ time.toInt / r.width.toInt :=
    Int.ediv_nonneg htime (Int.le_of_lt r.width_pos)
  rw [Int64.toInt_sub_of_le, hdiv, hmod]
  · exact Int64.le_iff_toInt_le.mpr
      (by rw [hmod]; exact Int.emod_nonneg _ (Int.ne_of_gt hroll))
  · exact Int64.le_iff_toInt_le.mpr (by rw [hmod, hdiv]; exact emod_le_self hbucket hroll)

theorem toInt_base (hroll : 0 < roll.toInt) (htime : 0 ≤ time.toInt) :
    ((floorDiv time r.width - floorMod (floorDiv time r.width) roll) * r.width).toInt =
      (time.toInt / r.width.toInt - time.toInt / r.width.toInt % roll.toInt) *
        r.width.toInt := by
  have hw := r.width_pos
  have hbucket : 0 ≤ time.toInt / r.width.toInt := Int.ediv_nonneg htime (Int.le_of_lt hw)
  have hoffset := Int.emod_nonneg (time.toInt / r.width.toInt) (Int.ne_of_gt hroll)
  have hoffsetLe : time.toInt / r.width.toInt % roll.toInt ≤ time.toInt / r.width.toInt :=
    emod_le_self hbucket hroll
  have hstart := Int.ediv_mul_le time.toInt (Int.ne_of_gt hw)
  have hle : (time.toInt / r.width.toInt - time.toInt / r.width.toInt % roll.toInt) *
      r.width.toInt ≤ time.toInt / r.width.toInt * r.width.toInt :=
    Int.mul_le_mul_of_nonneg_right (by omega) (Int.le_of_lt hw)
  have hnonneg : 0 ≤ (time.toInt / r.width.toInt - time.toInt / r.width.toInt % roll.toInt) *
      r.width.toInt := Int.mul_nonneg (by omega) (Int.le_of_lt hw)
  have hhigh := time.toInt_lt
  rw [Int64.toInt_mul, toInt_sub_floorMod hroll htime, Int.bmod_eq_of_le (by omega) (by omega)]

theorem base_ofTimestamp (hr : r ≠ .total) (hroll : 0 < roll.toInt) (htime : 0 ≤ time.toInt) :
    ((ofTimestamp r roll time).base.toNat : Int) =
      (time.toInt / r.width.toInt - time.toInt / r.width.toInt % roll.toInt) *
        r.width.toInt := by
  have hbase := toInt_base (r := r) hroll htime
  have hbucket : 0 ≤ time.toInt / r.width.toInt :=
    Int.ediv_nonneg htime (Int.le_of_lt r.width_pos)
  have hoffsetLe : time.toInt / r.width.toInt % roll.toInt ≤ time.toInt / r.width.toInt :=
    emod_le_self hbucket hroll
  have hplace : (ofTimestamp r roll time).base =
      ((floorDiv time r.width - floorMod (floorDiv time r.width) roll) * r.width).toUInt64 := by
    cases r <;> first | rfl | exact absurd rfl hr
  rw [hplace, toNat_toUInt64, hbase]
  rw [hbase]
  exact Int.mul_nonneg (by omega) (Int.le_of_lt r.width_pos)

theorem offset_ofTimestamp (time : Int64) (hr : r ≠ .total) (hroll : 0 < roll.toInt)
    (hle : roll.toInt ≤ 65536) :
    ((ofTimestamp r roll time).offset.toNat : Int) =
      time.toInt / r.width.toInt % roll.toInt := by
  have hmod := toInt_floorMod (floorDiv time r.width) hroll
  rw [toInt_floorDiv time r.width_pos] at hmod
  have hnonneg := Int.emod_nonneg (time.toInt / r.width.toInt) (Int.ne_of_gt hroll)
  have hlt := Int.emod_lt_of_pos (time.toInt / r.width.toInt) hroll
  have hplace : (ofTimestamp r roll time).offset =
      (floorMod (floorDiv time r.width) roll).toUInt64.toUInt16 := by
    cases r <;> first | rfl | exact absurd rfl hr
  have hword := toNat_toUInt64 (n := floorMod (floorDiv time r.width) roll)
    (by rw [hmod]; exact hnonneg)
  rw [hplace, UInt64.toNat_toUInt16]
  omega

theorem toInt_offset (offset : UInt16) : offset.toUInt64.toInt64.toInt = offset.toNat := by
  have := offset.toNat_lt
  rw [toInt_toInt64 (by rw [UInt16.toNat_toUInt64]; omega), UInt16.toNat_toUInt64]

theorem toInt_timestamp {place : Place}
    (h : (place.base.toNat : Int) + place.offset.toNat * r.width.toInt < 2 ^ 63) :
    (timestamp r place).toInt = place.base.toNat + place.offset.toNat * r.width.toInt := by
  have hproduct : 0 ≤ (place.offset.toNat : Int) * r.width.toInt :=
    Int.mul_nonneg (by omega) (Int.le_of_lt r.width_pos)
  rw [timestamp, Int64.toInt_add, Int64.toInt_mul, toInt_offset, toInt_toInt64 (by omega),
    Int.bmod_eq_of_le (n := place.offset.toNat * r.width.toInt) (by omega) (by omega),
    Int.bmod_eq_of_le (by omega) (by omega)]

theorem start_ofTimestamp (hroll : 0 < roll.toInt) (hle : roll.toInt ≤ 65536)
    (htime : 0 ≤ time.toInt) :
    ((ofTimestamp r roll time).base.toNat : Int) +
      (ofTimestamp r roll time).offset.toNat * r.width.toInt = r.bucketStart time.toInt := by
  by_cases hr : r = .total
  · subst hr
    show ((0 : UInt64).toNat : Int) + (0 : UInt16).toNat * Resolution.total.width.toInt = 0
    decide
  · rw [base_ofTimestamp hr hroll htime, offset_ofTimestamp time hr hroll hle, Int.sub_mul,
      Resolution.bucketStart_eq hr]
    omega

theorem timestamp_ofTimestamp (hroll : 0 < roll.toInt) (hle : roll.toInt ≤ 65536)
    (htime : 0 ≤ time.toInt) :
    (timestamp r (ofTimestamp r roll time)).toInt = r.bucketStart time.toInt := by
  have hstart := start_ofTimestamp (r := r) hroll hle htime
  have hbefore := r.bucketStart_le htime
  have hhigh := time.toInt_lt
  rw [toInt_timestamp (by omega), hstart]

theorem lt_iff_lexicographic {a b n : Int} (hn : 0 < n) :
    a < b ↔ a - a % n < b - b % n ∨ a - a % n = b - b % n ∧ a % n < b % n := by
  have ha := Int.emod_add_mul_ediv a n
  have hb := Int.emod_add_mul_ediv b n
  have hbmod := Int.emod_nonneg b (Int.ne_of_gt hn)
  have halt := Int.emod_lt_of_pos a hn
  constructor
  · intro h
    rcases Int.lt_or_eq_of_le (Int.ediv_le_ediv hn (Int.le_of_lt h)) with hlt | heq
    · left
      have := Int.mul_lt_mul_of_pos_left hlt hn
      omega
    · right
      rw [heq] at ha
      omega
  · rintro (h | ⟨h, hmod⟩)
    · have hquotient : n * (a / n) < n * (b / n) := by omega
      have hstep := Int.lt_of_mul_lt_mul_left hquotient (Int.le_of_lt hn)
      have := Int.mul_le_mul_of_nonneg_left (Int.add_one_le_of_lt hstep) (Int.le_of_lt hn)
      rw [Int.mul_add, Int.mul_one] at this
      omega
    · omega

theorem ofTimestamp_lt_iff (hr : r ≠ .total) (hroll : 0 < roll.toInt)
    (hle : roll.toInt ≤ 65536) (htime : 0 ≤ time.toInt) (htime' : 0 ≤ time'.toInt) :
    time.toInt / r.width.toInt < time'.toInt / r.width.toInt ↔
      (ofTimestamp r roll time).base.toNat < (ofTimestamp r roll time').base.toNat ∨
      (ofTimestamp r roll time).base.toNat = (ofTimestamp r roll time').base.toNat ∧
        (ofTimestamp r roll time).offset.toNat < (ofTimestamp r roll time').offset.toNat := by
  have hw := r.width_pos
  have hbase := base_ofTimestamp hr hroll htime
  have hbase' := base_ofTimestamp hr hroll htime'
  have hoffset := offset_ofTimestamp time hr hroll hle
  have hoffset' := offset_ofTimestamp time' hr hroll hle
  rw [lt_iff_lexicographic hroll]
  constructor
  · rintro (h | ⟨h, hmod⟩)
    · left
      have := Int.mul_lt_mul_of_pos_right h hw
      omega
    · right
      rw [h] at hbase
      omega
  · rintro (h | ⟨h, hmod⟩)
    · left
      have h' : ((ofTimestamp r roll time).base.toNat : Int) <
          (ofTimestamp r roll time').base.toNat := by omega
      rw [hbase, hbase'] at h'
      exact Int.lt_of_mul_lt_mul_right h' (Int.le_of_lt hw)
    · right
      have h' : ((ofTimestamp r roll time).base.toNat : Int) =
          (ofTimestamp r roll time').base.toNat := by omega
      rw [hbase, hbase'] at h'
      exact ⟨Int.eq_of_mul_eq_mul_right (Int.ne_of_gt hw) h', by omega⟩

theorem ofTimestamp_eq_iff (hroll : 0 < roll.toInt) (hle : roll.toInt ≤ 65536)
    (htime : 0 ≤ time.toInt) (htime' : 0 ≤ time'.toInt) :
    ofTimestamp r roll time = ofTimestamp r roll time' ↔
      r.bucketStart time.toInt = r.bucketStart time'.toInt := by
  constructor
  · intro h
    rw [← timestamp_ofTimestamp hroll hle htime, h, timestamp_ofTimestamp hroll hle htime']
  · intro h
    by_cases hr : r = .total
    · subst hr
      rfl
    · rw [Resolution.bucketStart_eq hr, Resolution.bucketStart_eq hr] at h
      have hdiv := Int.eq_of_mul_eq_mul_right (Int.ne_of_gt r.width_pos) h
      have hbase := base_ofTimestamp hr hroll htime
      have hoffset := offset_ofTimestamp time hr hroll hle
      rw [hdiv, ← base_ofTimestamp hr hroll htime'] at hbase
      rw [hdiv, ← offset_ofTimestamp time' hr hroll hle] at hoffset
      rw [Place.mk.injEq]
      exact ⟨UInt64.toNat_inj.mp (by omega), UInt16.toNat_inj.mp (by omega)⟩

theorem bucketEnd_le_iff (hr : r ≠ .total) (time cutoff : Int) :
    r.bucketStart time + r.width.toInt ≤ cutoff ↔
      time / r.width.toInt < cutoff / r.width.toInt := by
  have hw := r.width_pos
  rw [Resolution.bucketStart_eq hr]
  have hsplit : time / r.width.toInt * r.width.toInt + r.width.toInt =
      (time / r.width.toInt + 1) * r.width.toInt := by
    rw [Int.add_mul, Int.one_mul]
  rw [hsplit, ← Int.le_ediv_iff_mul_le hw]
  omega

end Place

end Rollup
