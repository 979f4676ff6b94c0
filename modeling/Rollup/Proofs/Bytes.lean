import Mathlib.Data.UInt
import Rollup.Bytes

namespace Rollup

namespace Bytes

open KeyOrder

theorem ofUInt32_injective {m n : UInt32} (h : ofUInt32 m = ofUInt32 n) : m = n := by
  rw [← toUInt32_ofUInt32 m, h, toUInt32_ofUInt32]

theorem ofUInt32_toUInt32 {bytes : Bytes} (h : bytes.length = 4) :
    ofUInt32 (toUInt32 bytes) = bytes := by
  have hlt : value bytes < 2 ^ 32 := by
    have := value_lt bytes
    rw [h] at this
    exact this
  rw [ofUInt32, toUInt32, UInt32.toNat_ofNat_of_lt' hlt]
  exact h ▸ bigEndian_value bytes

theorem ofUInt64_toUInt64 {bytes : Bytes} (h : bytes.length = 8) :
    ofUInt64 (toUInt64 bytes) = bytes := by
  have hlt : value bytes < 2 ^ 64 := by
    have := value_lt bytes
    rw [h] at this
    exact this
  rw [ofUInt64, toUInt64, UInt64.toNat_ofNat_of_lt' hlt]
  exact h ▸ bigEndian_value bytes

theorem before_cons (x y : UInt8) (xs ys : Bytes) :
    before (x :: xs) (y :: ys) = (before x y || (!before y x && before xs ys)) := rfl

theorem before_nil (bytes : Bytes) : before bytes [] = false := by
  cases bytes <;> rfl

theorem before_append (xs ys : Bytes) (h : xs.length = ys.length) (rest rest' : Bytes) :
    before (xs ++ rest) (ys ++ rest') =
      (before xs ys || (!before ys xs && before rest rest')) := by
  induction xs generalizing ys with
  | nil =>
      obtain rfl := List.length_eq_zero_iff.mp h.symm
      rfl
  | cons x xs ih =>
      cases ys with
      | nil => simp at h
      | cons y ys =>
          simp only [List.cons_append, before_cons, ih ys (Nat.succ.inj h)]
          cases before x y <;> cases before y x <;> simp

theorem before_iff_value_lt (xs ys : Bytes) (h : xs.length = ys.length) :
    before xs ys = true ↔ value xs < value ys := by
  induction xs generalizing ys with
  | nil =>
      obtain rfl := List.length_eq_zero_iff.mp h.symm
      simp [before_nil]
  | cons x xs ih =>
      cases ys with
      | nil => simp at h
      | cons y ys =>
          have hlength : xs.length = ys.length := Nat.succ.inj h
          have hx := value_lt xs
          have hy := value_lt ys
          rw [hlength] at hx
          have hhead : ∀ a b : UInt8, before a b = true ↔ a.toNat < b.toNat :=
            fun a b => decide_eq_true_iff
          rw [before_cons, value_cons, value_cons, hlength]
          simp only [Bool.or_eq_true, Bool.and_eq_true, Bool.not_eq_true', ih ys hlength,
            ← Bool.not_eq_true, hhead]
          rcases Nat.lt_trichotomy x.toNat y.toNat with hlt | heq | hgt
          · have := Nat.mul_le_mul_right (capacity ys.length) (Nat.succ_le_of_lt hlt)
            rw [Nat.succ_mul] at this
            omega
          · simp [heq]
          · have := Nat.mul_le_mul_right (capacity ys.length) (Nat.succ_le_of_lt hgt)
            rw [Nat.succ_mul] at this
            omega

theorem before_append_iff (xs ys : Bytes) (h : xs.length = ys.length) (rest : Bytes) :
    before (xs ++ rest) ys = true ↔ value xs < value ys := by
  rw [← before_iff_value_lt xs ys h, ← List.append_nil ys, before_append _ _ h, before_nil]
  simp

theorem before_ofUInt32 (m n : UInt32) : before (ofUInt32 m) (ofUInt32 n) = before m n := by
  have h := before_iff_value_lt (ofUInt32 m) (ofUInt32 n) (by simp)
  rw [ofUInt32, ofUInt32, value_bigEndian m.toNat_lt, value_bigEndian n.toNat_lt] at h
  exact Bool.eq_iff_iff.mpr (h.trans decide_eq_true_iff.symm)

theorem before_ofUInt64 (m n : UInt64) :
    before (ofUInt64 m) (ofUInt64 n) = before m.toNat n.toNat := by
  have h := before_iff_value_lt (ofUInt64 m) (ofUInt64 n) (by simp)
  rw [ofUInt64, ofUInt64, value_bigEndian m.toNat_lt, value_bigEndian n.toNat_lt] at h
  exact Bool.eq_iff_iff.mpr (h.trans decide_eq_true_iff.symm)

theorem before_ofUInt64_append (m n : UInt64) (rest : Bytes) :
    before (ofUInt64 m ++ rest) (ofUInt64 n) = true ↔ m.toNat < n.toNat := by
  have h := before_append_iff (ofUInt64 m) (ofUInt64 n) (by simp) rest
  rwa [ofUInt64, ofUInt64, value_bigEndian m.toNat_lt, value_bigEndian n.toNat_lt] at h

end Bytes

end Rollup
