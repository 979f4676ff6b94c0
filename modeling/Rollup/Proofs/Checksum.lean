import Mathlib.Data.UInt
import Mathlib.Logic.Function.Iterate
import Rollup.Checksum

namespace Rollup

namespace Bytes

theorem value_concat (bytes : Bytes) (b : UInt8) :
    value (bytes ++ [b]) = value bytes * 256 + b.toNat := by
  simp [value]

theorem eq_of_value_eq {x y : Bytes} (hlength : x.length = y.length)
    (h : value x = value y) : x = y := by
  rw [← bigEndian_value x, ← bigEndian_value y, hlength, h]

end Bytes

namespace Checksum

variable {r : UInt32} {b : UInt8} {bytes x y : Bytes}

theorem low_bit (r : UInt32) : (r &&& 1 == 1) = decide (r.toNat % 2 = 1) := by
  rw [Bool.eq_iff_iff, beq_iff_eq, decide_eq_true_iff, ← UInt32.toNat_inj, UInt32.toNat_and,
    UInt32.toNat_one, Nat.and_one_is_mod]

theorem shiftOut_of_odd (h : r.toNat % 2 = 1) : shiftOut r = (r >>> 1) ^^^ 0xEDB88320 := by
  rw [shiftOut, low_bit, if_pos (decide_eq_true h)]

theorem shiftOut_of_even (h : r.toNat % 2 = 0) : shiftOut r = r >>> 1 := by
  rw [shiftOut, low_bit, if_neg (by simp [h])]

theorem toNat_shiftRight_one (r : UInt32) : (r >>> 1).toNat = r.toNat / 2 := by
  simp [UInt32.toNat_shiftRight, Nat.shiftRight_succ]

theorem shiftOut_xor (a b : UInt32) : shiftOut (a ^^^ b) = shiftOut a ^^^ shiftOut b := by
  have hlow : (a ^^^ b).toNat % 2 = 1 ↔ ¬ (a.toNat % 2 = 1 ↔ b.toNat % 2 = 1) := by
    rw [UInt32.toNat_xor, Nat.xor_mod_two_eq_one]
  rcases Nat.mod_two_eq_zero_or_one a.toNat with ha | ha <;>
    rcases Nat.mod_two_eq_zero_or_one b.toNat with hb | hb
  · rw [shiftOut_of_even ha, shiftOut_of_even hb, shiftOut_of_even (by omega),
      UInt32.shiftRight_xor]
  · rw [shiftOut_of_even ha, shiftOut_of_odd hb, shiftOut_of_odd (by omega),
      UInt32.shiftRight_xor, UInt32.xor_assoc]
  · rw [shiftOut_of_odd ha, shiftOut_of_even hb, shiftOut_of_odd (by omega),
      UInt32.shiftRight_xor]
    ac_rfl
  · -- the polynomial comes in twice and cancels
    have hcancel : ∀ u v p : UInt32, u ^^^ v = (u ^^^ p) ^^^ (v ^^^ p) := fun u v p => by
      rw [UInt32.xor_comm v p, UInt32.xor_assoc, ← UInt32.xor_assoc p p v, UInt32.xor_self,
        UInt32.zero_xor]
    rw [shiftOut_of_odd ha, shiftOut_of_odd hb, shiftOut_of_even (by omega),
      UInt32.shiftRight_xor, ← hcancel]

theorem eq_zero_of_shiftOut (h : shiftOut r = 0) : r = 0 := by
  have hlt := r.toNat_lt
  rcases Nat.mod_two_eq_zero_or_one r.toNat with hr | hr
  · rw [shiftOut_of_even hr, ← UInt32.toNat_inj, toNat_shiftRight_one, UInt32.toNat_zero] at h
    rw [← UInt32.toNat_inj, UInt32.toNat_zero]
    omega
  · rw [shiftOut_of_odd hr, UInt32.xor_eq_zero_iff, ← UInt32.toNat_inj,
      toNat_shiftRight_one] at h
    have hpolynomial : (0xEDB88320 : UInt32).toNat = 0xEDB88320 := rfl
    omega

theorem shiftOut_injective : Function.Injective shiftOut := by
  intro a b h
  rw [← UInt32.xor_eq_zero_iff, ← shiftOut_xor] at h
  exact UInt32.xor_eq_zero_iff.mp (eq_zero_of_shiftOut h)

theorem iterate_shiftOut_xor (n : Nat) (a b : UInt32) :
    shiftOut^[n] (a ^^^ b) = shiftOut^[n] a ^^^ shiftOut^[n] b := by
  induction n generalizing a b with
  | zero => rfl
  | succ n ih => simp only [Function.iterate_succ_apply, shiftOut_xor, ih]

theorem toNat_iterate_shiftOut {n k : Nat} (h : r.toNat = k * 2 ^ n) :
    (shiftOut^[n] r).toNat = k := by
  induction n generalizing r with
  | zero => simpa using h
  | succ n ih =>
      rw [Nat.pow_succ, ← Nat.mul_assoc] at h
      rw [Function.iterate_succ_apply]
      refine ih ?_
      rw [shiftOut_of_even (by omega), toNat_shiftRight_one]
      omega

/-- The word that up to four bytes make up, the first byte lowest. -/
def word (bytes : Bytes) : UInt32 := UInt32.ofNat (Bytes.value bytes.reverse)

theorem value_reverse_lt {n : Nat} (h : bytes.length ≤ n) :
    Bytes.value bytes.reverse < 256 ^ n := by
  have hcapacity : ∀ width, Bytes.capacity width = 256 ^ width := fun width => by
    induction width with
    | zero => rfl
    | succ width ih => rw [Bytes.capacity, ih, Nat.pow_succ]
  have hlt := Bytes.value_lt bytes.reverse
  rw [List.length_reverse, hcapacity] at hlt
  exact Nat.lt_of_lt_of_le hlt (Nat.pow_le_pow_right (by decide) h)

theorem toNat_word (h : bytes.length ≤ 4) : (word bytes).toNat = Bytes.value bytes.reverse :=
  UInt32.toNat_ofNat_of_lt' (value_reverse_lt h)

theorem word_injective (hx : x.length ≤ 4) (hlength : x.length = y.length)
    (h : word x = word y) : x = y := by
  rw [← UInt32.toNat_inj, toNat_word hx, toNat_word (hlength ▸ hx)] at h
  exact List.reverse_injective (Bytes.eq_of_value_eq (by simpa using hlength) h)

theorem toNat_word_shiftLeft (h : bytes.length ≤ 3) :
    (word bytes <<< 8).toNat = Bytes.value bytes.reverse * 2 ^ 8 := by
  have hlt := value_reverse_lt h
  rw [UInt32.toNat_shiftLeft, toNat_word (by omega), Nat.shiftLeft_eq, Nat.mod_eq_of_lt]
  · rfl
  · exact (Nat.mul_lt_mul_right (by decide)).mpr hlt

theorem xor_mul_two_pow {low n : Nat} (h : low < 2 ^ n) (high : Nat) :
    low ^^^ high * 2 ^ n = high * 2 ^ n + low := by
  refine Nat.eq_of_testBit_eq fun i => ?_
  rw [Nat.mul_comm, Nat.testBit_xor, Nat.testBit_two_pow_mul, Nat.testBit_two_pow_mul_add _ h]
  by_cases hi : i < n
  · simp [hi, Nat.not_le.mpr hi]
  · have hle : n ≤ i := Nat.not_lt.mp hi
    have hlow : low.testBit i = false :=
      Nat.testBit_lt_two_pow (Nat.lt_of_lt_of_le h (Nat.pow_le_pow_right (by decide) hle))
    simp [hi, hle, hlow]

theorem word_cons (b : UInt8) (h : bytes.length ≤ 3) :
    word (b :: bytes) = b.toUInt32 ^^^ (word bytes <<< 8) := by
  have hlength : (b :: bytes).length ≤ 4 := Nat.succ_le_succ h
  rw [← UInt32.toNat_inj, toNat_word hlength, UInt32.toNat_xor, toNat_word_shiftLeft h,
    UInt8.toNat_toUInt32, xor_mul_two_pow b.toNat_lt, List.reverse_cons, Bytes.value_concat]
  rfl

theorem iterate_word_shiftLeft (h : bytes.length ≤ 3) :
    shiftOut^[8] (word bytes <<< 8) = word bytes := by
  rw [← UInt32.toNat_inj, toNat_word (by omega)]
  exact toNat_iterate_shiftOut (toNat_word_shiftLeft h)

theorem absorb_eq (r : UInt32) (b : UInt8) :
    absorb r b = shiftOut^[8] (r ^^^ b.toUInt32) := rfl

theorem divide_eq (h : bytes.length ≤ 4) (r : UInt32) :
    divide r bytes = shiftOut^[8 * bytes.length] (r ^^^ word bytes) := by
  induction bytes generalizing r with
  | nil => exact UInt32.xor_zero.symm
  | cons b bytes ih =>
      have hrest : bytes.length ≤ 3 := Nat.le_of_succ_le_succ h
      calc divide r (b :: bytes)
          = shiftOut^[8 * bytes.length] (absorb r b ^^^ word bytes) := ih (by omega) _
        _ = shiftOut^[8 * bytes.length] (shiftOut^[8] (r ^^^ word (b :: bytes))) := by
            rw [word_cons b hrest, ← UInt32.xor_assoc, iterate_shiftOut_xor 8,
              iterate_word_shiftLeft hrest, absorb_eq]
        _ = shiftOut^[8 * (b :: bytes).length] (r ^^^ word (b :: bytes)) := by
            rw [← Function.iterate_add_apply, List.length_cons, Nat.mul_succ]

theorem eq_of_divide_eq (hx : x.length ≤ 4) (hlength : x.length = y.length)
    (h : divide r x = divide r y) : x = y := by
  rw [divide_eq hx, divide_eq (hlength ▸ hx), hlength] at h
  have hwords := shiftOut_injective.iterate _ h
  exact word_injective hx hlength ((UInt32.xor_right_inj r).mp hwords)

theorem divide_injective (bytes : Bytes) : Function.Injective fun r => divide r bytes := by
  induction bytes with
  | nil => exact Function.injective_id
  | cons b bytes ih =>
      intro r r' h
      have habsorbed : absorb r b = absorb r' b := ih h
      rw [absorb_eq, absorb_eq] at habsorbed
      exact (UInt32.xor_left_inj _).mp (shiftOut_injective.iterate 8 habsorbed)

/-- Byte strings that differ in four bytes in a row at most have different checksums. -/
theorem eq_of_crc32_eq (front back : Bytes) (hx : x.length ≤ 4) (hlength : x.length = y.length)
    (h : crc32 (front ++ x ++ back) = crc32 (front ++ y ++ back)) : x = y := by
  have hdivide := (UInt32.xor_left_inj _).mp h
  simp only [divide_append] at hdivide
  exact eq_of_divide_eq hx hlength (divide_injective back hdivide)

end Checksum

end Rollup
