import Rollup.KeyOrder

namespace Rollup

/-- A byte string, ordered lexicographically. -/
abbrev Bytes := List UInt8

namespace Bytes

def capacity : Nat → Nat
  | 0 => 1
  | width + 1 => capacity width * 256

theorem capacity_pos (width : Nat) : 0 < capacity width := by
  induction width with
  | zero => decide
  | succ width ih => simp only [capacity]; omega

/-- The low-order `width` bytes of a number, most significant first. -/
def bigEndian : Nat → Nat → Bytes
  | 0, _ => []
  | width + 1, n => UInt8.ofNat (n / capacity width) :: bigEndian width n

/-- The number that a byte string writes, most significant byte first. -/
def value (bytes : Bytes) : Nat := bytes.foldl (fun n b => n * 256 + b.toNat) 0

@[simp] theorem length_bigEndian (width n : Nat) : (bigEndian width n).length = width := by
  induction width with
  | zero => rfl
  | succ width ih => simp [bigEndian, ih]

theorem foldl_value (bytes : Bytes) (n : Nat) :
    bytes.foldl (fun n b => n * 256 + b.toNat) n = n * capacity bytes.length + value bytes := by
  induction bytes generalizing n with
  | nil => simp [value, capacity]
  | cons b bytes ih =>
    simp only [value, List.foldl_cons, List.length_cons]
    rw [ih, ih (0 * 256 + b.toNat), capacity]
    simp only [Nat.zero_mul, Nat.zero_add, Nat.add_mul, Nat.mul_assoc, Nat.add_assoc,
      Nat.mul_comm 256]

theorem value_cons (b : UInt8) (bytes : Bytes) :
    value (b :: bytes) = b.toNat * capacity bytes.length + value bytes := by
  rw [value, List.foldl_cons, foldl_value]
  simp

theorem value_lt (bytes : Bytes) : value bytes < capacity bytes.length := by
  induction bytes with
  | nil => simp [value, capacity]
  | cons b bytes ih =>
    rw [value_cons, List.length_cons, capacity]
    have hb : b.toNat ≤ 255 := by have := b.toNat_lt; omega
    calc b.toNat * capacity bytes.length + value bytes
        < b.toNat * capacity bytes.length + capacity bytes.length := by omega
      _ = (b.toNat + 1) * capacity bytes.length := by rw [Nat.add_mul, Nat.one_mul]
      _ ≤ 256 * capacity bytes.length := Nat.mul_le_mul_right _ (by omega)
      _ = capacity bytes.length * 256 := Nat.mul_comm ..

theorem value_bigEndian_mod (width n : Nat) : value (bigEndian width n) = n % capacity width := by
  induction width with
  | zero => simp [bigEndian, value, capacity, Nat.mod_one]
  | succ width ih =>
    rw [bigEndian, value_cons, length_bigEndian, ih, capacity, Nat.mod_mul]
    simp [Nat.mul_comm, Nat.add_comm]

theorem value_bigEndian {width n : Nat} (h : n < capacity width) :
    value (bigEndian width n) = n := by
  rw [value_bigEndian_mod, Nat.mod_eq_of_lt h]

theorem bigEndian_add_mul (width n k : Nat) :
    bigEndian width (n + k * capacity width) = bigEndian width n := by
  induction width generalizing n k with
  | zero => rfl
  | succ width ih =>
    have hpos : 0 < capacity width := capacity_pos _
    have hsplit : k * capacity (width + 1) = (k * 256) * capacity width := by
      rw [capacity, Nat.mul_assoc, Nat.mul_comm 256]
    simp only [bigEndian, hsplit, ih]
    rw [Nat.add_mul_div_right _ _ hpos]
    congr 1
    apply UInt8.toNat_inj.mp
    simp

theorem bigEndian_value (bytes : Bytes) : bigEndian bytes.length (value bytes) = bytes := by
  induction bytes with
  | nil => rfl
  | cons b bytes ih =>
    have hpos : 0 < capacity bytes.length := capacity_pos _
    have hvalue := value_lt bytes
    rw [List.length_cons, bigEndian, value_cons]
    congr 1
    · rw [Nat.mul_comm, Nat.mul_add_div hpos, Nat.div_eq_of_lt hvalue]
      simp
    · rw [Nat.add_comm, bigEndian_add_mul, ih]

def ofUInt16 (n : UInt16) : Bytes := bigEndian 2 n.toNat

def ofUInt32 (n : UInt32) : Bytes := bigEndian 4 n.toNat

def ofUInt64 (n : UInt64) : Bytes := bigEndian 8 n.toNat

/-- A signed word is written in two's complement. -/
def ofInt64 (n : Int64) : Bytes := ofUInt64 n.toUInt64

def toUInt16 (bytes : Bytes) : UInt16 := UInt16.ofNat (value bytes)

def toUInt32 (bytes : Bytes) : UInt32 := UInt32.ofNat (value bytes)

def toUInt64 (bytes : Bytes) : UInt64 := UInt64.ofNat (value bytes)

def toInt64 (bytes : Bytes) : Int64 := (toUInt64 bytes).toInt64

@[simp] theorem length_ofUInt16 (n : UInt16) : (ofUInt16 n).length = 2 := length_bigEndian ..

@[simp] theorem length_ofUInt32 (n : UInt32) : (ofUInt32 n).length = 4 := length_bigEndian ..

@[simp] theorem length_ofUInt64 (n : UInt64) : (ofUInt64 n).length = 8 := length_bigEndian ..

@[simp] theorem length_ofInt64 (n : Int64) : (ofInt64 n).length = 8 := length_bigEndian ..

@[simp] theorem toUInt16_ofUInt16 (n : UInt16) : toUInt16 (ofUInt16 n) = n := by
  rw [toUInt16, ofUInt16, value_bigEndian n.toNat_lt, UInt16.ofNat_toNat]

@[simp] theorem toUInt32_ofUInt32 (n : UInt32) : toUInt32 (ofUInt32 n) = n := by
  rw [toUInt32, ofUInt32, value_bigEndian n.toNat_lt, UInt32.ofNat_toNat]

@[simp] theorem toUInt64_ofUInt64 (n : UInt64) : toUInt64 (ofUInt64 n) = n := by
  rw [toUInt64, ofUInt64, value_bigEndian n.toNat_lt, UInt64.ofNat_toNat]

@[simp] theorem toInt64_ofInt64 (n : Int64) : toInt64 (ofInt64 n) = n := by
  rw [toInt64, ofInt64, toUInt64_ofUInt64]
  simp

/-- The first `n` bytes and what follows them, if there are that many. -/
def splitAt? : Nat → Bytes → Option (Bytes × Bytes)
  | 0, rest => some ([], rest)
  | _ + 1, [] => none
  | n + 1, b :: rest => (splitAt? n rest).map fun parts => (b :: parts.1, parts.2)

theorem splitAt?_append (taken rest : Bytes) :
    splitAt? taken.length (taken ++ rest) = some (taken, rest) := by
  induction taken with
  | nil => rfl
  | cons b taken ih => simp [splitAt?, ih]

theorem splitAt?_eq_some {n : Nat} {bytes taken rest : Bytes}
    (h : splitAt? n bytes = some (taken, rest)) : taken.length = n ∧ taken ++ rest = bytes := by
  induction n generalizing bytes taken with
  | zero =>
    simp only [splitAt?, Option.some.injEq, Prod.mk.injEq] at h
    simp [← h.1, ← h.2]
  | succ n ih =>
    cases bytes with
    | nil => simp [splitAt?] at h
    | cons b bytes =>
      simp only [splitAt?, Option.map_eq_some_iff, Prod.mk.injEq] at h
      obtain ⟨⟨first, last⟩, hsplit, rfl, rfl⟩ := h
      obtain ⟨hlength, happend⟩ := ih hsplit
      simp [hlength, happend]

end Bytes

end Rollup
