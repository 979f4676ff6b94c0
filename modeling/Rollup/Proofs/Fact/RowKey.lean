import Rollup.Proofs.Fact.Deletion

namespace Rollup

open KeyOrder Storage

namespace FactKey

variable {key : FactKey} {bytes : Bytes}

theorem encodeTags_cons (tag : UInt32 × UInt32) (tags : List (UInt32 × UInt32)) :
    encodeTags (tag :: tags) =
      (Bytes.ofUInt32 tag.1 ++ Bytes.ofUInt32 tag.2) ++ encodeTags tags := rfl

theorem length_encodeTags (tags : List (UInt32 × UInt32)) :
    (encodeTags tags).length = 8 * tags.length := by
  induction tags with
  | nil => rfl
  | cons tag tags ih =>
      simp only [encodeTags_cons, List.length_append, Bytes.length_ofUInt32, ih,
        List.length_cons]
      omega

theorem length_encode (key : FactKey) : key.encode.length = 12 + 8 * key.tags.length := by
  simp only [encode, List.length_append, Bytes.length_ofUInt64, Bytes.length_ofUInt32,
    length_encodeTags]
  omega

theorem take_append_rest (bytes : Bytes) (start size : Nat) :
    (bytes.drop start).take size ++ bytes.drop (start + size) = bytes.drop start := by
  rw [← List.drop_drop, List.take_append_drop]

theorem exists_encodeTags {n : Nat} (h : bytes.length = 8 * n) :
    ∃ tags, encodeTags tags = bytes := by
  induction n generalizing bytes with
  | zero =>
      obtain rfl := List.length_eq_zero_iff.mp h
      exact ⟨[], rfl⟩
  | succ n ih =>
      have hrest : (bytes.drop 8).length = 8 * n := by rw [List.length_drop]; omega
      obtain ⟨tags, htags⟩ := ih hrest
      refine ⟨(Bytes.toUInt32 (bytes.take 4), Bytes.toUInt32 ((bytes.drop 4).take 4)) :: tags, ?_⟩
      have hname : (bytes.take 4).length = 4 := by rw [List.length_take]; omega
      have hvalue : ((bytes.drop 4).take 4).length = 4 := by
        rw [List.length_take, List.length_drop]
        omega
      have hsplit : (bytes.drop 4).take 4 ++ bytes.drop 8 = bytes.drop 4 :=
        take_append_rest bytes 4 4
      rw [encodeTags_cons, Bytes.ofUInt32_toUInt32 hname, Bytes.ofUInt32_toUInt32 hvalue, htags,
        List.append_assoc, hsplit, List.take_append_drop]

theorem exists_encode {n : Nat} (h : bytes.length = 12 + 8 * n) :
    ∃ key : FactKey, key.encode = bytes := by
  have hrest : (bytes.drop 12).length = 8 * n := by rw [List.length_drop]; omega
  obtain ⟨tags, htags⟩ := exists_encodeTags hrest
  have hbase : (bytes.take 8).length = 8 := by rw [List.length_take]; omega
  have hmetric : ((bytes.drop 8).take 4).length = 4 := by
    rw [List.length_take, List.length_drop]
    omega
  refine ⟨⟨Bytes.toUInt64 (bytes.take 8), Bytes.toUInt32 ((bytes.drop 8).take 4), tags⟩, ?_⟩
  have hsplit : (bytes.drop 8).take 4 ++ bytes.drop 12 = bytes.drop 8 :=
    take_append_rest bytes 8 4
  rw [encode, Bytes.ofUInt64_toUInt64 hbase, Bytes.ofUInt32_toUInt32 hmetric, htags, hsplit,
    List.take_append_drop]

theorem encodeTags_of_decodeTags? {tags : List (UInt32 × UInt32)}
    (h : decodeTags? bytes = some tags) : encodeTags tags = bytes := by
  induction bytes using decodeTags?.induct generalizing tags with
  | case1 =>
      cases h
      rfl
  | case2 n₀ n₁ n₂ n₃ v₀ v₁ v₂ v₃ rest ih =>
      rw [decodeTags?, Option.map_eq_some_iff] at h
      obtain ⟨tags, htags, rfl⟩ := h
      rw [encodeTags_cons, ih htags, Bytes.ofUInt32_toUInt32 rfl, Bytes.ofUInt32_toUInt32 rfl]
      rfl
  | case3 bytes hnil hcons =>
      rw [decodeTags?] at h
      · cases h
      · exact hnil
      · exact hcons

theorem encode_of_decode (h : decode bytes = .ok key) : key.encode = bytes := by
  cases hkey : decode? bytes with
  | none =>
      rw [decode, hkey] at h
      cases h
  | some key' =>
      rw [decode, hkey] at h
      cases h
      simp only [decode?, bind, Option.bind_eq_some_iff] at hkey
      obtain ⟨⟨base, rest⟩, hbase, ⟨metric, rest'⟩, hmetric, tags, htags, hkey⟩ := hkey
      obtain ⟨hbaseLength, rfl⟩ := Bytes.splitAt?_eq_some hbase
      obtain ⟨hmetricLength, rfl⟩ := Bytes.splitAt?_eq_some hmetric
      cases hkey
      rw [encode, Bytes.ofUInt64_toUInt64 hbaseLength, Bytes.ofUInt32_toUInt32 hmetricLength,
        encodeTags_of_decodeTags? htags]

theorem decode_eq_ok_iff : decode bytes = .ok key ↔ key.encode = bytes := by
  constructor
  · exact encode_of_decode
  · rintro rfl
    exact decode_encode key

theorem length_of_decode (h : decode bytes = .ok key) :
    bytes.length = 12 + 8 * key.tags.length := by
  rw [← encode_of_decode h, length_encode]

theorem exists_decode_iff : (∃ key, decode bytes = .ok key) ↔ ∃ n, bytes.length = 12 + 8 * n := by
  constructor
  · rintro ⟨key, h⟩
    exact ⟨_, length_of_decode h⟩
  · rintro ⟨n, h⟩
    obtain ⟨key, hkey⟩ := exists_encode h
    exact ⟨key, decode_eq_ok_iff.mpr hkey⟩

theorem before_encodeTags (tags tags' : List (UInt32 × UInt32)) :
    before (encodeTags tags) (encodeTags tags') = before tags tags' := by
  induction tags generalizing tags' with
  | nil => cases tags' <;> rfl
  | cons tag tags ih =>
      cases tags' with
      | nil => rfl
      | cons tag' tags' =>
          have htag : ∀ a b : UInt32 × UInt32,
              before (Bytes.ofUInt32 a.1 ++ Bytes.ofUInt32 a.2)
                (Bytes.ofUInt32 b.1 ++ Bytes.ofUInt32 b.2) = before a b := by
            intro a b
            rw [Bytes.before_append _ _ (by simp)]
            simp only [Bytes.before_ofUInt32]
            rfl
          rw [encodeTags_cons, encodeTags_cons, Bytes.before_append _ _ (by simp), htag, htag, ih]
          rfl

theorem before_encode (key key' : FactKey) : before key.encode key'.encode =
    before (key.base.toNat, key.metric, key.tags) (key'.base.toNat, key'.metric, key'.tags) := by
  rw [encode, encode, Bytes.before_append _ _ (by simp), Bytes.before_append _ _ (by simp),
    before_encodeTags]
  simp only [Bytes.before_ofUInt64, Bytes.before_ofUInt32]
  rfl

theorem contains_between_iff (a b : UInt64) (key : FactKey) :
    (between a (some b)).contains key.encode = true ↔ a ≤ key.base ∧ key.base < b := by
  rw [contains_between, UInt64.le_iff_toNat_le, UInt64.lt_iff_toNat_lt]
  simp

theorem ordered_between {a b : UInt64} (h : a ≤ b) : (between a (some b)).Ordered := by
  rintro _ ⟨⟩
  show before (Bytes.ofUInt64 b) (Bytes.ofUInt64 a) = false
  rw [Bytes.before_ofUInt64]
  exact decide_eq_false (Nat.not_lt.mpr (UInt64.le_iff_toNat_le.mp h))

end FactKey

namespace FactTable

variable {t : FactTable} {s : Storage} {T : Table} {row : Row}

theorem ordered_ranges (t : FactTable) {range : KeyRange} (h : range.Ordered) :
    ∀ part ∈ t.ranges range, part.Ordered := by
  unfold ranges
  cases t.salting with
  | none => simpa using h
  | some salting =>
      intro part hpart
      obtain ⟨bucket, -, rfl⟩ := List.mem_map.mp hpart
      exact (Salting.ordered_rangeIn bucket range).mpr h

theorem mem_scans {ranges : List KeyRange} : row ∈ ranges.flatMap T.scan ↔
    (∃ part ∈ ranges, part.contains row.key = true) ∧ T.rows.get? row.key = some row.columns := by
  simp only [List.mem_flatMap, Table.mem_scan, ← and_assoc, exists_and_right]

/-- Row keys are an encoding that keeps the order. Reading and writing them undo each other,
the strings of twelve bytes and eight more for each tag are the keys, and keys lie in the order
of base time, metric and tags. Between two base times lie the keys with base times from the
first on and before the second, and so do the salted keys in the part of each bucket. A scan
between the two asks for no range upside down, and of the rows of the table it sees exactly
these, each of them once. -/
theorem rows_between_bases :
    (∀ bytes key, FactKey.decode bytes = .ok key ↔ key.encode = bytes) ∧
    (∀ bytes, (∃ key, FactKey.decode bytes = .ok key) ↔ ∃ n, bytes.length = 12 + 8 * n) ∧
    (∀ key key' : FactKey, before key.encode key'.encode =
      before (key.base.toNat, key.metric, key.tags) (key'.base.toNat, key'.metric, key'.tags)) ∧
    ∀ a b : UInt64, a ≤ b →
      (∀ key : FactKey, (FactKey.between a (some b)).contains key.encode = true ↔
        a ≤ key.base ∧ key.base < b) ∧
      (∀ (salting : Salting) i part,
        (salting.ranges (FactKey.between a (some b)))[i]? = some part → ∀ key : FactKey,
          (part.contains (UInt8.ofNat i :: key.encode) = true ↔ a ≤ key.base ∧ key.base < b) ∧
          (part.contains (salting.distribute key.encode) = true ↔
            i = (salting.bucketOf key.encode).toNat ∧ a ≤ key.base ∧ key.base < b)) ∧
      ∀ (t : FactTable) (s : Storage) T, s.Holds t.table T →
        (∀ part ∈ t.ranges (FactKey.between a (some b)), part.Ordered) ∧
        ∃ rows, (t.scanAll (t.ranges (FactKey.between a (some b)))).run answer s = (.ok rows, s) ∧
          (rows.map Row.key).Nodup ∧
          (∀ row ∈ rows, T.rows.get? row.key = some row.columns) ∧
          ∀ (key : FactKey) columns, ⟨t.physicalKey key.encode, columns⟩ ∈ rows ↔
            T.rows.get? (t.physicalKey key.encode) = some columns ∧
              a ≤ key.base ∧ key.base < b := by
  refine ⟨fun _ _ => FactKey.decode_eq_ok_iff, fun _ => FactKey.exists_decode_iff,
    FactKey.before_encode, fun a b hab => ⟨FactKey.contains_between_iff a b, ?_, ?_⟩⟩
  · intro salting i part hpart key
    obtain ⟨hi, rfl⟩ := Salting.getElem?_ranges hpart
    constructor
    · rw [Salting.contains_rangeIn, FactKey.contains_between_iff]
      exact and_iff_right rfl
    · rw [Salting.distribute, Salting.contains_rangeIn, FactKey.contains_between_iff,
        Salting.bucketOf_eq_ofNat_iff hi]
  · intro t s T hT
    refine ⟨t.ordered_ranges (FactKey.ordered_between hab), _, scanAll_run hT _,
      t.nodup_keys_scans T _, fun row hrow => (mem_scans.mp hrow).2, fun key columns => ?_⟩
    rw [mem_scans, contains_ranges, FactKey.contains_between_iff, and_comm]

def threeRows (t : FactTable) : Table :=
  [0, 600, 1200].foldl
    (fun T base => T.setCell (t.physicalKey (FactKey.encode ⟨base, 7, [(1, 2)]⟩)) [0, 0] (some []))
    .empty

/-- Of three rows the scan sees the one whose key begins with the first bound, and not the one
whose key begins with the second. -/
theorem second_of_three_rows :
    let t := current ⟨"s", "f"⟩ ⟨⟨"s", "e"⟩, 0⟩ .minute 10 ⟨16, by decide, by decide⟩
    let row := fun base => t.physicalKey (FactKey.encode ⟨base, 7, [(1, 2)]⟩)
    let s : Storage := { catalog := ({} : Catalog).put t.table ⟨{}, t.threeRows, true⟩ }
    (600 : UInt64) ≤ 1200 ∧ s.Holds t.table t.threeRows ∧ t.threeRows.rowCount = 3 ∧
      ∃ rows, (t.scanAll (t.ranges (FactKey.between 600 (some 1200)))).run answer s =
        (.ok rows, s) ∧ (∃ columns, ⟨row 600, columns⟩ ∈ rows) ∧
        ∀ columns, ⟨row 0, columns⟩ ∉ rows ∧ ⟨row 1200, columns⟩ ∉ rows := by
  intro t row s
  have hle : (600 : UInt64) ≤ 1200 := by decide
  have hholds : s.Holds t.table t.threeRows := ⟨{}, by simp [s, Catalog.find?_put]⟩
  have hmiddle : (t.threeRows.rows.get? (row 600)).isSome = true := by decide +kernel
  obtain ⟨columns, hcolumns⟩ := Option.isSome_iff_exists.mp hmiddle
  obtain ⟨-, -, hscan⟩ := rows_between_bases.2.2.2 600 1200 hle
  obtain ⟨-, rows, hrun, -, -, hrows⟩ := hscan t s t.threeRows hholds
  refine ⟨hle, hholds, by decide +kernel, rows, hrun,
    ⟨columns, (hrows _ columns).mpr ⟨hcolumns, by decide⟩⟩,
    fun columns => ⟨fun h => ?_, fun h => ?_⟩⟩
  · exact absurd ((hrows _ columns).mp h).2 (by decide)
  · exact absurd ((hrows _ columns).mp h).2 (by decide)

end FactTable

end Rollup
