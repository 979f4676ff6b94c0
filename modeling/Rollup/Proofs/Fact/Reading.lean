import Rollup.Proofs.Fact.Deletion

namespace Rollup

open Storage

namespace SortedMap

variable {κ α ε : Type} [KeyOrder κ] {f : SortedMap κ α → ε → Except Error (SortedMap κ α)}
  {R : κ → α → Prop} {C : ε → κ → α → Prop}

theorem foldlM_eq (l : List ε)
    (hstep : ∀ e ∈ l, ∀ m, (∀ k v, m.get? k = some v → R k v) → ∃ m', f m e = .ok m' ∧
      ∀ k v, m'.get? k = some v ↔ m.get? k = some v ∨ C e k v)
    (hadded : ∀ e ∈ l, ∀ k v, C e k v → R k v) (m : SortedMap κ α)
    (hm : ∀ k v, m.get? k = some v → R k v) :
    ∃ m', l.foldlM f m = .ok m' ∧
      ∀ k v, m'.get? k = some v ↔ m.get? k = some v ∨ ∃ e ∈ l, C e k v := by
  induction l generalizing m with
  | nil => exact ⟨m, rfl, by simp⟩
  | cons e l ih =>
      obtain ⟨m₁, hfirst, hget⟩ := hstep e (List.mem_cons_self ..) m hm
      have hm₁ : ∀ k v, m₁.get? k = some v → R k v := by
        intro k v h
        rcases (hget k v).mp h with h | h
        · exact hm k v h
        · exact hadded e (List.mem_cons_self ..) k v h
      obtain ⟨m₂, hrest, hget'⟩ := ih (fun e' h => hstep e' (List.mem_cons_of_mem _ h))
        (fun e' h => hadded e' (List.mem_cons_of_mem _ h)) m₁ hm₁
      refine ⟨m₂, ?_, ?_⟩
      · simp only [List.foldlM_cons, hfirst, bind, Except.bind]
        exact hrest
      · intro k v
        rw [hget', hget, or_assoc]
        simp

end SortedMap

namespace FactTable

variable {t : FactTable} {T : Table} {s : Storage} {range : TimeRange}

/-- The bucket of a time counts for a query, which for all time is always the case. -/
def InRange (t : FactTable) (range : TimeRange) (time : Int64) : Prop :=
  t.resolution = .total ∨
    range.contains (Place.timestamp t.resolution (t.locate time)) = true

theorem base_mono (ht : t.Rolled) {time time' : Int64} (htime : 0 ≤ time.toInt)
    (hle : time.toInt ≤ time'.toInt) :
    (t.locate time).base.toNat ≤ (t.locate time').base.toNat := by
  by_cases htotal : t.resolution = .total
  · simp only [locate, Place.ofTimestamp, htotal, Nat.le_refl]
  · have hw := t.resolution.width_pos
    have htime' : 0 ≤ time'.toInt := by omega
    have hbuckets := Int.ediv_le_ediv hw hle
    rcases Int.lt_or_eq_of_le hbuckets with hlt | heq
    · rcases (Place.ofTimestamp_lt_iff htotal ht.pos ht.le htime htime').mp hlt with h | ⟨h, -⟩
      · exact Nat.le_of_lt h
      · exact Nat.le_of_eq h
    · have hplace : t.locate time = t.locate time' := by
        refine (Place.ofTimestamp_eq_iff ht.pos ht.le htime htime').mpr ?_
        rw [Resolution.bucketStart_eq htotal, Resolution.bucketStart_eq htotal, heq]
      exact Nat.le_of_eq (by rw [hplace])

theorem locate_timestamp (ht : t.Rolled) {time : Int64} (htime : 0 ≤ time.toInt) :
    0 ≤ (Place.timestamp t.resolution (t.locate time)).toInt ∧
      t.locate (Place.timestamp t.resolution (t.locate time)) = t.locate time := by
  have hstart : (Place.timestamp t.resolution (t.locate time)).toInt =
      t.resolution.bucketStart time.toInt := Place.timestamp_ofTimestamp ht.pos ht.le htime
  have hnonneg := t.resolution.bucketStart_nonneg htime
  rw [← hstart] at hnonneg
  refine ⟨hnonneg, (Place.ofTimestamp_eq_iff ht.pos ht.le hnonneg htime).mpr ?_⟩
  rw [hstart, Resolution.bucketStart_bucketStart]

theorem rowsOf_eq (htotal : t.resolution ≠ .total) (range : TimeRange) :
    t.rowsOf range = if range.last < range.first || range.last < 0 then none else
      some ⟨Bytes.ofUInt64 (t.locate (if range.first < 0 then 0 else range.first)).base,
        if (t.locate range.last).base.toNat + (t.roll * t.resolution.width).toUInt64.toNat <
            Bytes.capacity 8 then
          some (Bytes.ofUInt64 ((t.locate range.last).base +
            (t.roll * t.resolution.width).toUInt64))
        else none⟩ := by
  unfold rowsOf
  cases hr : t.resolution with
  | total => exact absurd hr htotal
  | second | minute | hour => rfl

theorem rowsOf_eq_none (ht : t.Rolled) (h : t.rowsOf range = none) {time : Int64}
    (htime : 0 ≤ time.toInt) : ¬ t.InRange range time := by
  have htotal : t.resolution ≠ .total := by
    intro htotal
    simp [rowsOf, htotal] at h
  rintro (htotal' | hcontains)
  · exact htotal htotal'
  · have hstart := (locate_timestamp ht htime).1
    simp only [TimeRange.contains, Bool.and_eq_true, decide_eq_true_eq,
      Int64.le_iff_toInt_le] at hcontains
    have hempty : range.last < range.first ∨ range.last < 0 := by
      rw [rowsOf_eq htotal] at h
      split at h
      · next hempty => simpa using hempty
      · cases h
    simp only [Int64.lt_iff_toInt_lt, Int64.toInt_zero] at hempty
    omega

theorem toInt_span (ht : t.Rolled) (htotal : t.resolution ≠ .total) :
    (t.roll * t.resolution.width).toInt = t.roll.toInt * t.resolution.width.toInt := by
  have hw := t.resolution.width_pos
  have hroll := Int.mul_le_mul ht.le (Resolution.width_le htotal) (Int.le_of_lt hw) (by decide)
  have hpos := Int.mul_pos ht.pos hw
  rw [Int64.toInt_mul, Int.bmod_eq_of_le (by omega) (by omega)]

theorem toNat_span (ht : t.Rolled) (htotal : t.resolution ≠ .total) :
    ((t.roll * t.resolution.width).toUInt64.toNat : Int) =
      t.roll.toInt * t.resolution.width.toInt := by
  have hspan := toInt_span ht htotal
  have hpos := Int.mul_pos ht.pos t.resolution.width_pos
  rw [Place.toNat_toUInt64 (by omega), hspan]

theorem toNat_base_add_span (ht : t.Rolled) (htotal : t.resolution ≠ .total) {time : Int64}
    (htime : 0 ≤ time.toInt) :
    ((t.locate time).base + (t.roll * t.resolution.width).toUInt64).toNat =
      (t.locate time).base.toNat + (t.roll * t.resolution.width).toUInt64.toNat := by
  have hspan := toNat_span ht htotal
  have hspanLe := Int.mul_le_mul ht.le (Resolution.width_le htotal)
    (Int.le_of_lt t.resolution.width_pos) (by decide)
  have hbase := base_lt ht htime
  rw [UInt64.toNat_add, Nat.mod_eq_of_lt (by omega)]

theorem some_bucket_iff :
    ¬ (range.last < range.first || range.last < 0) = true ↔
      range.first.toInt ≤ range.last.toInt ∧ 0 ≤ range.last.toInt := by
  simp only [Bool.or_eq_true, decide_eq_true_eq, Int64.lt_iff_toInt_lt, Int64.toInt_zero, not_or,
    Int.not_lt]

theorem toInt_ite_neg (n : Int64) : (if n < 0 then 0 else n).toInt = max 0 n.toInt := by
  split
  · next hneg =>
    rw [Int64.lt_iff_toInt_lt, Int64.toInt_zero] at hneg
    rw [Int64.toInt_zero, Int.max_eq_left (Int.le_of_lt hneg)]
  · next hnonneg =>
    rw [Int64.lt_iff_toInt_lt, Int64.toInt_zero, Int.not_lt] at hnonneg
    rw [Int.max_eq_right hnonneg]

theorem rowsOf_eq_between (ht : t.Rolled) (htotal : t.resolution ≠ .total)
    (hrange : range.first.toInt ≤ range.last.toInt) (hlast : 0 ≤ range.last.toInt) :
    t.rowsOf range = some (FactKey.between
      (t.locate (if range.first < 0 then 0 else range.first)).base
      (some ((t.locate range.last).base + (t.roll * t.resolution.width).toUInt64))) := by
  have hstop : (t.locate range.last).base.toNat + (t.roll * t.resolution.width).toUInt64.toNat <
      Bytes.capacity 8 := by
    rw [← toNat_base_add_span ht htotal hlast]
    exact UInt64.toNat_lt _
  rw [rowsOf_eq htotal, if_neg (some_bucket_iff.mpr ⟨hrange, hlast⟩), if_pos hstop]
  rfl

theorem rowsOf_eq_some (ht : t.Rolled) {rows : KeyRange} (h : t.rowsOf range = some rows)
    {time : Int64} (htime : 0 ≤ time.toInt) (hrange : t.InRange range time)
    (k : SeriesNumbers) : ∃ part ∈ t.ranges rows, part.contains (t.rowOf k time) = true := by
  by_cases htotal : t.resolution = .total
  · obtain rfl : FactKey.between 0 none = rows := by
      simpa [rowsOf, htotal, FactKey.between] using h
    rw [contains_rowOf]
    simp
  · obtain ⟨hstart, hplace⟩ := locate_timestamp ht htime
    have hcontains := hrange.resolve_left htotal
    simp only [TimeRange.contains, Bool.and_eq_true, decide_eq_true_eq,
      Int64.le_iff_toInt_le] at hcontains
    have hlast : 0 ≤ range.last.toInt := by omega
    have hspan := toNat_span ht htotal
    have hwidth := Int.mul_pos ht.pos t.resolution.width_pos
    rw [rowsOf_eq_between ht htotal (by omega) hlast, Option.some.injEq] at h
    subst h
    have hfirst := toInt_ite_neg range.first
    have hlow := base_mono ht (by omega) (by omega :
      (if range.first < 0 then 0 else range.first).toInt ≤
        (Place.timestamp t.resolution (t.locate time)).toInt)
    have hhigh := base_mono ht hstart hcontains.2
    rw [hplace] at hlow hhigh
    rw [contains_rowOf]
    refine ⟨hlow, ?_⟩
    simp only [Option.mem_def, Option.some.injEq, forall_eq', toNat_base_add_span ht htotal hlast]
    omega

/-- The cell of a series of a metric, named by the start of its bucket. -/
def Shows (t : FactTable) (T : Table) (metric : UInt32) (key : List (UInt32 × UInt32) × Int64)
    (value : Int64) : Prop :=
  ∃ time, 0 ≤ time.toInt ∧ key.2 = Place.timestamp t.resolution (t.locate time) ∧
    T.cell? (t.rowOf ⟨metric, key.1⟩ time) (t.columnOf time) = some (Bytes.ofInt64 value)

def Adds (t : FactTable) (T : Table) (range : TimeRange) (metric : UInt32)
    (wanted : List (UInt32 × UInt32)) (row : Bytes) (key : List (UInt32 × UInt32) × Int64)
    (value : Int64) : Prop :=
  wanted ⊆ key.1 ∧ ∃ time, 0 ≤ time.toInt ∧
    key.2 = Place.timestamp t.resolution (t.locate time) ∧ t.InRange range time ∧
    row = t.rowOf ⟨metric, key.1⟩ time ∧
    T.cell? row (t.columnOf time) = some (Bytes.ofInt64 value)

variable {metric : UInt32} {wanted : List (UInt32 × UInt32)} {row : Row} {part : KeyRange}
  {key : List (UInt32 × UInt32) × Int64} {value value' : Int64}

theorem ofInt64_injective {m n : Int64} (h : Bytes.ofInt64 m = Bytes.ofInt64 n) : m = n := by
  rw [← Bytes.toInt64_ofInt64 m, h, Bytes.toInt64_ofInt64]

theorem Adds.shows {row : Bytes} (h : t.Adds T range metric wanted row key value) :
    t.Shows T metric key value := by
  obtain ⟨-, time, htime, hkey, -, rfl, hcell⟩ := h
  exact ⟨time, htime, hkey, hcell⟩

theorem Shows.unique (ht : t.Rolled) (h : t.Shows T metric key value)
    (h' : t.Shows T metric key value') : value = value' := by
  obtain ⟨time, htime, hkey, hcell⟩ := h
  obtain ⟨time', htime', hkey', hcell'⟩ := h'
  have hplace : t.locate time = t.locate time' := by
    rw [← (locate_timestamp ht htime).2, ← hkey, hkey', (locate_timestamp ht htime').2]
  have hrow : t.rowOf ⟨metric, key.1⟩ time = t.rowOf ⟨metric, key.1⟩ time' := by
    simp only [rowOf, keyOf, hplace]
  have hcolumn : t.columnOf time = t.columnOf time' := by
    simp only [columnOf, hplace]
  rw [hrow, hcolumn, hcell'] at hcell
  exact (ofInt64_injective (Option.some.inj hcell)).symm

theorem exists_rowOf (hlaid : t.Laid T) (h : row ∈ T.scan part) :
    ∃ k time, row.key = t.rowOf k time := by
  have hget := (Table.mem_scan.mp h).2
  have hnonempty := T.nonempty _ (SortedMap.mem_entries.mpr hget)
  rw [SortedMap.isEmpty_eq] at hnonempty
  cases hentries : row.columns.entries with
  | nil => simp [hentries] at hnonempty
  | cons e entries =>
      have hmem : row.columns.get? e.1 = some e.2 :=
        SortedMap.mem_entries.mp (hentries ▸ List.mem_cons_self ..)
      rw [Table.get?_columns_of_mem_scan h] at hmem
      obtain ⟨k, time, _, -, hrow, -⟩ := hlaid _ _ _ hmem
      exact ⟨k, time, hrow⟩

theorem rowOf_eq_iff {k k' : SeriesNumbers} {time time' : Int64} :
    t.rowOf k time = t.rowOf k' time' ↔ k = k' ∧ (t.locate time).base = (t.locate time').base := by
  constructor
  · intro h
    have hkey := FactKey.encode_injective (physicalKey_injective h)
    simp only [keyOf, FactKey.mk.injEq] at hkey
    rw [SeriesNumbers.mk.injEq]
    exact ⟨hkey.2, hkey.1⟩
  · rintro ⟨rfl, hbase⟩
    simp only [rowOf, keyOf, hbase]

theorem adds_iff_of_cell (ht : t.Rolled) (range : TimeRange) {k : SeriesNumbers} {time : Int64}
    (hmetric : k.metric = metric) (hwanted : wanted ⊆ k.tags) (htime : 0 ≤ time.toInt)
    (hcell : T.cell? (t.rowOf k time) (t.columnOf time) = some (Bytes.ofInt64 value))
    (key : List (UInt32 × UInt32) × Int64) (v : Int64) :
    t.Adds T range metric wanted (t.rowOf k time) key v ∧
        t.columnOf time = Place.encodeOffset (t.locate key.2).offset ↔
      key = (k.tags, Place.timestamp t.resolution (t.locate time)) ∧ v = value ∧
        t.InRange range time := by
  constructor
  · rintro ⟨⟨-, time', htime', hkey, hrange, hrow, hcell'⟩, hcolumn⟩
    obtain ⟨hk, hbase⟩ := rowOf_eq_iff.mp hrow
    rw [hkey, (locate_timestamp ht htime').2] at hcolumn
    have hlocate : t.locate time' = t.locate time := by
      rw [Place.mk.injEq]
      exact ⟨hbase.symm, (encodeOffset_injective hcolumn).symm⟩
    have hvalue : v = value := by
      refine ofInt64_injective (Option.some.inj ?_)
      rw [← hcell', ← hcell]
      simp only [columnOf, hlocate]
    refine ⟨Prod.ext (by rw [hk]) (by rw [hkey, hlocate]), hvalue, ?_⟩
    simpa only [InRange, hlocate] using hrange
  · rintro ⟨rfl, rfl, hrange⟩
    refine ⟨⟨hwanted, time, htime, rfl, hrange, ?_, hcell⟩, ?_⟩
    · rw [← hmetric]
    · simp only [(locate_timestamp ht htime).2]
      rfl

theorem readCell_eq (ht : t.Rolled) (hlaid : t.Laid T) {k : SeriesNumbers} {time : Int64}
    (hmetric : k.metric = metric) (hwanted : wanted ⊆ k.tags) {cell : Bytes × Bytes}
    (hcell : T.cell? (t.rowOf k time) cell.1 = some cell.2) (points : SeriesPoints)
    (hpoints : ∀ key v, points.get? key = some v → t.Shows T metric key v) :
    ∃ points', t.readCell range (t.keyOf k time) points cell = .ok points' ∧
      ∀ key v, points'.get? key = some v ↔ points.get? key = some v ∨
        t.Adds T range metric wanted (t.rowOf k time) key v ∧
          cell.1 = Place.encodeOffset (t.locate key.2).offset := by
  obtain ⟨k', time', stored, htime', hrow, hcolumn, hvalue⟩ := hlaid _ _ _ hcell
  obtain ⟨rfl, hbase⟩ := rowOf_eq_iff.mp hrow
  have hplace : (⟨(t.keyOf k time).base, (t.locate time').offset⟩ : Place) = t.locate time' := by
    rw [Place.mk.injEq]
    exact ⟨hbase, rfl⟩
  have hadds := adds_iff_of_cell ht range hmetric hwanted htime'
    (hrow ▸ hcolumn ▸ hvalue ▸ hcell)
  rw [← hrow, ← hcolumn] at hadds
  have hdecode : Place.decodeOffset cell.1 = .ok (t.locate time').offset := by
    rw [hcolumn]
    exact Place.decodeOffset_encodeOffset _
  simp only [readCell, hdecode, hplace, bind, Except.bind, pure, Except.pure, hadds]
  have hskip : (t.resolution != .total &&
      !range.contains (Place.timestamp t.resolution (t.locate time'))) = true ↔
        ¬ t.InRange range time' := by
    simp [InRange]
  split
  · next hout =>
    refine ⟨points, rfl, fun key v => ?_⟩
    simp [hskip.mp hout]
  · next hin =>
    have hin' : t.InRange range time' := Classical.not_not.mp (mt hskip.mpr hin)
    rw [hvalue, Table.readLong_ofInt64]
    refine ⟨_, rfl, fun key v => ?_⟩
    rw [SortedMap.get?_insert]
    split
    · next hkey =>
      have hshows : t.Shows T metric key stored :=
        ((hadds key stored).mpr ⟨hkey, rfl, hin'⟩).1.shows
      constructor
      · intro h
        exact .inr ⟨hkey, (Option.some.inj h).symm, hin'⟩
      · rintro (h | ⟨-, rfl, -⟩)
        · rw [(hpoints key v h).unique ht hshows]
        · rfl
    · next hkey =>
      have hkey : ¬ key = (k.tags, Place.timestamp t.resolution (t.locate time')) := hkey
      simp only [hkey, false_and, or_false]

theorem readRow_eq (ht : t.Rolled) (hlaid : t.Laid T) (hrow : row ∈ T.scan part)
    (points : SeriesPoints) (hpoints : ∀ key v, points.get? key = some v → t.Shows T metric key v) :
    ∃ points', t.readRow range metric wanted points row = .ok points' ∧
      ∀ key v, points'.get? key = some v ↔ points.get? key = some v ∨
        t.Adds T range metric wanted row.key key v := by
  obtain ⟨k, time, hkey⟩ := exists_rowOf hlaid hrow
  have hdecode : FactKey.decode (t.logicalKey row.key) = .ok (t.keyOf k time) := by
    rw [hkey, rowOf, logicalKey_physicalKey, FactKey.decode_encode]
  have hkeyOf : (t.keyOf k time).metric = k.metric ∧ (t.keyOf k time).tags = k.tags := ⟨rfl, rfl⟩
  simp only [readRow, hdecode, bind, Except.bind, pure, Except.pure, hkeyOf]
  split
  · next hother =>
    refine ⟨points, rfl, fun key v => ⟨.inl, ?_⟩⟩
    rintro (h | ⟨hwanted, time', -, -, -, hrow', -⟩)
    · exact h
    · obtain ⟨rfl, -⟩ := rowOf_eq_iff.mp (hkey.symm.trans hrow')
      have hall : wanted.all key.1.contains = true := by
        rw [List.all_eq_true]
        exact fun id hid => List.contains_iff_mem.mpr (hwanted hid)
      simp [hall] at hother
  · next hsame =>
    simp only [Bool.or_eq_true, bne_iff_ne, Bool.not_eq_true', not_or, ne_eq, Decidable.not_not,
      Bool.not_eq_false, List.all_eq_true, List.contains_iff_mem] at hsame
    obtain ⟨points', hfold, hget⟩ := SortedMap.foldlM_eq (R := t.Shows T metric)
      (C := fun cell key v => t.Adds T range metric wanted (t.rowOf k time) key v ∧
        cell.1 = Place.encodeOffset (t.locate key.2).offset) row.columns.entries
      (fun cell hcell points hpoints => readCell_eq ht hlaid hsame.1 hsame.2 (by
        rw [← hkey, ← Table.get?_columns_of_mem_scan hrow]
        exact SortedMap.mem_entries.mp hcell) points hpoints)
      (fun _ _ _ _ h => h.1.shows) points hpoints
    refine ⟨points', hfold, fun key v => ?_⟩
    rw [hget, hkey]
    refine or_congr_right ⟨?_, ?_⟩
    · rintro ⟨_, _, h, -⟩
      exact h
    · intro h
      obtain ⟨-, time', htime', hkey', -, -, hcell⟩ := id h
      refine ⟨(t.columnOf time', Bytes.ofInt64 v), ?_, h, ?_⟩
      · rw [SortedMap.mem_entries, Table.get?_columns_of_mem_scan hrow, hkey]
        exact hcell
      · rw [hkey', (locate_timestamp ht htime').2]
        rfl

theorem readRows_eq (ht : t.Rolled) (hlaid : t.Laid T) (range : TimeRange) (metric : UInt32)
    (wanted : List (UInt32 × UInt32)) (ranges : List KeyRange) :
    ∃ points, (ranges.flatMap T.scan).foldlM (t.readRow range metric wanted) .empty = .ok points ∧
      ∀ key v, SortedMap.get? points key = some v ↔
        ∃ row, (∃ part ∈ ranges, part.contains row = true) ∧
          t.Adds T range metric wanted row key v := by
  obtain ⟨points, hfold, hget⟩ := SortedMap.foldlM_eq (R := t.Shows T metric)
    (C := fun row key v => t.Adds T range metric wanted row.key key v) (ranges.flatMap T.scan)
    (fun row hrow points hpoints => by
      obtain ⟨part, -, hscan⟩ := List.mem_flatMap.mp hrow
      exact readRow_eq ht hlaid hscan points hpoints)
    (fun _ _ _ _ h => h.shows) .empty (by simp)
  refine ⟨points, hfold, fun key v => ?_⟩
  rw [hget, SortedMap.get?_empty]
  constructor
  · rintro (h | ⟨row, hrow, h⟩)
    · cases h
    · obtain ⟨part, hpart, hscan⟩ := List.mem_flatMap.mp hrow
      exact ⟨row.key, ⟨part, hpart, (Table.mem_scan.mp hscan).1⟩, h⟩
  · rintro ⟨row, ⟨part, hpart, hcontains⟩, h⟩
    obtain ⟨-, time, -, -, -, rfl, hcell⟩ := id h
    obtain ⟨row, hscan, hkey⟩ := Table.exists_mem_scan hcell hcontains
    exact .inr ⟨row, List.mem_flatMap.mpr ⟨part, hpart, hscan⟩, hkey ▸ h⟩

end FactTable

end Rollup
