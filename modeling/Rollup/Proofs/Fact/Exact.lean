import Rollup.Proofs.Fact.RowKey
import Rollup.Proofs.Fact.Steps

/-!
The work of a table in exact numbers. Every sum, difference, product and quotient is taken over
the integers and must fit the word that is to hold it; where this fails the work has no result.
-/

namespace Rollup

open Storage

/-- The time that is read off a row and a column fits a word. -/
def FactTable.Timed (t : FactTable) (row column : Bytes) : Prop :=
  ∀ key offset, FactKey.decode (t.logicalKey row) = .ok key →
    Place.decodeOffset column = .ok offset →
      (key.base.toNat : Int) + offset.toNat * t.resolution.width.toInt < 2 ^ 63

namespace Exact

variable {α β : Type}

def fit (low high : Int) (word : Int → α) (n : Int) : Option α :=
  if low ≤ n ∧ n < high then some (word n) else none

theorem fit_eq_some_iff {low high n : Int} {word : Int → α} (value : α → Int) {w : α}
    (hvalue : ∀ n, low ≤ n → n < high → value (word n) = n)
    (hword : ∀ w, low ≤ value w ∧ value w < high ∧ word (value w) = w) :
    fit low high word n = some w ↔ value w = n := by
  rw [fit]
  constructor
  · intro h
    split at h
    · next hfits =>
      obtain rfl := Option.some.inj h
      exact hvalue n hfits.1 hfits.2
    · cases h
  · rintro rfl
    obtain ⟨hlow, hhigh, heq⟩ := hword w
    rw [if_pos ⟨hlow, hhigh⟩, heq]

def int64? : Int → Option Int64 := fit (-2 ^ 63) (2 ^ 63) Int64.ofInt

theorem int64?_eq_some_iff {n : Int} {w : Int64} : int64? n = some w ↔ w.toInt = n :=
  fit_eq_some_iff Int64.toInt (fun _ => Int64.toInt_ofInt_of_le)
    fun w => ⟨w.le_toInt, w.toInt_lt, Int64.ofInt_toInt w⟩

def unsigned (size : Nat) (word : Nat → α) : Int → Option α := fit 0 size fun n => word n.toNat

theorem unsigned_eq_some_iff {size : Nat} {n : Int} {word : Nat → α} (value : α → Nat) {w : α}
    (hvalue : ∀ n, n < size → value (word n) = n)
    (hword : ∀ w, value w < size ∧ word (value w) = w) :
    unsigned size word n = some w ↔ (value w : Int) = n := by
  refine fit_eq_some_iff (fun w => (value w : Int)) (fun n hlow hhigh => ?_) fun w => ?_
  · rw [hvalue _ (by omega), Int.toNat_of_nonneg hlow]
  · obtain ⟨hlt, heq⟩ := hword w
    exact ⟨by omega, by omega, by rw [Int.toNat_natCast, heq]⟩

def uint64? : Int → Option UInt64 := unsigned (2 ^ 64) UInt64.ofNat

def uint16? : Int → Option UInt16 := unsigned (2 ^ 16) UInt16.ofNat

theorem uint64?_eq_some_iff {n : Int} {w : UInt64} :
    uint64? n = some w ↔ (w.toNat : Int) = n :=
  unsigned_eq_some_iff UInt64.toNat (fun _ => UInt64.toNat_ofNat_of_lt')
    fun w => ⟨w.toNat_lt, UInt64.ofNat_toNat⟩

theorem uint16?_eq_some_iff {n : Int} {w : UInt16} :
    uint16? n = some w ↔ (w.toNat : Int) = n :=
  unsigned_eq_some_iff UInt16.toNat (fun _ => UInt16.toNat_ofNat_of_lt')
    fun w => ⟨w.toNat_lt, UInt16.ofNat_toNat⟩

def add? (a b : Int64) : Option Int64 := int64? (a.toInt + b.toInt)

def sub? (a b : Int64) : Option Int64 := int64? (a.toInt - b.toInt)

def mul? (a b : Int64) : Option Int64 := int64? (a.toInt * b.toInt)

def div? (a b : Int64) : Option Int64 := if b = 0 then none else int64? (a.toInt / b.toInt)

def mod? (a b : Int64) : Option Int64 := if b = 0 then none else int64? (a.toInt % b.toInt)

theorem div?_eq (a : Int64) {b : Int64} (hb : 0 < b.toInt) :
    div? a b = some (Place.floorDiv a b) := by
  have hne : b ≠ 0 := by
    rintro rfl
    exact absurd hb (by decide)
  rw [div?, if_neg hne, int64?_eq_some_iff, Place.toInt_floorDiv a hb]

theorem mod?_eq (a : Int64) {b : Int64} (hb : 0 < b.toInt) :
    mod? a b = some (Place.floorMod a b) := by
  have hne : b ≠ 0 := by
    rintro rfl
    exact absurd hb (by decide)
  rw [mod?, if_neg hne, int64?_eq_some_iff, Place.toInt_floorMod a hb]

/-- The start of the row of a bucket, and how many buckets of the row come before it. -/
def rowStart (r : Resolution) (roll bucket : Int64) : Option (UInt64 × Int64) := do
  let offset ← mod? bucket roll
  let first ← sub? bucket offset
  let start ← mul? first r.width
  let base ← uint64? start.toInt
  return (base, offset)

def placeOf (r : Resolution) (roll time : Int64) : Option Place := do
  if r = .total then return ⟨0, 0⟩
  let bucket ← div? time r.width
  let (base, offset) ← rowStart r roll bucket
  let column ← uint16? offset.toInt
  return ⟨base, column⟩

def timeOf (r : Resolution) (place : Place) : Option Int64 := do
  let base ← int64? place.base.toNat
  let offset ← int64? place.offset.toNat
  let distance ← mul? offset r.width
  add? base distance

variable {r : Resolution} {roll time : Int64}

theorem rowStart_eq (hroll : 0 < roll.toInt) (htime : 0 ≤ time.toInt) :
    rowStart r roll (Place.floorDiv time r.width) =
      some (((Place.floorDiv time r.width - Place.floorMod (Place.floorDiv time r.width) roll) *
        r.width).toUInt64, Place.floorMod (Place.floorDiv time r.width) roll) := by
  have hfirst : sub? (Place.floorDiv time r.width)
      (Place.floorMod (Place.floorDiv time r.width) roll) =
        some (Place.floorDiv time r.width - Place.floorMod (Place.floorDiv time r.width) roll) := by
    rw [sub?, int64?_eq_some_iff, Place.toInt_sub_floorMod hroll htime,
      Place.toInt_floorMod _ hroll, Place.toInt_floorDiv _ r.width_pos]
  have hstart := Place.toInt_base (r := r) hroll htime
  have hnonneg : 0 ≤ (time.toInt / r.width.toInt - time.toInt / r.width.toInt % roll.toInt) *
      r.width.toInt :=
    Int.mul_nonneg (Int.sub_nonneg_of_le (Place.emod_le_self
      (Int.ediv_nonneg htime (Int.le_of_lt r.width_pos)) hroll)) (Int.le_of_lt r.width_pos)
  have hproduct : mul? (Place.floorDiv time r.width -
      Place.floorMod (Place.floorDiv time r.width) roll) r.width = some
        ((Place.floorDiv time r.width - Place.floorMod (Place.floorDiv time r.width) roll) *
          r.width) := by
    rw [mul?, int64?_eq_some_iff, hstart, Place.toInt_sub_floorMod hroll htime]
  have hbase := uint64?_eq_some_iff.mpr (Place.toNat_toUInt64 (hstart ▸ hnonneg))
  simp only [rowStart, mod?_eq _ hroll, hfirst, hproduct, hbase, Option.bind_eq_bind,
    Option.bind_some, Option.pure_def]

theorem placeOf_eq (hroll : 0 < roll.toInt) (hle : roll.toInt ≤ 65536) (htime : 0 ≤ time.toInt) :
    placeOf r roll time = some (Place.ofTimestamp r roll time) := by
  by_cases hr : r = .total
  · rw [placeOf, if_pos hr, hr]
    rfl
  · have hplace : Place.ofTimestamp r roll time =
        ⟨((Place.floorDiv time r.width - Place.floorMod (Place.floorDiv time r.width) roll) *
          r.width).toUInt64,
          (Place.floorMod (Place.floorDiv time r.width) roll).toUInt64.toUInt16⟩ := by
      cases r <;> first | rfl | exact absurd rfl hr
    have hcolumn : uint16? (Place.floorMod (Place.floorDiv time r.width) roll).toInt =
        some (Place.ofTimestamp r roll time).offset := by
      rw [uint16?_eq_some_iff, Place.offset_ofTimestamp time hr hroll hle,
        Place.toInt_floorMod _ hroll, Place.toInt_floorDiv _ r.width_pos]
    simp only [placeOf, if_neg hr, div?_eq time r.width_pos, rowStart_eq hroll htime, hcolumn,
      Option.bind_eq_bind, Option.bind_some, Option.pure_def, Option.some.injEq]
    rw [hplace]

theorem timeOf_eq {place : Place}
    (h : (place.base.toNat : Int) + place.offset.toNat * r.width.toInt < 2 ^ 63) :
    timeOf r place = some (Place.timestamp r place) := by
  have hdistance : 0 ≤ (place.offset.toNat : Int) * r.width.toInt :=
    Int.mul_nonneg (by omega) (Int.le_of_lt r.width_pos)
  have hbase : place.base.toInt64.toInt = place.base.toNat := Place.toInt_toInt64 (by omega)
  have hproduct : (place.offset.toUInt64.toInt64 * r.width).toInt =
      place.offset.toNat * r.width.toInt := by
    rw [Int64.toInt_mul, Place.toInt_offset, Int.bmod_eq_of_le (by omega) (by omega)]
  have hmul : mul? place.offset.toUInt64.toInt64 r.width =
      some (place.offset.toUInt64.toInt64 * r.width) := by
    rw [mul?, int64?_eq_some_iff, hproduct, Place.toInt_offset]
  have hadd : add? place.base.toInt64 (place.offset.toUInt64.toInt64 * r.width) =
      some (Place.timestamp r place) := by
    rw [add?, int64?_eq_some_iff, Place.toInt_timestamp h, hbase, hproduct]
  have hbase' := int64?_eq_some_iff.mpr hbase
  have hoffset' := int64?_eq_some_iff.mpr (Place.toInt_offset place.offset)
  simp only [timeOf, hbase', hoffset', hmul, hadd, Option.bind_eq_bind, Option.bind_some]

variable {t : FactTable} {cutoff : Int64} {range : TimeRange}

def locate (t : FactTable) (time : Int64) : Option Place := placeOf t.resolution t.roll time

theorem locate_eq (ht : t.Rolled) (htime : 0 ≤ time.toInt) : locate t time = some (t.locate time) :=
  placeOf_eq ht.pos ht.le htime

/-- Finds the rows of a time range. They end where the row after the last one would begin. -/
def rowsOf (t : FactTable) (range : TimeRange) : Option (Option KeyRange) := do
  if t.resolution = .total then return some (FactKey.between 0 none)
  if range.last < range.first || range.last < 0 then return none
  let first ← locate t (if range.first < 0 then 0 else range.first)
  let last ← locate t range.last
  let width ← mul? t.roll t.resolution.width
  let span ← uint64? width.toInt
  let stop ← uint64? (last.base.toNat + span.toNat)
  return some (FactKey.between first.base (some stop))

def firstKept (t : FactTable) (cutoff : Int64) : Option (Option (UInt64 × Int64)) := do
  let bucket ← div? cutoff t.resolution.width
  if bucket ≤ 0 then return none
  let kept ← rowStart t.resolution t.roll bucket
  return some kept

theorem rowsOf_eq (ht : t.Rolled) (range : TimeRange) : rowsOf t range = some (t.rowsOf range) := by
  by_cases htotal : t.resolution = .total
  · simp only [rowsOf, FactTable.rowsOf, htotal]
    rfl
  by_cases hempty : (range.last < range.first || range.last < 0) = true
  · rw [FactTable.rowsOf_eq htotal, if_pos hempty, rowsOf, if_neg htotal, if_pos hempty]
    rfl
  obtain ⟨hrange, hlast⟩ := FactTable.some_bucket_iff.mp hempty
  have hfirst := FactTable.toInt_ite_neg range.first
  have hpos := Int.mul_pos ht.pos t.resolution.width_pos
  have hwidth : mul? t.roll t.resolution.width = some (t.roll * t.resolution.width) :=
    int64?_eq_some_iff.mpr (FactTable.toInt_span ht htotal)
  have hspan : uint64? (t.roll * t.resolution.width).toInt =
      some (t.roll * t.resolution.width).toUInt64 := by
    rw [uint64?_eq_some_iff, FactTable.toNat_span ht htotal, FactTable.toInt_span ht htotal]
  have hstop : uint64? ((t.locate range.last).base.toNat +
      (t.roll * t.resolution.width).toUInt64.toNat) =
        some ((t.locate range.last).base + (t.roll * t.resolution.width).toUInt64) := by
    rw [uint64?_eq_some_iff, FactTable.toNat_base_add_span ht htotal hlast, Int.natCast_add]
  rw [FactTable.rowsOf_eq_between ht htotal hrange hlast, rowsOf, if_neg htotal, if_neg hempty]
  refine Option.bind_eq_some_iff.mpr ⟨_, locate_eq ht (by omega), ?_⟩
  refine Option.bind_eq_some_iff.mpr ⟨_, locate_eq ht hlast, ?_⟩
  refine Option.bind_eq_some_iff.mpr ⟨_, hwidth, ?_⟩
  refine Option.bind_eq_some_iff.mpr ⟨_, hspan, ?_⟩
  exact Option.bind_eq_some_iff.mpr ⟨_, hstop, rfl⟩

theorem ordered_rowsOf (ht : t.Rolled) {rows : KeyRange} (h : t.rowsOf range = some rows) :
    rows.Ordered := by
  by_cases htotal : t.resolution = .total
  · obtain rfl : FactKey.between 0 none = rows := by
      simpa [FactTable.rowsOf, htotal, FactKey.between] using h
    rintro _ ⟨⟩
  by_cases hempty : (range.last < range.first || range.last < 0) = true
  · rw [FactTable.rowsOf_eq htotal, if_pos hempty] at h
    cases h
  obtain ⟨hrange, hlast⟩ := FactTable.some_bucket_iff.mp hempty
  rw [FactTable.rowsOf_eq_between ht htotal hrange hlast, Option.some.injEq] at h
  subst h
  have hfirst := FactTable.toInt_ite_neg range.first
  have hmono := FactTable.base_mono ht (by omega) (by omega :
    (if range.first < 0 then 0 else range.first).toInt ≤ range.last.toInt)
  refine FactKey.ordered_between (UInt64.le_iff_toNat_le.mpr ?_)
  rw [FactTable.toNat_base_add_span ht htotal hlast]
  omega

theorem firstKept_eq (ht : t.Rolled) (cutoff : Int64) :
    firstKept t cutoff = some (t.firstKept? cutoff) := by
  have hdiv := div?_eq cutoff t.resolution.width_pos
  by_cases hle : Place.floorDiv cutoff t.resolution.width ≤ 0
  · simp only [firstKept, hdiv, FactTable.firstKept?, if_pos hle, Option.bind_eq_bind,
      Option.bind_some, Option.pure_def]
  · have hpos : 0 < (Place.floorDiv cutoff t.resolution.width).toInt := by
      rwa [Int64.le_iff_toInt_le, Int64.toInt_zero, Int.not_le] at hle
    have hkept := rowStart_eq (r := t.resolution) ht.pos (Place.nonneg_of_floorDiv_pos hpos)
    simp only [firstKept, hdiv, FactTable.firstKept?, if_neg hle, hkept, Option.bind_eq_bind,
      Option.bind_some, Option.pure_def]

section Lift

variable {m : Type → Type} [Monad m]

def settle (a : Option α) : OptionT m α := .mk (pure a)

theorem settle_some (a : α) : (settle (some a) : OptionT m α) = pure a := rfl

variable [LawfulMonad m]

theorem mapM_lift {f : α → OptionT m β} {g : α → m β} {l : List α}
    (h : ∀ a ∈ l, f a = .lift (g a)) : l.mapM f = .lift (l.mapM g) := by
  induction l with
  | nil => exact (OptionT.lift_pure _).symm
  | cons a l ih =>
      rw [List.mapM_cons, List.mapM_cons, h a (List.mem_cons_self ..),
        ih fun b hb => h b (List.mem_cons_of_mem _ hb)]
      simp only [OptionT.lift_bind, OptionT.lift_pure]

theorem foldlM_lift {f : β → α → OptionT m β} {g : β → α → m β} {l : List α}
    (h : ∀ a ∈ l, ∀ b, f b a = .lift (g b a)) (b : β) : l.foldlM f b = .lift (l.foldlM g b) := by
  induction l generalizing b with
  | nil => exact (OptionT.lift_pure _).symm
  | cons a l ih =>
      rw [List.foldlM_cons, List.foldlM_cons, h a (List.mem_cons_self ..), OptionT.lift_bind]
      congr 1
      funext b'
      exact ih (fun a' ha' => h a' (List.mem_cons_of_mem _ ha')) b'

end Lift

def eachRange (request : KeyRange → Work α) (ranges : List KeyRange) : OptionT Work (List α) :=
  ranges.mapM fun range => if range.Ordered then .lift (request range) else .fail

theorem eachRange_eq {request : KeyRange → Work α} {ranges : List KeyRange}
    (h : ∀ range ∈ ranges, range.Ordered) :
    eachRange request ranges = .lift (ranges.mapM request) :=
  mapM_lift fun range hrange => if_pos (h range hrange)

theorem result_lift (outcome : Except Error α) :
    (.mk (.result (OptionT.lift outcome).run) : OptionT Work α) = .lift (.result outcome) := by
  cases outcome <;> rfl

theorem lift_bind {outcome : Except Error α} {f : α → OptionT (Except Error) β}
    {g : α → Except Error β} (h : ∀ a, outcome = .ok a → f a = .lift (g a)) :
    OptionT.lift outcome >>= f = .lift (outcome >>= g) := by
  cases outcome with
  | error e => rfl
  | ok a => exact h a rfl

theorem lift_result_bind {outcome : Except Error α} {f : α → OptionT Work β} {g : α → Work β}
    (h : ∀ a, outcome = .ok a → f a = .lift (g a)) :
    OptionT.lift (.result outcome) >>= f = .lift ((Program.result outcome : Work α).bind g) := by
  cases outcome with
  | error e => rfl
  | ok a => exact h a rfl

def write (t : FactTable) (m : Metric) : OptionT Work Unit := do
  .lift (.result m.validate)
  let metric ← .lift (t.entities.resolve ⟨.metric, m.name⟩)
  let tags ← .lift (m.tags.entries.mapM t.resolveTag)
  let place ← settle (locate t m.timestamp)
  let row := t.physicalKey (FactKey.encode { base := place.base, metric, tags })
  let column := Place.encodeOffset place.offset
  .lift (match m.kind with
    | .counter => increment t.table row column m.value
    | .gauge => put t.table row column (Bytes.ofInt64 m.value))

theorem write_eq (ht : t.Rolled) (m : Metric) : write t m = .lift (t.write m) := by
  refine lift_result_bind fun _ hvalid => ?_
  have hplace := locate_eq ht (Metric.timestamp_nonneg (Metric.of_validate hvalid))
  cases m.kind <;> simp only [hplace, settle_some, pure_bind, OptionT.lift_bind]

def scanAll (t : FactTable) (ranges : List KeyRange) : OptionT Work (List Row) := do
  let parts ← eachRange (scan t.table) ranges
  return parts.flatten

def readCell (t : FactTable) (range : TimeRange) (key : FactKey) (points : SeriesPoints)
    (cell : Bytes × Bytes) : OptionT (Except Error) SeriesPoints := do
  let offset ← .lift (Place.decodeOffset cell.1)
  let timestamp ← settle (timeOf t.resolution ⟨key.base, offset⟩)
  if t.resolution != .total && !range.contains timestamp then return points
  let value ← .lift (Table.readLong cell.2)
  return points.insert (key.tags, timestamp) value

def readRow (t : FactTable) (range : TimeRange) (metric : UInt32)
    (wanted : List (UInt32 × UInt32)) (points : SeriesPoints) (row : Row) :
    OptionT (Except Error) SeriesPoints := do
  let key ← .lift (FactKey.decode (t.logicalKey row.key))
  if key.metric != metric || !wanted.all key.tags.contains then return points
  row.columns.entries.foldlM (readCell t range key) points

def seriesPoints (t : FactTable) (filter : Tags) (metric : String) (range : TimeRange) :
    OptionT Work SeriesPoints := do
  match ← .lift (t.entities.lookup ⟨.metric, metric⟩) with
  | none => return .empty
  | some metric =>
    match ← .lift (t.lookupTags filter.entries) with
    | none => return .empty
    | some wanted =>
      match ← settle (rowsOf t range) with
      | none => return .empty
      | some rows =>
        let rows ← scanAll t (t.ranges rows)
        .mk (.result (rows.foldlM (readRow t range metric wanted) .empty).run)

variable {row : Row}

theorem scanAll_eq {ranges : List KeyRange} (h : ∀ range ∈ ranges, range.Ordered) :
    scanAll t ranges = .lift (t.scanAll ranges) := by
  rw [scanAll, eachRange_eq h, FactTable.scanAll, OptionT.lift_bind]
  simp only [OptionT.lift_pure]

theorem readCell_eq {key : FactKey} {cell : Bytes × Bytes}
    (hkey : FactKey.decode (t.logicalKey row.key) = .ok key) (hcell : t.Timed row.key cell.1)
    (points : SeriesPoints) :
    readCell t range key points cell = .lift (t.readCell range key points cell) := by
  refine lift_bind fun offset hoffset => ?_
  have htime : timeOf t.resolution ⟨key.base, offset⟩ =
      some (Place.timestamp t.resolution ⟨key.base, offset⟩) :=
    timeOf_eq (hcell key offset hkey hoffset)
  rw [htime, settle_some, pure_bind]
  dsimp only
  split
  · exact (OptionT.lift_pure _).symm
  · exact lift_bind fun value _ => (OptionT.lift_pure _).symm

theorem readRow_eq {metric : UInt32} {wanted : List (UInt32 × UInt32)}
    (hrow : ∀ cell ∈ row.columns.entries, t.Timed row.key cell.1) (points : SeriesPoints) :
    readRow t range metric wanted points row =
      .lift (t.readRow range metric wanted points row) := by
  refine lift_bind fun key hkey => ?_
  split
  · exact (OptionT.lift_pure _).symm
  · exact foldlM_lift (fun cell hcell => readCell_eq hkey (hrow cell hcell)) points

def count (n : Nat) : Option Nat := (uint64? n).map UInt64.toNat

theorem count_eq {n : Nat} (h : n < 2 ^ 64) : count n = some n := by
  have hword : (UInt64.ofNat n).toNat = n := UInt64.toNat_ofNat_of_lt' h
  rw [count, uint64?_eq_some_iff.mpr (congrArg Nat.cast hword), Option.map_some, hword]

/-- The counts only grow, so the last one is the one that must fit. -/
def deleteRanges (t : FactTable) (ranges : List KeyRange) : OptionT Work Nat := do
  let counts ← eachRange (deleteRange t.table) ranges
  settle (count (counts.foldr (· + ·) 0))

def columnsBefore (offset : Int64) : List (Bytes × Bytes) → OptionT (Except Error) (List Bytes)
  | [] => return []
  | (column, _) :: rest => do
    let place ← .lift (Place.decodeOffset column)
    let rest ← columnsBefore offset rest
    let word ← settle (int64? place.toNat)
    return if word < offset then column :: rest else rest

def trimRow (t : FactTable) (offset : Int64) (row : Row) : OptionT Work Bool := do
  let doomed ← .mk (.result (columnsBefore offset row.columns.entries).run)
  if doomed.isEmpty then return false
  .lift (delete t.table row.key doomed)
  return true

def trimRows (t : FactTable) (offset : Int64) (rows : List Row) : OptionT Work Nat := do
  let trimmed ← rows.mapM (trimRow t offset)
  return trimmed.count true

def deleteBefore (t : FactTable) (cutoff : Int64) : OptionT Work Nat := do
  if !t.resolution.expires then return 0
  match ← settle (firstKept t cutoff) with
  | none => return 0
  | some (base, offset) =>
    let removed ← deleteRanges t (t.ranges (FactKey.between 0 (some base)))
    if offset ≤ 0 then return removed
    let next ← settle (uint64? (base.toNat + 1))
    let rows ← scanAll t (t.ranges (FactKey.between base (some next)))
    let trimmed ← trimRows t offset rows
    settle (count (removed + trimmed))

theorem columnsBefore_eq (offset : Int64) (entries : List (Bytes × Bytes)) :
    columnsBefore offset entries = .lift (FactTable.columnsBefore offset entries) := by
  induction entries with
  | nil => exact (OptionT.lift_pure _).symm
  | cons e entries ih =>
      refine lift_bind fun place _ => ?_
      rw [ih]
      refine lift_bind fun rest _ => ?_
      rw [int64?_eq_some_iff.mpr (Place.toInt_offset place)]
      exact (OptionT.lift_pure _).symm

theorem trimRow_eq (t : FactTable) (offset : Int64) (row : Row) :
    trimRow t offset row = .lift (t.trimRow offset row) := by
  rw [trimRow, columnsBefore_eq, result_lift]
  refine lift_result_bind fun doomed _ => ?_
  split
  · exact (OptionT.lift_pure _).symm
  · exact (OptionT.lift_bind (delete t.table row.key doomed) fun _ => pure true).symm

theorem trimRows_eq (t : FactTable) (offset : Int64) (rows : List Row) :
    trimRows t offset rows = .lift (t.trimRows offset rows) := by
  rw [trimRows, mapM_lift fun row _ => trimRow_eq t offset row, FactTable.trimRows,
    OptionT.lift_bind]
  simp only [OptionT.lift_pure]

end Exact

end Rollup
