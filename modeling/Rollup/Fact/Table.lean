import Rollup.Entity.Numbering
import Rollup.Fact.Place
import Rollup.Fact.RowKey
import Rollup.Metric
import Rollup.Salting

/-!
The buckets of one resolution. A counter is added to the cell of its series and bucket, a gauge
replaces it. A query sums the series of a metric whose tags contain the asked ones.
-/

namespace Rollup

open Storage

/-- The cells of series, keyed by the numbers of a series' tags and the start of the
bucket. -/
abbrev SeriesPoints := SortedMap (List (UInt32 × UInt32) × Int64) Int64

namespace SeriesPoints

def sum (points : SeriesPoints) : List Point :=
  let totals : SortedMap Int64 Int64 := points.entries.foldl
    (fun totals e => totals.insert e.1.2 ((totals.get? e.1.2).getD 0 + e.2)) .empty
  totals.entries.map fun e => ⟨e.1, e.2⟩

end SeriesPoints

/-- A table of buckets. Without salting its row keys are the logical ones. -/
structure FactTable where
  table : TableId
  entities : EntityTable
  resolution : Resolution
  roll : Int64
  salting : Option Salting
  deriving DecidableEq, Repr

namespace FactTable

def current (table : TableId) (entities : EntityTable) (resolution : Resolution) (roll : Nat)
    (salting : Salting) : FactTable :=
  { table, entities, resolution, roll := Place.roll resolution roll, salting := some salting }

def legacy (table : TableId) (entities : EntityTable) (resolution : Resolution) (roll : Nat) :
    FactTable :=
  { table, entities, resolution, roll := Place.roll resolution roll, salting := none }

def isLegacy (t : FactTable) : Bool := t.salting.isNone

def locate (t : FactTable) (timestamp : Int64) : Place :=
  Place.ofTimestamp t.resolution t.roll timestamp

def physicalKey (t : FactTable) (key : Bytes) : Bytes :=
  match t.salting with
  | some salting => salting.distribute key
  | none => key

def logicalKey (t : FactTable) (key : Bytes) : Bytes :=
  match t.salting with
  | some _ => Salting.unsalted key
  | none => key

def ranges (t : FactTable) (range : KeyRange) : List KeyRange :=
  match t.salting with
  | some salting => salting.ranges range
  | none => [range]

def resolveTag (t : FactTable) (tag : String × String) : Work (UInt32 × UInt32) := do
  let name ← t.entities.resolve ⟨.tagName, tag.1⟩
  let value ← t.entities.resolve ⟨.tagValue, tag.2⟩
  return (name, value)

/-- Adds a counter to its cell, or puts a gauge into it. The cell is the last thing
touched, after every number the key needs. -/
def write (t : FactTable) (m : Metric) : Work Unit := do
  .result m.validate
  let metric ← t.entities.resolve ⟨.metric, m.name⟩
  let tags ← m.tags.entries.mapM t.resolveTag
  let place := t.locate m.timestamp
  let row := t.physicalKey (FactKey.encode { base := place.base, metric, tags })
  let column := Place.encodeOffset place.offset
  match m.kind with
  | .counter => increment t.table row column m.value
  | .gauge => put t.table row column (Bytes.ofInt64 m.value)

def writeAll (t : FactTable) : List Metric → Work Unit
  | [] => return ()
  | m :: ms => do
    t.write m
    t.writeAll ms

/-- The numbers of a tag, if both of its strings have one. Both are looked up. -/
def lookupTag (t : FactTable) (tag : String × String) : Work (Option (UInt32 × UInt32)) := do
  let name ← t.entities.lookup ⟨.tagName, tag.1⟩
  let value ← t.entities.lookup ⟨.tagValue, tag.2⟩
  match name, value with
  | some name, some value => return some (name, value)
  | _, _ => return none

/-- The numbers of the tags of a filter, up to the first tag without numbers. A filter
with such a tag matches nothing. -/
def lookupTags (t : FactTable) (filter : List (String × String)) :
    Work (Option (List (UInt32 × UInt32))) :=
  (filter.mapM fun tag => OptionT.mk (t.lookupTag tag)).run

/-- The logical keys of the rows with buckets in a time range, if there can be any. The
table of all time is read whole. -/
def rowsOf (t : FactTable) (range : TimeRange) : Option KeyRange :=
  match t.resolution with
  | .total => some ⟨Bytes.ofUInt64 0, none⟩
  | _ =>
    if range.last < range.first || range.last < 0 then none
    else
      let first := (t.locate (if range.first < 0 then 0 else range.first)).base
      let last := (t.locate range.last).base
      let span := (t.roll * t.resolution.width).toUInt64
      let stop :=
        if last.toNat + span.toNat < Bytes.capacity 8 then some (Bytes.ofUInt64 (last + span))
        else none
      some ⟨Bytes.ofUInt64 first, stop⟩

def scanAll (t : FactTable) (ranges : List KeyRange) : Work (List Row) := do
  let parts ← ranges.mapM (scan t.table)
  return parts.flatten

/-- Adds a cell of a row to the points, unless its bucket starts outside the range. -/
def readCell (t : FactTable) (range : TimeRange) (key : FactKey) (points : SeriesPoints)
    (cell : Bytes × Bytes) : Except Error SeriesPoints := do
  let offset ← Place.decodeOffset cell.1
  let timestamp := Place.timestamp t.resolution ⟨key.base, offset⟩
  if t.resolution != .total && !range.contains timestamp then return points
  let value ← Table.readLong cell.2
  return points.insert (key.tags, timestamp) value

/-- Adds the cells of a row to the points if it belongs to the metric and has all wanted
tags. -/
def readRow (t : FactTable) (range : TimeRange) (metric : UInt32)
    (wanted : List (UInt32 × UInt32)) (points : SeriesPoints) (row : Row) :
    Except Error SeriesPoints := do
  let key ← FactKey.decode (t.logicalKey row.key)
  if key.metric != metric || !wanted.all key.tags.contains then return points
  row.columns.entries.foldlM (t.readCell range key) points

/-- The cells of a metric's series that match a filter, in a time range. -/
def seriesPoints (t : FactTable) (filter : Tags) (metric : String) (range : TimeRange) :
    Work SeriesPoints := do
  match ← t.entities.lookup ⟨.metric, metric⟩ with
  | none => return .empty
  | some metric =>
    match ← t.lookupTags filter.entries with
    | none => return .empty
    | some wanted =>
      match t.rowsOf range with
      | none => return .empty
      | some rows =>
        let rows ← t.scanAll (t.ranges rows)
        .result (rows.foldlM (t.readRow range metric wanted) .empty)

def query (t : FactTable) (filter : Tags) (metric : String) (range : TimeRange) :
    Work (List Point) := do
  let points ← t.seriesPoints filter metric range
  return points.sum

def deleteRanges (t : FactTable) (ranges : List KeyRange) : Work Nat := do
  let counts ← ranges.mapM (deleteRange t.table)
  return counts.foldr (· + ·) 0

def columnsBefore (offset : Int64) : List (Bytes × Bytes) → Except Error (List Bytes)
  | [] => return []
  | (column, _) :: rest => do
    let place ← Place.decodeOffset column
    let rest ← columnsBefore offset rest
    return if place.toUInt64.toInt64 < offset then column :: rest else rest

/-- Removes the columns before an offset from a row, and tells whether it lost any. -/
def trimRow (t : FactTable) (offset : Int64) (row : Row) : Work Bool := do
  let doomed ← .result (columnsBefore offset row.columns.entries)
  if doomed.isEmpty then return false
  delete t.table row.key doomed
  return true

/-- Removes the columns before an offset from each row and counts the rows that lose
any. -/
def trimRows (t : FactTable) (offset : Int64) (rows : List Row) : Work Nat := do
  let trimmed ← rows.mapM (t.trimRow offset)
  return trimmed.count true

/-- The place of the first bucket that a cutoff keeps: the start of its row, and how many
buckets of that row go. There is none when the cutoff lies before the end of the first
bucket. -/
def firstKept? (t : FactTable) (cutoff : Int64) : Option (UInt64 × Int64) :=
  let bucket := Place.floorDiv cutoff t.resolution.width
  if bucket ≤ 0 then none
  else
    let offset := Place.floorMod bucket t.roll
    some (((bucket - offset) * t.resolution.width).toUInt64, offset)

/-- Removes every bucket that ends at or before a cutoff: first the rows before the one
that holds the cutoff, then the older buckets of that one. The result counts the rows
removed or trimmed. -/
def deleteBefore (t : FactTable) (cutoff : Int64) : Work Nat := do
  if !t.resolution.expires then return 0
  match t.firstKept? cutoff with
  | none => return 0
  | some (base, offset) =>
    let boundary := Bytes.ofUInt64 base
    let removed ← t.deleteRanges (t.ranges ⟨Bytes.ofUInt64 0, some boundary⟩)
    if offset ≤ 0 then return removed
    let rows ← t.scanAll (t.ranges ⟨boundary, some (Bytes.ofUInt64 (base + 1))⟩)
    let trimmed ← t.trimRows offset rows
    return removed + trimmed

end FactTable

end Rollup
