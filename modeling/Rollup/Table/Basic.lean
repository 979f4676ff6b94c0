import Rollup.Error
import Rollup.KeyRange
import Rollup.SortedMap

/-!
Sorted tables of rows and columns. A row exists while it has a cell, so a table is determined by
its cells. Every operation either yields an answer and the table after it, or fails and changes
nothing.
-/

namespace Rollup

abbrev Columns := SortedMap Bytes Bytes

structure Row where
  key : Bytes
  columns : Columns
  deriving DecidableEq, Repr

/-- The rows of a table, none of them empty. -/
structure Table where
  rows : SortedMap Bytes Columns
  nonempty : ∀ e ∈ rows.entries, e.2.isEmpty = false

namespace Table

def empty : Table := ⟨.empty, by simp⟩

instance : Inhabited Table := ⟨empty⟩

def columns (t : Table) (row : Bytes) : Columns := (t.rows.get? row).getD .empty

def cell? (t : Table) (row column : Bytes) : Option Bytes := (t.columns row).get? column

def rowCount (t : Table) : Nat := t.rows.size

theorem columns_eq_empty_iff {t : Table} {row : Bytes} :
    t.columns row = .empty ↔ t.rows.get? row = none := by
  constructor
  · intro h
    cases hrow : t.rows.get? row with
    | none => rfl
    | some columns =>
      have hmem := SortedMap.mem_entries.mpr hrow
      have hcolumns : columns = .empty := by simpa [Table.columns, hrow] using h
      have := t.nonempty _ hmem
      simp [hcolumns, SortedMap.isEmpty_eq] at this
  · intro h
    simp [columns, h]

/-- Tables with the same cells are equal. -/
theorem ext_cell? {t u : Table} (h : ∀ row column, t.cell? row column = u.cell? row column) :
    t = u := by
  have hcolumns : ∀ row, t.columns row = u.columns row :=
    fun row => SortedMap.ext_get? (h row)
  have hrows : t.rows = u.rows := by
    refine SortedMap.ext_get? fun row => ?_
    cases ht : t.rows.get? row with
    | none =>
      have := columns_eq_empty_iff.mp ((hcolumns row).symm.trans (columns_eq_empty_iff.mpr ht))
      rw [this]
    | some cells =>
      cases hu : u.rows.get? row with
      | none =>
        have := columns_eq_empty_iff.mp ((hcolumns row).trans (columns_eq_empty_iff.mpr hu))
        simp [this] at ht
      | some cells' => simpa [columns, ht, hu] using hcolumns row
  cases t
  cases u
  cases hrows
  rfl

def setColumns (t : Table) (row : Bytes) (columns : Columns) : Table :=
  if h : columns.isEmpty then
    ⟨t.rows.erase row, fun e he => by
      rw [SortedMap.entries_erase] at he
      exact t.nonempty e (List.mem_filter.mp he).1⟩
  else
    ⟨t.rows.insert row columns, fun e he => by
      rw [SortedMap.entries_insert] at he
      rcases Entries.mem_insert he with rfl | he
      · simpa using h
      · exact t.nonempty e he⟩

theorem columns_setColumns (t : Table) (row : Bytes) (columns : Columns) (row' : Bytes) :
    (t.setColumns row columns).columns row' = if row' = row then columns else t.columns row' := by
  unfold setColumns
  split
  · next h =>
    simp only [Table.columns, SortedMap.get?_erase]
    split
    · exact (SortedMap.isEmpty_iff.mp h).symm
    · rfl
  · simp only [Table.columns, SortedMap.get?_insert]
    split <;> rfl

def setCell (t : Table) (row column : Bytes) (value : Option Bytes) : Table :=
  t.setColumns row ((t.columns row).set column value)

theorem cell?_setCell (t : Table) (row column : Bytes) (value : Option Bytes)
    (row' column' : Bytes) :
    (t.setCell row column value).cell? row' column' =
      if row' = row ∧ column' = column then value else t.cell? row' column' := by
  simp only [cell?, setCell, columns_setColumns]
  by_cases hrow : row' = row
  · subst hrow
    simp [SortedMap.get?_set]
  · simp [hrow]

def clear (t : Table) (row : Bytes) (columns : List Bytes) : Table :=
  t.setColumns row ((t.columns row).filterKeys fun column => !columns.contains column)

theorem cell?_clear (t : Table) (row : Bytes) (columns : List Bytes) (row' column' : Bytes) :
    (t.clear row columns).cell? row' column' =
      if row' = row ∧ column' ∈ columns then none else t.cell? row' column' := by
  simp only [cell?, clear, columns_setColumns]
  by_cases hrow : row' = row
  · subst hrow
    by_cases hcolumn : column' ∈ columns <;> simp [SortedMap.get?_filterKeys, hcolumn]
  · simp [hrow]

def scan (t : Table) (range : KeyRange) : List Row :=
  (t.rows.entries.filter fun e => range.contains e.1).map fun e => ⟨e.1, e.2⟩

def eraseRange (t : Table) (range : KeyRange) : Table :=
  ⟨t.rows.filterKeys fun key => !range.contains key,
    fun e he => by
      rw [SortedMap.entries_filterKeys] at he
      exact t.nonempty e (List.mem_filter.mp he).1⟩

theorem cell?_eraseRange (t : Table) (range : KeyRange) (row column : Bytes) :
    (t.eraseRange range).cell? row column =
      if range.contains row then none else t.cell? row column := by
  simp only [cell?, columns, eraseRange, SortedMap.get?_filterKeys]
  cases range.contains row <;> simp

def readLong (cell : Bytes) : Except Error Int64 :=
  if cell.length = 8 then .ok (Bytes.toInt64 cell)
  else .error (.serialization s!"expected 8-byte long, got {cell.length} bytes")

theorem readLong_ofInt64 (n : Int64) : readLong (Bytes.ofInt64 n) = .ok n := by
  simp [readLong]

/-- Adds to a counter cell, modulo 2^64; an absent cell counts as zero. -/
def add (t : Table) (row column : Bytes) (delta : Int64) : Except Error (Int64 × Table) := do
  let current ← match t.cell? row column with
    | some cell => readLong cell
    | none => .ok 0
  let updated := current + delta
  return (updated, t.setCell row column (some (Bytes.ofInt64 updated)))

theorem of_add_ok {t t' : Table} {row column : Bytes} {delta updated : Int64}
    (h : t.add row column delta = .ok (updated, t')) :
    updated = ((t.cell? row column).map Bytes.toInt64).getD 0 + delta ∧
      t' = t.setCell row column (some (Bytes.ofInt64 updated)) := by
  simp only [add, bind, Except.bind, pure, Except.pure] at h
  cases hcell : t.cell? row column with
  | none =>
      simp only [hcell, Except.ok.injEq, Prod.mk.injEq] at h
      obtain ⟨rfl, rfl⟩ := h
      exact ⟨rfl, rfl⟩
  | some cell =>
      simp only [hcell, readLong] at h
      by_cases hlength : cell.length = 8
      · simp only [hlength, if_true, Except.ok.injEq, Prod.mk.injEq] at h
        obtain ⟨rfl, rfl⟩ := h
        exact ⟨rfl, rfl⟩
      · simp only [hlength, if_false] at h
        cases h

theorem add_none {t : Table} {row column : Bytes} (delta : Int64)
    (h : t.cell? row column = none) :
    t.add row column delta =
      .ok (0 + delta, t.setCell row column (some (Bytes.ofInt64 (0 + delta)))) := by
  simp only [add, h]
  rfl

theorem add_some {t : Table} {row column : Bytes} {old : Int64} (delta : Int64)
    (h : t.cell? row column = some (Bytes.ofInt64 old)) :
    t.add row column delta =
      .ok (old + delta, t.setCell row column (some (Bytes.ofInt64 (old + delta)))) := by
  simp only [add, h, readLong_ofInt64]
  rfl

end Table

/-- The atomic operations on a table. -/
inductive TableOp where
  | get (row column : Bytes)
  | put (row column value : Bytes)
  /-- Replaces a cell that is as expected; no value stands for no cell. -/
  | swap (row column : Bytes) (expected new : Option Bytes)
  | increment (row column : Bytes) (delta : Int64)
  | incrementAndGet (row column : Bytes) (delta : Int64)
  | delete (row : Bytes) (columns : List Bytes)
  | deleteRange (range : KeyRange)
  | scan (range : KeyRange)
  deriving DecidableEq, Repr

namespace TableOp

@[reducible] def Answer : TableOp → Type
  | get .. => Option Bytes
  | put .. => Unit
  | swap .. => Bool
  | increment .. => Unit
  | incrementAndGet .. => Int64
  | delete .. => Unit
  | deleteRange .. => Nat
  | scan .. => List Row

end TableOp

def Table.perform (t : Table) : (op : TableOp) → Except Error (op.Answer × Table)
  | .get row column => .ok (t.cell? row column, t)
  | .put row column value => .ok ((), t.setCell row column (some value))
  | .swap row column expected new =>
    if t.cell? row column = expected then .ok (true, t.setCell row column new)
    else .ok (false, t)
  | .increment row column delta => (t.add row column delta).map fun r => ((), r.2)
  | .incrementAndGet row column delta => t.add row column delta
  | .delete row columns => .ok ((), t.clear row columns)
  | .deleteRange range => .ok ((t.scan range).length, t.eraseRange range)
  | .scan range => .ok (t.scan range, t)

end Rollup
