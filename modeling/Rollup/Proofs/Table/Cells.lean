import Mathlib.Data.List.Dedup
import Mathlib.Data.Set.Card
import Rollup.Table.Basic

namespace Rollup

open KeyOrder

abbrev Cells := SortedMap (Bytes × Bytes) Bytes

namespace Cells

def rows (cells : Cells) : List Bytes := (cells.keys.map Prod.fst).dedup

def columns (cells : Cells) (row : Bytes) : Columns :=
  SortedMap.empty.insertAll
    ((cells.entries.filter fun e => e.1.1 = row).map fun e => (e.1.2, e.2))

def scan (cells : Cells) (range : KeyRange) : List Row :=
  (cells.rows.filter range.contains).map fun row => ⟨row, cells.columns row⟩

def add (cells : Cells) (row column : Bytes) (delta : Int64) : Except Error (Int64 × Cells) :=
  let counted (n : Int64) := (n, cells.insert (row, column) (Bytes.ofInt64 n))
  match cells.get? (row, column) with
  | none => .ok (counted delta)
  | some cell =>
    if cell.length = 8 then .ok (counted (Bytes.toInt64 cell + delta))
    else .error (.serialization s!"expected 8-byte long, got {cell.length} bytes")

def perform (cells : Cells) : (op : TableOp) → Except Error (op.Answer × Cells)
  | .get row column => .ok (cells.get? (row, column), cells)
  | .put row column value => .ok ((), cells.insert (row, column) value)
  | .swap row column expected new =>
    if cells.get? (row, column) = expected then .ok (true, cells.set (row, column) new)
    else .ok (false, cells)
  | .increment row column delta => (cells.add row column delta).map fun r => ((), r.2)
  | .incrementAndGet row column delta => cells.add row column delta
  | .delete row columns =>
    .ok ((), cells.filterKeys fun key => !(key.1 = row && columns.contains key.2))
  | .deleteRange range =>
    .ok ((cells.scan range).length, cells.filterKeys fun key => !range.contains key.1)
  | .scan range => .ok (cells.scan range, cells)

theorem of_before_pair {key key' : Bytes × Bytes} (h : before key key' = true) :
    before key.1 key'.1 = true ∨ key.1 = key'.1 ∧ before key.2 key'.2 = true := by
  change (before key.1 key'.1 || (!before key'.1 key.1 && before key.2 key'.2)) = true at h
  rw [Bool.or_eq_true, Bool.and_eq_true, Bool.not_eq_true'] at h
  rcases h with hrow | ⟨hback, hcolumn⟩
  · exact .inl hrow
  · cases hrow : before key.1 key'.1 with
    | true => exact .inl rfl
    | false => exact .inr ⟨connected _ _ hrow hback, hcolumn⟩

variable {cells : Cells} {row : Bytes}

theorem mem_rows : row ∈ cells.rows ↔ ∃ column, cells.get? (row, column) ≠ none := by
  simp only [rows, SortedMap.keys, List.mem_dedup, List.map_map, List.mem_map,
    Function.comp_apply, Prod.exists, Option.ne_none_iff_exists']
  constructor
  · rintro ⟨row, column, value, hmem, rfl⟩
    exact ⟨column, value, SortedMap.mem_entries.mp hmem⟩
  · rintro ⟨column, value, hget⟩
    exact ⟨row, column, value, SortedMap.mem_entries.mpr hget, rfl⟩

theorem rows_ascending (cells : Cells) :
    cells.rows.Pairwise fun row row' => before row row' = true := by
  have hkeys : (cells.keys.map Prod.fst).Pairwise fun row row' =>
      before row row' = true ∨ row = row' := by
    rw [SortedMap.keys, List.pairwise_map, List.pairwise_map]
    exact cells.ascending.imp fun h => (of_before_pair h).imp_right And.left
  exact List.Pairwise.imp₂ (fun _ _ hle hne => hle.resolve_right hne)
    (hkeys.sublist (List.dedup_sublist _)) (List.nodup_dedup _)

theorem get?_columns (cells : Cells) (row column : Bytes) :
    (cells.columns row).get? column = cells.get? (row, column) := by
  let cellsOfRow := (cells.entries.filter fun e => e.1.1 = row).map fun e => (e.1.2, e.2)
  have hmem {value : Bytes} :
      (column, value) ∈ cellsOfRow ↔ cells.get? (row, column) = some value := by
    rw [← SortedMap.mem_entries]
    simp [cellsOfRow]
  have hascending : Entries.Ascending cellsOfRow := by
    rw [Entries.Ascending, List.pairwise_map]
    refine (cells.ascending.sublist List.filter_sublist).imp_of_mem fun {a b} ha hb h => ?_
    have hrow : a.1.1 = b.1.1 := by simp_all
    rcases of_before_pair h with hbefore | hsame
    · rw [hrow, KeyOrder.irrefl] at hbefore
      cases hbefore
    · exact hsame.2
  rw [columns, SortedMap.get?_insertAll, SortedMap.get?_empty, Option.or_none]
  exact Option.ext fun value => ⟨fun h => hmem.mp (Entries.mem_of_find h),
    fun h => Entries.find_of_mem hascending (hmem.mpr h)⟩

theorem mem_scan {range : KeyRange} {r : Row} :
    r ∈ cells.scan range ↔ range.contains r.key = true ∧
      (∃ column, cells.get? (r.key, column) ≠ none) ∧
      ∀ column, r.columns.get? column = cells.get? (r.key, column) := by
  simp only [scan, List.mem_map, List.mem_filter, mem_rows]
  constructor
  · rintro ⟨row, ⟨hcell, hrange⟩, rfl⟩
    exact ⟨hrange, hcell, cells.get?_columns row⟩
  · rintro ⟨hrange, hcell, hcolumns⟩
    refine ⟨r.key, ⟨hcell, hrange⟩, ?_⟩
    have : cells.columns r.key = r.columns :=
      SortedMap.ext_get? fun column => (cells.get?_columns _ _).trans (hcolumns column).symm
    rw [this]

theorem scan_ascending (cells : Cells) (range : KeyRange) :
    (cells.scan range).Pairwise fun r r' => before r.key r'.key = true := by
  rw [scan, List.pairwise_map]
  exact cells.rows_ascending.sublist List.filter_sublist

theorem length_rows (cells : Cells) :
    cells.rows.length = {row | ∃ column, cells.get? (row, column) ≠ none}.ncard := by
  have hset : {row | ∃ column, cells.get? (row, column) ≠ none} =
      (cells.rows.toFinset : Set Bytes) := by
    ext row
    simp [mem_rows]
  have hnodup : cells.rows.Nodup := List.nodup_dedup _
  rw [hset, Set.ncard_coe_finset, List.toFinset_card_of_nodup hnodup]

end Cells

namespace Table

variable {t : Table} {cells : Cells}

/-- The cells of a table are those of a flat map. -/
def Holds (t : Table) (cells : Cells) : Prop :=
  ∀ row column, t.cell? row column = cells.get? (row, column)

theorem empty_holds : empty.Holds .empty := fun _ _ => rfl

namespace Holds

theorem mem_keys (h : t.Holds cells) {row : Bytes} : row ∈ t.rows.keys ↔ row ∈ cells.rows := by
  have hkey : row ∈ t.rows.keys ↔ t.columns row ≠ .empty := by
    rw [Ne, columns_eq_empty_iff, ← Ne, Option.ne_none_iff_exists']
    simp [SortedMap.keys, SortedMap.mem_entries]
  rw [hkey, Cells.mem_rows]
  constructor
  · intro hne
    by_contra hnone
    push Not at hnone
    exact hne (SortedMap.ext_get? fun column => (h row column).trans (hnone column))
  · rintro ⟨column, hcell⟩ hempty
    exact hcell ((h row column).symm.trans (by rw [cell?, hempty]; rfl))

theorem keys_eq (h : t.Holds cells) : t.rows.keys = cells.rows := by
  have hascending : t.rows.keys.Pairwise fun row row' => before row row' = true := by
    rw [SortedMap.keys, List.pairwise_map]
    exact t.rows.ascending
  have hperm : t.rows.keys.Perm cells.rows :=
    (List.perm_ext_iff_of_nodup (Entries.nodup_keys t.rows.ascending) (List.nodup_dedup _)).mpr
      fun _ => h.mem_keys
  exact hperm.eq_of_pairwise
    (fun _ _ _ _ hab hba => absurd hba (by simp [asymm hab])) hascending cells.rows_ascending

theorem rowCount_eq (h : t.Holds cells) : t.rowCount = cells.rows.length := by
  rw [← h.keys_eq, rowCount, SortedMap.size, SortedMap.keys, List.length_map]

theorem columns_eq (h : t.Holds cells) (row : Bytes) : t.columns row = cells.columns row :=
  SortedMap.ext_get? fun column => (h row column).trans (cells.get?_columns row column).symm

theorem scan_eq (h : t.Holds cells) (range : KeyRange) : t.scan range = cells.scan range := by
  have hrow : ∀ e ∈ t.rows.entries, (⟨e.1, e.2⟩ : Row) = ⟨e.1, cells.columns e.1⟩ := by
    intro e he
    rw [← h.columns_eq, Table.columns, SortedMap.mem_entries.mp he, Option.getD_some]
  rw [Cells.scan, ← h.keys_eq, SortedMap.keys, List.filter_map, List.map_map]
  exact List.map_congr_left fun e he => hrow e (List.mem_filter.mp he).1

theorem setCell (h : t.Holds cells) (row column : Bytes) (value : Option Bytes) :
    (t.setCell row column value).Holds (cells.set (row, column) value) := by
  intro row' column'
  simp only [cell?_setCell, SortedMap.get?_set, Prod.mk.injEq, h row' column']

theorem clear (h : t.Holds cells) (row : Bytes) (columns : List Bytes) :
    (t.clear row columns).Holds
      (cells.filterKeys fun key => !(key.1 = row && columns.contains key.2)) := by
  intro row' column'
  rw [cell?_clear, SortedMap.get?_filterKeys, h row' column']
  by_cases hcleared : row' = row ∧ column' ∈ columns <;> simp [hcleared]

theorem eraseRange (h : t.Holds cells) (range : KeyRange) :
    (t.eraseRange range).Holds (cells.filterKeys fun key => !range.contains key.1) := by
  intro row column
  rw [cell?_eraseRange, SortedMap.get?_filterKeys, h row column]
  cases range.contains row <;> rfl

end Holds

/-- Two outcomes of an operation are the same, up to how the cells after it are kept. -/
inductive Alike {α : Type} : Except Error (α × Table) → Except Error (α × Cells) → Prop
  | ok (answer : α) {t : Table} {cells : Cells} (h : t.Holds cells) :
      Alike (.ok (answer, t)) (.ok (answer, cells))
  | error (e : Error) : Alike (.error e) (.error e)

theorem Alike.answer_map {α β : Type} {kept : Except Error (α × Table)}
    {flat : Except Error (α × Cells)} (h : Alike kept flat) (f : α → β) :
    Alike (kept.map fun r => (f r.1, r.2)) (flat.map fun r => (f r.1, r.2)) := by
  cases h with
  | ok answer h => exact .ok (f answer) h
  | error e => exact .error e

namespace Holds

theorem add (h : t.Holds cells) (row column : Bytes) (delta : Int64) :
    Alike (t.add row column delta) (cells.add row column delta) := by
  have hset (n : Int64) : (t.setCell row column (some (Bytes.ofInt64 n))).Holds
      (cells.insert (row, column) (Bytes.ofInt64 n)) := h.setCell row column _
  rw [Cells.add, ← h row column]
  cases hcell : t.cell? row column with
  | none =>
      rw [add_none delta hcell, Int64.zero_add]
      exact .ok delta (hset delta)
  | some cell =>
      simp only [Table.add, hcell, readLong]
      split
      · exact .ok _ (hset _)
      · exact .error _

/-- Every operation has one outcome on a table and on the cells that it holds. -/
theorem perform (h : t.Holds cells) (op : TableOp) :
    Alike (t.perform op) (cells.perform op) := by
  cases op with
  | get row column =>
      simp only [Table.perform, Cells.perform, h row column]
      exact .ok _ h
  | put row column value => exact .ok () (h.setCell row column (some value))
  | swap row column expected new =>
      simp only [Table.perform, Cells.perform, h row column]
      split
      · exact .ok true (h.setCell row column new)
      · exact .ok false h
  | increment row column delta => exact (h.add row column delta).answer_map fun _ => ()
  | incrementAndGet row column delta => exact h.add row column delta
  | delete row columns => exact .ok () (h.clear row columns)
  | deleteRange range =>
      simp only [Table.perform, Cells.perform, h.scan_eq]
      exact .ok _ (h.eraseRange range)
  | scan range =>
      simp only [Table.perform, Cells.perform, h.scan_eq]
      exact .ok _ h

end Holds

end Table

end Rollup
