import Mathlib.Data.Set.Card
import Rollup.Proofs.Storage.Run

namespace Rollup

open Storage

namespace Table

/-- A table lacks the cells of another one that a condition names, and no others. -/
def Without (T : Table) (doomed : Bytes → Bytes → Prop) (T' : Table) : Prop :=
  ∀ row column cell, T'.cell? row column = some cell ↔
    T.cell? row column = some cell ∧ ¬ doomed row column

variable {T T' T'' : Table} {doomed doomed' : Bytes → Bytes → Prop} {range : KeyRange} {row : Row}

theorem Without.refl (T : Table) : T.Without (fun _ _ => False) T :=
  fun _ _ _ => (and_iff_left not_false).symm

theorem Without.trans (h : T.Without doomed T') (h' : T'.Without doomed' T'') :
    T.Without (fun row column => doomed row column ∨ doomed' row column) T'' := by
  intro row column cell
  rw [h', h, not_or, and_assoc]

theorem Without.congr (h : T.Without doomed T')
    (heq : ∀ row column, (T.cell? row column).isSome = true →
      (doomed row column ↔ doomed' row column)) : T.Without doomed' T' := by
  intro row column cell
  rw [h]
  exact and_congr_right fun hcell => not_congr (heq row column (by rw [hcell]; rfl))

theorem Without.cell?_eq (h : T.Without doomed T') {row column : Bytes}
    (hkept : ¬ doomed row column) : T'.cell? row column = T.cell? row column := by
  refine Option.ext fun cell => ?_
  rw [h]
  exact and_iff_left hkept

theorem Without.cell?_eq_none (h : T.Without doomed T') {row column : Bytes}
    (hgone : doomed row column) : T'.cell? row column = none := by
  rw [Option.eq_none_iff_forall_ne_some]
  exact fun cell hcell => ((h row column cell).mp hcell).2 hgone

theorem Without.unique (h : T.Without doomed T') (h' : T.Without doomed T'') : T' = T'' :=
  ext_cell? fun row column => Option.ext fun cell => by rw [h, h']

theorem without_eraseRange (T : Table) (range : KeyRange) :
    T.Without (fun row _ => range.contains row = true) (T.eraseRange range) := by
  intro row column cell
  rw [cell?_eraseRange]
  split
  · next hcontains => simp [hcontains]
  · next hcontains => simp [hcontains]

theorem without_clear (T : Table) (row : Bytes) (columns : List Bytes) :
    T.Without (fun row' column => row' = row ∧ column ∈ columns) (T.clear row columns) := by
  intro row' column cell
  rw [cell?_clear]
  split
  · next hdoomed => simp [hdoomed]
  · next hdoomed => simp [hdoomed]

def lost (T T' : Table) : Set Bytes :=
  {row | ∃ column, T.cell? row column ≠ none ∧ T'.cell? row column = none}

theorem Without.of_mem_lost (h : T.Without doomed T') {row : Bytes} (hrow : row ∈ T.lost T') :
    ∃ column, doomed row column := by
  obtain ⟨column, hcell, hnone⟩ := hrow
  refine ⟨column, by_contra fun hkept => hcell ?_⟩
  rw [← h.cell?_eq hkept, hnone]

theorem Without.lost_trans (h : T.Without doomed T') (h' : T'.Without doomed' T'') :
    T.lost T'' = T.lost T' ∪ T'.lost T'' := by
  ext row
  constructor
  · rintro ⟨column, hcell, hnone⟩
    by_cases hgone : T'.cell? row column = none
    · exact .inl ⟨column, hcell, hgone⟩
    · exact .inr ⟨column, hgone, hnone⟩
  · rintro (⟨column, hcell, hnone⟩ | ⟨column, hcell, hnone⟩)
    · refine ⟨column, hcell, ?_⟩
      rw [Option.eq_none_iff_forall_ne_some]
      intro cell hkept
      rw [((h' row column cell).mp hkept).1] at hnone
      cases hnone
    · obtain ⟨cell, hcell⟩ := Option.ne_none_iff_exists'.mp hcell
      exact ⟨column, by rw [((h row column cell).mp hcell).1]; simp, hnone⟩

structure Loses (T : Table) (doomed : Bytes → Bytes → Prop) (T' : Table) (n : Nat) : Prop where
  without : T.Without doomed T'
  count : (T.lost T').encard = n

theorem Loses.refl (T : Table) : T.Loses (fun _ _ => False) T 0 := by
  refine ⟨.refl T, Set.encard_eq_zero.mpr (Set.eq_empty_of_forall_notMem ?_)⟩
  exact fun row hrow => ((Without.refl T).of_mem_lost hrow).elim fun _ h => h

theorem Loses.trans {n n' : Nat} (h : T.Loses doomed T' n) (h' : T'.Loses doomed' T'' n')
    (honce : ∀ row ∈ T.lost T', row ∉ T'.lost T'') :
    T.Loses (fun row column => doomed row column ∨ doomed' row column) T'' (n + n') := by
  refine ⟨h.without.trans h'.without, ?_⟩
  rw [h.without.lost_trans h'.without, Set.encard_union_eq (Set.disjoint_left.mpr honce),
    h.count, h'.count, Nat.cast_add]

theorem Loses.congr {n : Nat} (h : T.Loses doomed T' n)
    (heq : ∀ row column, (T.cell? row column).isSome = true →
      (doomed row column ↔ doomed' row column)) : T.Loses doomed' T' n :=
  ⟨h.without.congr heq, h.count⟩

theorem Loses.eq_self {n : Nat} (h : T.Loses (fun _ _ => False) T' n) : T' = T ∧ n = 0 := by
  obtain rfl := h.without.unique (.refl T)
  exact ⟨rfl, Nat.cast_inj.mp (h.count.symm.trans (Loses.refl T').count)⟩

theorem Without.lost_once {p : Bytes → Prop} (h : T.Without (fun row _ => p row) T')
    (T'' : Table) : ∀ row ∈ T.lost T', row ∉ T'.lost T'' := by
  rintro row hrow ⟨column, hcell, -⟩
  obtain ⟨_, hp⟩ := h.of_mem_lost hrow
  exact hcell (h.cell?_eq_none hp)

theorem mem_scan : row ∈ T.scan range ↔
    range.contains row.key = true ∧ T.rows.get? row.key = some row.columns := by
  obtain ⟨key, columns⟩ := row
  simp only [scan, List.mem_map, List.mem_filter, Row.mk.injEq]
  constructor
  · rintro ⟨⟨key', columns'⟩, ⟨hmem, hcontains⟩, rfl, rfl⟩
    exact ⟨hcontains, SortedMap.mem_entries.mp hmem⟩
  · rintro ⟨hcontains, hget⟩
    exact ⟨(key, columns), ⟨SortedMap.mem_entries.mpr hget, hcontains⟩, rfl, rfl⟩

theorem get?_columns_of_mem_scan (h : row ∈ T.scan range) (column : Bytes) :
    row.columns.get? column = T.cell? row.key column := by
  simp [cell?, columns, (mem_scan.mp h).2]

theorem exists_mem_scan {key column cell : Bytes} (hcell : T.cell? key column = some cell)
    (hcontains : range.contains key = true) : ∃ row ∈ T.scan range, row.key = key := by
  cases hget : T.rows.get? key with
  | none => simp [cell?, columns, hget] at hcell
  | some columns => exact ⟨⟨key, columns⟩, mem_scan.mpr ⟨hcontains, hget⟩, rfl⟩

theorem nodup_keys_scan (T : Table) (range : KeyRange) :
    ((T.scan range).map Row.key).Nodup := by
  have hkeys : (T.scan range).map Row.key =
      (T.rows.entries.filter fun e => range.contains e.1).map Prod.fst := by
    rw [scan, List.map_map]
    rfl
  rw [hkeys]
  exact (Entries.nodup_keys T.rows.ascending).sublist (List.filter_sublist.map _)

theorem exists_cell_of_mem_scan (h : row ∈ T.scan range) :
    ∃ column, T.cell? row.key column ≠ none := by
  by_contra hnone
  simp only [not_exists, not_not] at hnone
  have hcolumns : T.columns row.key = .empty := SortedMap.ext_get? hnone
  rw [columns_eq_empty_iff, (mem_scan.mp h).2] at hcolumns
  cases hcolumns

theorem loses_eraseRange (T : Table) (range : KeyRange) :
    T.Loses (fun row _ => range.contains row = true) (T.eraseRange range)
      (T.scan range).length := by
  refine ⟨T.without_eraseRange range, ?_⟩
  have hlost : T.lost (T.eraseRange range) = ((T.scan range).map Row.key).toFinset := by
    ext key
    rw [Finset.mem_coe, List.mem_toFinset, List.mem_map]
    constructor
    · rintro ⟨column, hcell, hnone⟩
      obtain ⟨cell, hcell⟩ := Option.ne_none_iff_exists'.mp hcell
      rw [cell?_eraseRange, hcell] at hnone
      split at hnone
      · next hcontains => exact exists_mem_scan hcell hcontains
      · cases hnone
    · rintro ⟨row, hrow, rfl⟩
      obtain ⟨column, hcell⟩ := exists_cell_of_mem_scan hrow
      exact ⟨column, hcell, by rw [cell?_eraseRange, if_pos (mem_scan.mp hrow).1]⟩
  rw [hlost, Set.encard_coe_eq_coe_finsetCard,
    List.toFinset_card_of_nodup (T.nodup_keys_scan range), List.length_map]

end Table

namespace Storage

variable {s : Storage} {id : TableId} {T : Table}

theorem scans_run (h : s.Holds id T) (ranges : List KeyRange) :
    (ranges.mapM (scan id)).run answer s = (.ok (ranges.map T.scan), s) := by
  induction ranges with
  | nil => rfl
  | cons range ranges ih =>
      simp only [List.mapM_cons, Program.bind_eq, Program.pure_eq, List.map_cons]
      rw [Program.run_bind_of_ok (run_scan h range), Program.run_bind_of_ok ih]
      rfl

theorem deleteRanges_run (h : s.Holds id T) (ranges : List KeyRange) :
    ∃ counts T', (ranges.mapM (deleteRange id)).run answer s = (.ok counts, s.update id T') ∧
      T.Loses (fun row _ => ∃ range ∈ ranges, range.contains row = true) T'
        (counts.foldr (· + ·) 0) := by
  induction ranges generalizing s T with
  | nil => exact ⟨[], T, by rw [h.update_eq]; rfl, by simpa using Table.Loses.refl T⟩
  | cons range ranges ih =>
      obtain ⟨counts, T', hrun, hloses⟩ := ih (h.update_self (T.eraseRange range))
      refine ⟨(T.scan range).length :: counts, T', ?_, ?_⟩
      · simp only [List.mapM_cons, Program.bind_eq, Program.pure_eq]
        rw [Program.run_bind_of_ok (run_deleteRange h range), Program.run_bind_of_ok hrun,
          update_update]
        rfl
      · refine ((T.loses_eraseRange range).trans hloses
          ((T.without_eraseRange range).lost_once T')).congr ?_
        intro row column _
        simp

end Storage

end Rollup
