import Rollup.Proofs.Fact.Contents
import Rollup.Proofs.Storage.Loss

namespace Rollup

open Storage

namespace FactTable

variable {t : FactTable} {s : Storage} {T : Table}

theorem scanAll_run (h : s.Holds t.table T) (ranges : List KeyRange) :
    (t.scanAll ranges).run answer s = (.ok (ranges.flatMap T.scan), s) := by
  simp only [scanAll, Program.bind_eq, Program.pure_eq]
  rw [Program.run_bind_of_ok (scans_run h ranges), List.flatMap_def]
  rfl

def Before (offset : Int64) (column : Bytes) : Prop :=
  ∃ place, column = Place.encodeOffset place ∧ (place.toNat : Int) < offset.toInt

theorem columnsBefore_eq (offset : Int64) (entries : List (Bytes × Bytes))
    (h : ∀ e ∈ entries, ∃ place, e.1 = Place.encodeOffset place) :
    ∃ doomed, columnsBefore offset entries = .ok doomed ∧
      ∀ column, column ∈ doomed ↔ (∃ cell, (column, cell) ∈ entries) ∧ Before offset column := by
  induction entries with
  | nil => exact ⟨[], rfl, by simp⟩
  | cons e entries ih =>
      obtain ⟨column, cell⟩ := e
      obtain ⟨place, hplace⟩ := h _ (List.mem_cons_self ..)
      obtain rfl : column = Place.encodeOffset place := hplace
      obtain ⟨doomed, hrest, hdoomed⟩ := ih fun e he => h e (List.mem_cons_of_mem _ he)
      have hbefore : Before offset (Place.encodeOffset place) ↔
          place.toUInt64.toInt64 < offset := by
        rw [Int64.lt_iff_toInt_lt, Place.toInt_offset]
        constructor
        · rintro ⟨place', hplace', hlt⟩
          obtain rfl := encodeOffset_injective hplace'
          exact hlt
        · intro hlt
          exact ⟨place, rfl, hlt⟩
      refine ⟨if place.toUInt64.toInt64 < offset then Place.encodeOffset place :: doomed
        else doomed, ?_, ?_⟩
      · simp only [columnsBefore, Place.decodeOffset_encodeOffset, hrest, bind, Except.bind, pure,
          Except.pure]
      · intro column
        split
        · next hlt =>
          simp only [List.mem_cons, Prod.mk.injEq, hdoomed]
          constructor
          · rintro (rfl | ⟨⟨cell', hmem⟩, hcolumn⟩)
            · exact ⟨⟨cell, .inl ⟨rfl, rfl⟩⟩, hbefore.mpr hlt⟩
            · exact ⟨⟨cell', .inr hmem⟩, hcolumn⟩
          · rintro ⟨⟨cell', ⟨rfl, -⟩ | hmem⟩, hcolumn⟩
            · exact .inl rfl
            · exact .inr ⟨⟨cell', hmem⟩, hcolumn⟩
        · next hge =>
          simp only [List.mem_cons, Prod.mk.injEq, hdoomed]
          constructor
          · rintro ⟨⟨cell', hmem⟩, hcolumn⟩
            exact ⟨⟨cell', .inr hmem⟩, hcolumn⟩
          · rintro ⟨⟨cell', ⟨rfl, -⟩ | hmem⟩, hcolumn⟩
            · exact absurd (hbefore.mp hcolumn) hge
            · exact ⟨⟨cell', hmem⟩, hcolumn⟩

def Row.Numbered (row : Row) : Prop :=
  ∀ column cell, row.columns.get? column = some cell → ∃ place, column = Place.encodeOffset place

def Trimmed (offset : Int64) (row : Row) (key column : Bytes) : Prop :=
  key = row.key ∧ (∃ cell, row.columns.get? column = some cell) ∧ Before offset column

def Row.IsOf (row : Row) (T : Table) : Prop :=
  ∀ column, row.columns.get? column = T.cell? row.key column

theorem trimRow_run (h : s.Holds t.table T) (offset : Int64) {row : Row}
    (hrow : Row.Numbered row) (hof : Row.IsOf row T) :
    ∃ lost T', (t.trimRow offset row).run answer s = (.ok lost, s.update t.table T') ∧
      T.Loses (Trimmed offset row) T' lost.toNat := by
  obtain ⟨doomed, hdoomed, hmem⟩ := columnsBefore_eq offset row.columns.entries
    fun e he => hrow e.1 e.2 (SortedMap.mem_entries.mp he)
  simp only [SortedMap.mem_entries] at hmem
  simp only [trimRow, Program.bind_eq, Program.pure_eq, hdoomed, Program.bind]
  by_cases hempty : doomed.isEmpty = true
  · refine ⟨false, T, by rw [if_pos hempty, h.update_eq]; rfl, ?_⟩
    refine (Table.Loses.refl T).congr fun key column _ => ?_
    rw [List.isEmpty_iff] at hempty
    have := hmem column
    simp only [hempty, List.not_mem_nil, false_iff] at this
    simp only [Trimmed, this, and_false]
  · refine ⟨true, T.clear row.key doomed, ?_, ?_, ?_⟩
    · rw [if_neg hempty, Program.run_bind_of_ok (run_delete h row.key doomed)]
      rfl
    · refine (T.without_clear row.key doomed).congr fun key column _ => ?_
      rw [hmem, Trimmed]
    · obtain ⟨column, hcolumn⟩ := List.exists_mem_of_ne_nil doomed (mt List.isEmpty_iff.mpr hempty)
      have hlost : T.lost (T.clear row.key doomed) = {row.key} := by
        refine Set.Subset.antisymm (fun key hkey => ?_) (Set.singleton_subset_iff.mpr ?_)
        · exact ((T.without_clear row.key doomed).of_mem_lost hkey).elim fun _ hgone => hgone.1
        · obtain ⟨⟨cell, hcell⟩, -⟩ := (hmem column).mp hcolumn
          refine ⟨column, ?_, by rw [Table.cell?_clear, if_pos ⟨rfl, hcolumn⟩]⟩
          rw [← hof column, hcell]
          simp
      rw [hlost, Set.encard_singleton]
      rfl

theorem trimRows_run (h : s.Holds t.table T) (offset : Int64) (rows : List Row)
    (hrows : ∀ row ∈ rows, Row.Numbered row ∧ Row.IsOf row T)
    (hnodup : (rows.map Row.key).Nodup) :
    ∃ lost T', (t.trimRows offset rows).run answer s = (.ok lost, s.update t.table T') ∧
      T.Loses (fun key column => ∃ row ∈ rows, Trimmed offset row key column) T' lost := by
  have hmap : ∃ lost T',
      (rows.mapM (t.trimRow offset)).run answer s = (.ok lost, s.update t.table T') ∧
        T.Loses (fun key column => ∃ row ∈ rows, Trimmed offset row key column) T'
          (lost.count true) := by
    induction rows generalizing s T with
    | nil => exact ⟨[], T, by rw [h.update_eq]; rfl, by simpa using Table.Loses.refl T⟩
    | cons row rows ih =>
        obtain ⟨hfirst, hrows⟩ := List.forall_mem_cons.mp hrows
        obtain ⟨hnotMem, hnodup⟩ := List.nodup_cons.mp hnodup
        obtain ⟨lost, T₁, hrow, hloses⟩ := trimRow_run h offset hfirst.1 hfirst.2
        -- the row that was trimmed is none of the others
        have hapart : ∀ row' ∈ rows, row'.key ≠ row.key :=
          fun row' h' heq => hnotMem (heq ▸ List.mem_map_of_mem h')
        obtain ⟨rest, T₂, hrest, hloses'⟩ := ih (h.update_self T₁)
          (fun row' h' => ⟨(hrows row' h').1, fun column => ((hrows row' h').2 column).trans
            (hloses.without.cell?_eq fun htrimmed => hapart row' h' htrimmed.1).symm⟩) hnodup
        have honce : ∀ key ∈ T.lost T₁, key ∉ T₁.lost T₂ := by
          intro key hkey hkey'
          obtain ⟨_, rfl, -⟩ := hloses.without.of_mem_lost hkey
          obtain ⟨_, row', h', heq, -⟩ := hloses'.without.of_mem_lost hkey'
          exact hapart row' h' heq.symm
        refine ⟨lost :: rest, T₂, ?_, ?_⟩
        · simp only [List.mapM_cons, Program.bind_eq, Program.pure_eq]
          rw [Program.run_bind_of_ok hrow, Program.run_bind_of_ok hrest, update_update]
          rfl
        · have hcount : (lost :: rest).count true = lost.toNat + rest.count true := by
            cases lost <;> simp [Nat.add_comm]
          rw [hcount]
          refine (hloses.trans hloses' honce).congr fun key column _ => ?_
          simp
  obtain ⟨lost, T', hrun, hloses⟩ := hmap
  refine ⟨lost.count true, T', ?_, hloses⟩
  simp only [trimRows, Program.bind_eq, Program.pure_eq]
  rw [Program.run_bind_of_ok hrun]
  rfl

/-- The cell of a bucket that has ended. -/
def Doomed (t : FactTable) (cutoff : Int64) (row column : Bytes) : Prop :=
  ∃ k time, 0 ≤ time.toInt ∧ row = t.rowOf k time ∧ column = t.columnOf time ∧
    t.Expired cutoff time

variable {T' : Table} {cutoff time : Int64} {k : SeriesNumbers}

theorem doomed_iff (ht : t.Rolled) (htime : 0 ≤ time.toInt) :
    t.Doomed cutoff (t.rowOf k time) (t.columnOf time) ↔ t.Expired cutoff time := by
  constructor
  · rintro ⟨k', time', htime', hrow, hcolumn, hexpired⟩
    obtain ⟨-, hstart⟩ := (cell_eq_iff ht htime htime').mp ⟨hrow, hcolumn⟩
    rw [Expired, hstart]
    exact hexpired
  · intro hexpired
    exact ⟨k, time, htime, rfl, rfl, hexpired⟩

theorem loses_doomed {doomed : Bytes → Bytes → Prop} {n : Nat} (ht : t.Rolled) (hlaid : t.Laid T)
    (h : T.Loses doomed T' n)
    (heq : ∀ k time, 0 ≤ time.toInt → (T.cell? (t.rowOf k time) (t.columnOf time)).isSome = true →
      (doomed (t.rowOf k time) (t.columnOf time) ↔ t.Expired cutoff time)) :
    T.Loses (t.Doomed cutoff) T' n := by
  refine h.congr fun row column hcell => ?_
  obtain ⟨cell, hcell'⟩ := Option.isSome_iff_exists.mp hcell
  obtain ⟨k, time, value, htime, rfl, rfl, -⟩ := hlaid row column cell hcell'
  rw [heq k time htime hcell, doomed_iff ht htime]

theorem laid_of_without {doomed : Bytes → Bytes → Prop} (hlaid : t.Laid T)
    (h : T.Without doomed T') : t.Laid T' :=
  fun row column cell hcell => hlaid row column cell ((h row column cell).mp hcell).1

theorem contains_rowOf (first : UInt64) (stop : Option UInt64) (k : SeriesNumbers)
    (time : Int64) :
    (∃ part ∈ t.ranges (FactKey.between first stop), part.contains (t.rowOf k time) = true) ↔
      first.toNat ≤ (t.locate time).base.toNat ∧
        ∀ last ∈ stop, (t.locate time).base.toNat < last.toNat := by
  rw [rowOf, contains_ranges, FactKey.contains_between]
  rfl

theorem contains_rowOf_self (ht : t.Rolled) (hcutoff : 0 ≤ cutoff.toInt) (k : SeriesNumbers)
    (time : Int64) :
    (∃ part ∈ t.ranges (FactKey.between (t.locate cutoff).base
        (some ((t.locate cutoff).base + 1))), part.contains (t.rowOf k time) = true) ↔
      (t.locate time).base.toNat = (t.locate cutoff).base.toNat := by
  rw [contains_rowOf]
  simp only [Option.mem_def, Option.some.injEq, forall_eq', toNat_base_add_one ht hcutoff]
  omega

theorem numbered_of_laid {range : KeyRange} {row : Row} (hlaid : t.Laid T)
    (h : row ∈ T.scan range) : Row.Numbered row := by
  intro column cell hcell
  rw [Table.get?_columns_of_mem_scan h] at hcell
  obtain ⟨k, time, value, -, -, rfl, -⟩ := hlaid _ _ _ hcell
  exact ⟨_, rfl⟩

theorem nodup_keys_scans (t : FactTable) (T : Table) (range : KeyRange) :
    (((t.ranges range).flatMap T.scan).map Row.key).Nodup := by
  rw [List.map_flatMap, List.nodup_flatMap]
  refine ⟨fun part _ => T.nodup_keys_scan part, (t.ranges_disjoint range).imp ?_⟩
  intro part part' hapart key hkey hkey'
  obtain ⟨row, hrow, rfl⟩ := List.mem_map.mp hkey
  obtain ⟨row', hrow', heq⟩ := List.mem_map.mp hkey'
  exact hapart _ (Table.mem_scan.mp hrow).1 (heq ▸ (Table.mem_scan.mp hrow').1)

theorem trimmed_iff {ranges : List KeyRange} {offset : Int64}
    (hcell : (T.cell? (t.rowOf k time) (t.columnOf time)).isSome = true) :
    (∃ row ∈ ranges.flatMap T.scan, Trimmed offset row (t.rowOf k time) (t.columnOf time)) ↔
      (∃ part ∈ ranges, part.contains (t.rowOf k time) = true) ∧
        ((t.locate time).offset.toNat : Int) < offset.toInt := by
  constructor
  · rintro ⟨row, hrow, hkey, -, place, hplace, hlt⟩
    obtain ⟨part, hpart, hscan⟩ := List.mem_flatMap.mp hrow
    refine ⟨⟨part, hpart, hkey ▸ (Table.mem_scan.mp hscan).1⟩, ?_⟩
    obtain rfl := encodeOffset_injective hplace
    exact hlt
  · rintro ⟨⟨part, hpart, hcontains⟩, hlt⟩
    obtain ⟨cell, hcell⟩ := Option.isSome_iff_exists.mp hcell
    obtain ⟨row, hscan, hkey⟩ := Table.exists_mem_scan hcell hcontains
    refine ⟨row, List.mem_flatMap.mpr ⟨part, hpart, hscan⟩, hkey.symm, ⟨cell, ?_⟩, _, rfl, hlt⟩
    rw [Table.get?_columns_of_mem_scan hscan, hkey]
    exact hcell

theorem deleteBefore_run_loses (ht : t.Rolled) (h : s.Holds t.table T) (hlaid : t.Laid T)
    (cutoff : Int64) :
    ∃ n T', (t.deleteBefore cutoff).run answer s = (.ok n, s.update t.table T') ∧
      T.Loses (t.Doomed cutoff) T' n := by
  by_cases htotal : t.resolution = .total
  · have hexpires : t.resolution.expires = false := by rw [htotal]; rfl
    refine ⟨0, T, ?_, ?_⟩
    · rw [h.update_eq, deleteBefore, hexpires]
      rfl
    · refine loses_doomed ht hlaid (.refl T) fun k time _ _ => ?_
      simp [Expired, hexpires]
  · have hexpires : t.resolution.expires = true := by
      cases hr : t.resolution <;> first | rfl | exact absurd hr htotal
    cases hkept : t.firstKept? cutoff with
    | none =>
        refine ⟨0, T, ?_, ?_⟩
        · rw [h.update_eq, deleteBefore, hexpires, hkept]
          rfl
        · refine loses_doomed ht hlaid (.refl T) fun k time htime _ => ?_
          simpa using firstKept?_eq_none htotal hkept htime
    | some kept =>
        obtain ⟨base, offset⟩ := kept
        obtain ⟨hcutoff, rfl, hoffset⟩ := firstKept?_eq_some ht htotal hkept
        obtain ⟨counts, T₁, hremoved, hloses⟩ := deleteRanges_run h
          (t.ranges (FactKey.between 0 (some (t.locate cutoff).base)))
        have hearlier : ∀ k time, (∃ part ∈ t.ranges (FactKey.between 0
            (some (t.locate cutoff).base)), part.contains (t.rowOf k time) = true) ↔
              (t.locate time).base.toNat < (t.locate cutoff).base.toNat := by
          intro k time
          rw [contains_rowOf]
          simp
        have hstart : (t.deleteBefore cutoff).run answer s =
            (if offset ≤ 0 then Program.result (.ok (counts.foldr (· + ·) 0)) else
              (t.scanAll (t.ranges (FactKey.between (t.locate cutoff).base
                (some ((t.locate cutoff).base + 1))))).bind fun rows =>
              (t.trimRows offset rows).bind fun trimmed =>
                .result (.ok (counts.foldr (· + ·) 0 + trimmed))).run answer
                  (s.update t.table T₁) := by
          simp only [deleteBefore, hexpires, hkept, deleteRanges, Program.bind_eq, Program.pure_eq,
            Bool.not_true, Bool.false_eq_true, if_false, Program.bind_assoc]
          exact Program.run_bind_of_ok hremoved
        by_cases hzero : offset ≤ 0
        · refine ⟨_, T₁, by rw [hstart, if_pos hzero]; rfl, ?_⟩
          refine loses_doomed ht hlaid hloses fun k time htime _ => ?_
          rw [Int64.le_iff_toInt_le, Int64.toInt_zero] at hzero
          rw [hearlier, expired_iff ht htotal hcutoff htime]
          omega
        · have hlaid₁ := laid_of_without hlaid hloses.without
          have h₁ := h.update_self T₁
          obtain ⟨lost, T₂, htrimmed, hloses'⟩ := trimRows_run h₁ offset
            ((t.ranges (FactKey.between (t.locate cutoff).base
              (some ((t.locate cutoff).base + 1)))).flatMap T₁.scan) (by
              intro row hrow
              obtain ⟨part, -, hscan⟩ := List.mem_flatMap.mp hrow
              exact ⟨numbered_of_laid hlaid₁ hscan, Table.get?_columns_of_mem_scan hscan⟩)
            (t.nodup_keys_scans T₁ _)
          refine ⟨counts.foldr (· + ·) 0 + lost, T₂, ?_, ?_⟩
          · rw [hstart, if_neg hzero, Program.run_bind_of_ok (scanAll_run h₁ _),
              Program.run_bind_of_ok htrimmed, update_update]
            rfl
          · refine loses_doomed ht hlaid (hloses.trans hloses'
              (hloses.without.lost_once T₂)) fun k time htime hcell => ?_
            rw [hearlier, expired_iff ht htotal hcutoff htime]
            by_cases hlt : (t.locate time).base.toNat < (t.locate cutoff).base.toNat
            · simp [hlt]
            · have hkept : T₁.cell? (t.rowOf k time) (t.columnOf time) = _ :=
                hloses.without.cell?_eq (mt (hearlier k time).mp hlt)
              rw [trimmed_iff (by rwa [hkept]), contains_rowOf_self ht hcutoff]
              omega

theorem deleteBefore_run (ht : t.Rolled) (h : s.Holds t.table T) (hlaid : t.Laid T)
    (cutoff : Int64) :
    ∃ n T', (t.deleteBefore cutoff).run answer s = (.ok n, s.update t.table T') ∧
      T.Without (t.Doomed cutoff) T' := by
  obtain ⟨n, T', hrun, hloses⟩ := deleteBefore_run_loses ht h hlaid cutoff
  exact ⟨n, T', hrun, hloses.without⟩

end FactTable

end Rollup
