import Rollup.Proofs.Fact.Exact
import Rollup.Proofs.Fact.Expiry
import Rollup.Proofs.Fact.Upkeep

namespace Rollup

open Storage

theorem Table.length_scan_add_rowCount (T : Table) (range : KeyRange) :
    (T.scan range).length + (T.eraseRange range).rowCount = T.rowCount := by
  simp only [scan, eraseRange, rowCount, SortedMap.size, SortedMap.entries_filterKeys,
    List.length_map]
  exact (List.length_eq_length_filter_add _).symm

namespace Unsteady

variable {id : TableId} {u v : Unsteady} {ranges : List KeyRange}

theorem of_scans_run_ok {parts : List (List Row)}
    (hrun : (ranges.mapM (scan id)).run answer u = (.ok parts, v)) :
    parts = ranges.map (u.storage.contents id).scan := by
  induction ranges generalizing u parts with
  | nil =>
      cases hrun
      rfl
  | cons range ranges ih =>
      simp only [List.mapM_cons, Program.bind_eq, Program.pure_eq] at hrun
      obtain ⟨part, u₁, hpart, hrun⟩ := Program.run_bind_ok hrun
      obtain ⟨parts', u₂, hrest, hrun⟩ := Program.run_bind_ok hrun
      cases hrun
      obtain ⟨T, hperform, hsame⟩ := of_perform_run_ok hpart
      cases hperform
      rw [ih hrest, hsame, Function.update_eq_self]
      rfl

theorem of_deleteRanges_run_ok {counts : List Nat}
    (hrun : (ranges.mapM (deleteRange id)).run answer u = (.ok counts, v)) :
    counts.foldr (· + ·) 0 + (v.storage.contents id).rowCount =
      (u.storage.contents id).rowCount := by
  induction ranges generalizing u counts with
  | nil =>
      cases hrun
      exact Nat.zero_add _
  | cons range ranges ih =>
      simp only [List.mapM_cons, Program.bind_eq, Program.pure_eq] at hrun
      obtain ⟨n, u₁, hfirst, hrun⟩ := Program.run_bind_ok hrun
      obtain ⟨counts', u₂, hrest, hrun⟩ := Program.run_bind_ok hrun
      cases hrun
      obtain ⟨T, hperform, hsame⟩ := of_perform_run_ok hfirst
      cases hperform
      have hleft := ih hrest
      rw [hsame, Function.update_self] at hleft
      rw [← (u.storage.contents id).length_scan_add_rowCount range, ← hleft, List.foldr_cons,
        Nat.add_assoc]

end Unsteady

namespace FactTable

variable {t : FactTable} {u v : Unsteady} {ranges : List KeyRange}

theorem length_scans_le (t : FactTable) (T : Table) (range : KeyRange) :
    ((t.ranges range).flatMap T.scan).length ≤ T.rowCount := by
  have hkeys : ((t.ranges range).flatMap T.scan).map Row.key ⊆ T.rows.entries.map Prod.fst := by
    intro key hkey
    obtain ⟨row, hrow, rfl⟩ := List.mem_map.mp hkey
    exact List.mem_map.mpr ⟨(row.key, row.columns),
      SortedMap.mem_entries.mpr (mem_scans.mp hrow).2, rfl⟩
  have hlength := ((t.nodup_keys_scans T range).subperm hkeys).length_le
  rwa [List.length_map, List.length_map] at hlength

theorem of_scanAll_run_ok {rows : List Row}
    (hrun : (t.scanAll ranges).run Unsteady.answer u = (.ok rows, v)) :
    rows = ranges.flatMap (u.storage.contents t.table).scan := by
  simp only [scanAll, Program.bind_eq, Program.pure_eq] at hrun
  obtain ⟨parts, w, hparts, hrun⟩ := Program.run_bind_ok hrun
  cases hrun
  rw [Unsteady.of_scans_run_ok hparts, List.flatMap_def]

theorem of_deleteRanges_run_ok {removed : Nat}
    (hrun : (t.deleteRanges ranges).run Unsteady.answer u = (.ok removed, v)) :
    removed + (v.storage.contents t.table).rowCount = (u.storage.contents t.table).rowCount := by
  simp only [deleteRanges, Program.bind_eq, Program.pure_eq] at hrun
  obtain ⟨counts, w, hcounts, hrun⟩ := Program.run_bind_ok hrun
  cases hrun
  exact Unsteady.of_deleteRanges_run_ok hcounts

theorem of_trimRows_run_ok {offset : Int64} {rows : List Row} {trimmed : Nat}
    (hrun : (t.trimRows offset rows).run Unsteady.answer u = (.ok trimmed, v)) :
    trimmed ≤ rows.length := by
  simp only [trimRows, Program.bind_eq, Program.pure_eq] at hrun
  obtain ⟨lost, w, hlost, hrun⟩ := Program.run_bind_ok hrun
  cases hrun
  exact Program.length_of_mapM_run hlost ▸ List.count_le_length

end FactTable

namespace Exact

variable {α β : Type} {t : FactTable} {u : Unsteady} {p : OptionT Work α} {q : Work α}
  {ranges : List KeyRange}

/-- From a moment on exact work has a result, and it goes as other work does. -/
def Follows (p : OptionT Work α) (q : Work α) (u : Unsteady) : Prop :=
  p.run.run Unsteady.answer u = (some <$> q).run Unsteady.answer u

theorem run_some_map (q : Work α) (u : Unsteady) : (some <$> q).run Unsteady.answer u =
    ((q.run Unsteady.answer u).1.map some, (q.run Unsteady.answer u).2) := by
  rw [map_eq_pure_bind, Program.bind_eq, Program.run_bind]
  rcases q.run Unsteady.answer u with ⟨e | a, v⟩ <;> rfl

theorem follows_lift (q : Work α) (u : Unsteady) : Follows (.lift q) q u := by
  rw [Follows, OptionT.run_lift, map_eq_pure_bind]

theorem follows_bind {f : α → OptionT Work β} {g : α → Work β} (h : Follows p q u)
    (hf : ∀ a v, q.run Unsteady.answer u = (.ok a, v) → Follows (f a) (g a) v) :
    Follows (p >>= f) (q.bind g) u := by
  rw [Follows, run_some_map] at h ⊢
  rw [OptionT.run_bind, Option.elimM, Program.bind_eq, Program.run_bind, h, Program.run_bind]
  rcases hq : q.run Unsteady.answer u with ⟨e | a, v⟩
  · rfl
  · have hrest := hf a v hq
    rwa [Follows, run_some_map] at hrest

theorem follows_lift_bind {f : α → OptionT Work β} {g : α → Work β}
    (hf : ∀ a v, q.run Unsteady.answer u = (.ok a, v) → Follows (f a) (g a) v) :
    Follows (.lift q >>= f) (q.bind g) u := follows_bind (follows_lift q u) hf

theorem deleteRanges_follows (h : ∀ range ∈ ranges, range.Ordered)
    (hcount : (u.storage.contents t.table).rowCount < 2 ^ 64) :
    Follows (deleteRanges t ranges) (t.deleteRanges ranges) u := by
  rw [deleteRanges, eachRange_eq h]
  refine follows_lift_bind fun counts v hrun => ?_
  have hleft := Unsteady.of_deleteRanges_run_ok hrun
  rw [count_eq (by omega)]
  rfl

theorem deleteBefore_follows (ht : t.Rolled) (cutoff : Int64)
    (hcount : (u.storage.contents t.table).rowCount < 2 ^ 64) :
    Follows (deleteBefore t cutoff) (t.deleteBefore cutoff) u := by
  unfold deleteBefore FactTable.deleteBefore
  cases hexpires : t.resolution.expires with
  | false => rfl
  | true =>
      have htotal : t.resolution ≠ .total := by
        intro htotal
        rw [htotal] at hexpires
        cases hexpires
      simp only [firstKept_eq ht, settle_some, pure_bind, Bool.not_true, Bool.false_eq_true,
        if_false]
      cases hkept : t.firstKept? cutoff with
      | none => rfl
      | some kept =>
          obtain ⟨base, offset⟩ := kept
          obtain ⟨hcutoff, rfl, -⟩ := FactTable.firstKept?_eq_some ht htotal hkept
          have hnext := FactTable.toNat_base_add_one ht hcutoff
          have hbefore : (FactKey.between 0 (some (t.locate cutoff).base)).Ordered :=
            FactKey.ordered_between (UInt64.le_iff_toNat_le.mpr (Nat.zero_le _))
          have hrow : (FactKey.between (t.locate cutoff).base
              (some ((t.locate cutoff).base + 1))).Ordered :=
            FactKey.ordered_between (UInt64.le_iff_toNat_le.mpr (by omega))
          refine follows_bind (deleteRanges_follows (t.ordered_ranges hbefore) hcount)
            fun removed v hremoved => ?_
          split
          · rfl
          · have hstop : uint64? ((t.locate cutoff).base.toNat + 1) =
                some ((t.locate cutoff).base + 1) := by
              rw [uint64?_eq_some_iff, hnext, Int.natCast_add, Int.natCast_one]
            rw [hstop, settle_some, pure_bind, scanAll_eq (t.ordered_ranges hrow)]
            refine follows_lift_bind fun rows w hrows => ?_
            rw [trimRows_eq]
            refine follows_lift_bind fun trimmed x htrimmed => ?_
            -- what was removed is no longer there to be scanned and trimmed
            have hleft := FactTable.of_deleteRanges_run_ok hremoved
            have hscanned := t.length_scans_le (v.storage.contents t.table)
              (FactKey.between (t.locate cutoff).base (some ((t.locate cutoff).base + 1)))
            rw [← FactTable.of_scanAll_run_ok hrows] at hscanned
            have hlost := FactTable.of_trimRows_run_ok htrimmed
            rw [count_eq (by omega)]
            rfl

theorem seriesPoints_follows (ht : t.Rolled)
    (htimed : ∀ row column, (u.storage.contents t.table).cell? row column ≠ none →
      t.Timed row column) (filter : Tags) (metric : String) (range : TimeRange) :
    Follows (seriesPoints t filter metric range) (t.seriesPoints filter metric range) u := by
  refine follows_lift_bind fun id? v hlookup => ?_
  cases id? with
  | none => rfl
  | some id =>
      refine follows_lift_bind fun wanted? w hlookups => ?_
      cases wanted? with
      | none => rfl
      | some wanted =>
          dsimp only
          rw [rowsOf_eq ht, settle_some, pure_bind]
          cases hpart : t.rowsOf range with
          | none => rfl
          | some part =>
              dsimp only
              rw [scanAll_eq (t.ordered_ranges (ordered_rowsOf ht hpart))]
              refine follows_lift_bind fun rows x hscan => ?_
              have hv := Unsteady.contents_run (t.entities.lookup_reads ⟨.metric, metric⟩) u
              have hw := Unsteady.contents_run (t.lookupTags_reads filter.entries) v
              rw [hlookup] at hv
              rw [hlookups] at hw
              have hrows : ∀ row ∈ rows, ∀ cell ∈ row.columns.entries, t.Timed row.key cell.1 := by
                intro row hrow cell hcell
                rw [FactTable.of_scanAll_run_ok hscan, hw, hv] at hrow
                obtain ⟨range', -, hrow⟩ := List.mem_flatMap.mp hrow
                refine htimed row.key cell.1 ?_
                rw [← Table.get?_columns_of_mem_scan hrow, SortedMap.mem_entries.mp hcell]
                exact Option.some_ne_none _
              rw [foldlM_lift fun row hrow => readRow_eq (hrows row hrow), result_lift]
              exact follows_lift _ _

end Exact

namespace FactTable

variable {t writer : FactTable} {s : Storage} {k : SeriesNumbers} {time : Int64}

/-- A table starts out empty. Then values are written into it and buckets are deleted from it,
whatever fails meanwhile, by tables with buckets of its width; how many buckets they put into a
row, how they lay rows out and where they number strings may differ. All else leaves the table
alone. -/
inductive Filled (t : FactTable) : Storage → Prop
  | empty {s : Storage} (h : s.contents t.table = .empty) : Filled t s
  | change {u : Unsteady} (entities : EntityTable) (asked : Nat) (salting : Option Salting)
      (hne : entities.table ≠ t.table) (change : Change) (h : Filled t u.storage) :
      Filled t (({ t with entities, roll := Place.roll t.resolution asked, salting }.perform
        change).run Unsteady.answer u).2.storage
  | beside {s s' : Storage} (h : Filled t s) (hsame : s'.contents t.table = s.contents t.table) :
      Filled t s'

theorem eq_of_decode {key key' : FactKey}
    (h : FactKey.decode (t.logicalKey (writer.physicalKey key.encode)) = .ok key') :
    key' = key := by
  have hlength := FactKey.length_of_decode h
  have hsame : t.logicalKey (writer.physicalKey key.encode) = key.encode := by
    cases ht : t.salting <;> cases hwriter : writer.salting <;>
      simp only [logicalKey, physicalKey, ht, hwriter] at hlength ⊢
    · -- a salt makes a key one byte too long
      rw [Salting.distribute, List.length_cons, FactKey.length_encode] at hlength
      omega
    · rw [Salting.unsalted, List.length_drop, FactKey.length_encode] at hlength
      omega
    · exact Salting.unsalted_distribute ..
  rw [hsame, FactKey.decode_encode] at h
  exact (Except.ok.inj h).symm

theorem timed_rowOf (hr : writer.resolution = t.resolution) (hwriter : writer.Rolled)
    (htime : 0 ≤ time.toInt) : t.Timed (writer.rowOf k time) (writer.columnOf time) := by
  intro key offset hkey hoffset
  obtain rfl := eq_of_decode hkey
  obtain rfl : (writer.locate time).offset = offset := by
    rw [columnOf, Place.decodeOffset_encodeOffset] at hoffset
    exact Except.ok.inj hoffset
  have hstart : ((writer.locate time).base.toNat : Int) +
      (writer.locate time).offset.toNat * writer.resolution.width.toInt =
        writer.resolution.bucketStart time.toInt :=
    Place.start_ofTimestamp hwriter.pos hwriter.le htime
  have hbefore := writer.resolution.bucketStart_le htime
  have hhigh := time.toInt_lt
  rw [hr] at hstart hbefore
  rw [keyOf, hstart]
  omega

theorem Filled.timed (h : t.Filled s) {row column : Bytes}
    (hcell : (s.contents t.table).cell? row column ≠ none) : t.Timed row column := by
  induction h with
  | empty h =>
      rw [h] at hcell
      exact absurd rfl hcell
  | @change u entities asked salting hne change h ih =>
      let writer : FactTable :=
        { t with entities, roll := Place.roll t.resolution asked, salting }
      have hwriter : writer.Rolled := rolled_of_eq rfl
      cases change with
      | write m =>
          simp only [perform] at hcell
          rcases writer.write_run_cases m u with ⟨e, v, hrun, hsame⟩ | ⟨k, v, hrun, hsame, -⟩
          · rw [hrun, hsame.eq_of_ne hne.symm] at hcell
            exact ih hcell
          · rw [hrun, hsame.eq_of_ne hne.symm, cell?_enteredInto] at hcell
            split at hcell
            · next heq =>
              rw [heq.2.1, heq.2.2]
              exact timed_rowOf rfl hwriter
                (Metric.timestamp_nonneg (defect?_of_write_ok hrun))
            · exact ih hcell
      | expire cutoff =>
          simp only [perform, Program.bind_eq, Program.pure_eq, Program.run_bind_pure] at hcell
          exact ih (cell?_of_deleteBefore hwriter cutoff u hcell)
  | beside h hsame ih =>
      rw [hsame] at hcell
      exact ih hcell

/-- Of a table with any width of buckets, any length of rows and any layout, the places of values
and whole writes are the same in machine words as in exact numbers. So are queries over any
range and deletions up to any cutoff, once the table was filled by writing, whatever fails in the
course of them, as long as a word can count the rows of the table. Exact work has a result only
if every number on the way fits its word and no range that is asked for is upside down. -/
theorem runs_exactly (t : FactTable) (asked : Nat)
    (hroll : t.roll = Place.roll t.resolution asked) :
    (∀ time : Int64, 0 ≤ time.toInt → Exact.locate t time = some (t.locate time)) ∧
    (∀ m, Exact.write t m = .lift (t.write m)) ∧
    ∀ u : Unsteady, t.Filled u.storage →
      (∀ filter metric range,
        (Exact.seriesPoints t filter metric range).run.run Unsteady.answer u =
          (some <$> t.seriesPoints filter metric range).run Unsteady.answer u) ∧
      ∀ cutoff, (u.storage.contents t.table).rowCount < 2 ^ 64 →
        (Exact.deleteBefore t cutoff).run.run Unsteady.answer u =
          (some <$> t.deleteBefore cutoff).run Unsteady.answer u := by
  have ht := rolled_of_eq hroll
  refine ⟨fun time => Exact.locate_eq ht, Exact.write_eq ht, fun u hu => ⟨?_, ?_⟩⟩
  · exact Exact.seriesPoints_follows ht fun row column => hu.timed
  · exact fun cutoff => Exact.deleteBefore_follows ht cutoff

def secondsTable : FactTable :=
  { sampleTable with resolution := .second, roll := Place.roll .second 65536 }

/-- A value in the first row, put there when rows were shorter, and one at the end of time. -/
def secondsFilled : Unsteady :=
  let writer (asked : Nat) : FactTable :=
    { secondsTable with roll := Place.roll secondsTable.resolution asked }
  let early := (writer 7).perform (.write ⟨.gauge, "m", 3, 1, .empty⟩)
  let late := (writer 65536).perform (.write ⟨.counter, "m", 9223372036854775807, 5, .empty⟩)
  (late.run Unsteady.answer (early.run Unsteady.answer ⟨sampleStorage, [], []⟩).2).2

/-- The last second stands in the last column. A query over all times finds both values, and the
last deletion leaves the last second alone. -/
theorem last_second_runs_exactly :
    let t := secondsTable
    let u := secondsFilled
    t.Filled u.storage ∧ (u.storage.contents t.table).rowCount = 2 ∧
      (Exact.locate t 9223372036854775807).map Place.offset = some 65535 ∧
      ((Exact.seriesPoints t .empty "m" ⟨-9223372036854775808, 9223372036854775807⟩).run.run
        Unsteady.answer u).1.toOption.join.map SortedMap.entries =
          some [(([], 3), 1), (([], 9223372036854775807), 5)] ∧
      ((Exact.deleteBefore t 9223372036854775807).run.run Unsteady.answer u).1.toOption.join =
        some 1 := by
  intro t u
  obtain ⟨hlocate, -, hruns⟩ := runs_exactly t 65536 rfl
  have hempty : sampleStorage.Holds t.table .empty := holds_of_blank (by decide +kernel)
  have hfilled : t.Filled u.storage :=
    .change _ 65536 _ (by decide) _ (.change _ 7 _ (by decide) _ (.empty hempty.contents_eq))
  have hrows : (u.storage.contents t.table).rowCount = 2 := by decide +kernel
  obtain ⟨hquery, hdelete⟩ := hruns u hfilled
  refine ⟨hfilled, hrows, ?_, ?_, ?_⟩
  · rw [hlocate _ (by decide)]
    decide +kernel
  · rw [hquery, Exact.run_some_map]
    decide +kernel
  · rw [hdelete _ (by omega), Exact.run_some_map]
    decide +kernel

end FactTable

end Rollup
