import Rollup.Proofs.Fact.Deletion
import Rollup.Proofs.Program.Requests

namespace Rollup

open Storage Program

theorem Place.eq_encodeOffset_of_decode {column : Bytes} {place : UInt16}
    (h : decodeOffset column = .ok place) : column = encodeOffset place := by
  simp only [decodeOffset] at h
  split at h
  · next hlength =>
    cases h
    have hlt : Bytes.value column < 2 ^ 16 := by
      have := Bytes.value_lt column
      rw [hlength] at this
      exact this
    rw [encodeOffset, Bytes.ofUInt16, Bytes.toUInt16, UInt16.toNat_ofNat_of_lt' hlt, ← hlength]
    exact (Bytes.bigEndian_value column).symm
  · cases h

def Storage.ScansInRange : (q : Storage.Request) → q.Answer → Prop
  | .table _ (.scan range), rows => ∀ row ∈ rows, range.contains row.key = true
  | _, _ => True

theorem Storage.scansInRange_answer (q : Storage.Request) (s : Storage) (a : q.Answer)
    (h : (answer q s).1 = .ok a) : ScansInRange q a := by
  unfold ScansInRange
  split
  · next id range rows =>
    rcases answer_table s id (.scan range) with ⟨_, heq⟩ | ⟨_, _, hperform, heq⟩
    · rw [heq] at h
      cases h
    · rw [heq] at h
      cases h
      cases hperform
      exact fun row hrow => (Table.mem_scan.mp hrow).1
  · trivial

inductive TableOp.Erases : TableOp → Prop
  | scan (range : KeyRange) : Erases (.scan range)
  | deleteRange (range : KeyRange) : Erases (.deleteRange range)
  | delete (key : Bytes) (columns : List Bytes) : Erases (.delete key columns)

theorem TableOp.Erases.cell?_cases {op : TableOp} (h : op.Erases) {T T' : Table} {a : op.Answer}
    (hperform : T.perform op = .ok (a, T')) (row column : Bytes) :
    T'.cell? row column = T.cell? row column ∨ T'.cell? row column = none := by
  cases h with
  | scan range =>
      cases hperform
      exact .inl rfl
  | deleteRange range =>
      cases hperform
      rw [Table.cell?_eraseRange]
      split
      · exact .inr rfl
      · exact .inl rfl
  | delete key columns =>
      cases hperform
      rw [Table.cell?_clear]
      split
      · exact .inr rfl
      · exact .inl rfl

namespace FactTable

variable {t : FactTable} {cutoff : Int64} {inv : Storage → Prop} {s s' : Storage}
  {op : TableOp} {T T' : Table}

/-- The operations by which a deletion clears buckets that have ended, and nothing else. -/
inductive Clears (t : FactTable) (cutoff : Int64) : TableOp → Prop
  | scan (range : KeyRange) : Clears t cutoff (.scan range)
  | rows (range : KeyRange) (h : ∀ k time, 0 ≤ time.toInt →
      range.contains (t.rowOf k time) = true → t.Expired cutoff time) :
      Clears t cutoff (.deleteRange range)
  | columns (key : Bytes) (columns : List Bytes) (h : ∀ k time, 0 ≤ time.toInt →
      t.rowOf k time = key → t.columnOf time ∈ columns → t.Expired cutoff time) :
      Clears t cutoff (.delete key columns)

def Deletes (t : FactTable) (cutoff : Int64) (q : Storage.Request) : Prop :=
  ∃ op, q = .table t.table op ∧ t.Clears cutoff op

theorem Clears.cell? (h : t.Clears cutoff op) {a : op.Answer}
    (hperform : T.perform op = .ok (a, T')) {k : SeriesNumbers} {time : Int64}
    (htime : 0 ≤ time.toInt) (hkept : ¬ t.Expired cutoff time) :
    T'.cell? (t.rowOf k time) (t.columnOf time) = T.cell? (t.rowOf k time) (t.columnOf time) := by
  cases h with
  | scan range =>
      cases hperform
      rfl
  | rows range hrange =>
      cases hperform
      rw [Table.cell?_eraseRange, if_neg fun h => hkept (hrange k time htime h)]
  | columns key columns hcolumns =>
      cases hperform
      rw [Table.cell?_clear, if_neg fun h => hkept (hcolumns k time htime h.1 h.2)]

def Erases (t : FactTable) (q : Storage.Request) : Prop :=
  ∃ op, q = .table t.table op ∧ op.Erases

theorem Clears.erases (h : t.Clears cutoff op) : op.Erases := by
  cases h with
  | scan range => exact .scan range
  | rows range => exact .deleteRange range
  | columns key columns => exact .delete key columns

theorem before_of_mem_columnsBefore {offset : Int64} {entries : List (Bytes × Bytes)}
    {doomed : List Bytes} (h : columnsBefore offset entries = .ok doomed) {column : Bytes}
    (hcolumn : column ∈ doomed) : Before offset column := by
  induction entries generalizing doomed with
  | nil =>
      cases h
      cases hcolumn
  | cons e entries ih =>
      obtain ⟨first, cell⟩ := e
      simp only [columnsBefore, Bind.bind, Except.bind, pure, Except.pure] at h
      split at h
      · cases h
      · next place hplace =>
        split at h
        · cases h
        · next rest hrest =>
          simp only [Except.ok.injEq] at h
          split at h
          · next hlt =>
            subst h
            rcases List.mem_cons.mp hcolumn with rfl | hcolumn
            · refine ⟨place, Place.eq_encodeOffset_of_decode hplace, ?_⟩
              rwa [Int64.lt_iff_toInt_lt, Place.toInt_offset] at hlt
            · exact ih hrest hcolumn
          · subst h
            exact ih hrest hcolumn

theorem deletes_confined (h : t.Clears cutoff op) : (Storage.perform t.table op).Confined
    (t.Deletes cutoff) ScansInRange (ScansInRange (.table t.table op)) :=
  confined_request ⟨op, rfl, h⟩

theorem deleteRanges_confined {base : UInt64} (h : ∀ time : Int64, 0 ≤ time.toInt →
      (t.locate time).base.toNat < base.toNat → t.Expired cutoff time) :
    (t.deleteRanges (t.ranges (FactKey.between 0 (some base)))).Confined (t.Deletes cutoff)
      ScansInRange fun _ => True := by
  simp only [deleteRanges, bind_eq, pure_eq]
  refine confined_bind (confined_mapM (Q := fun _ => True) fun range hrange => ?_)
    fun _ _ => confined_result fun _ _ => trivial
  refine deletes_confined (.rows range fun k time htime hcontains => h time htime ?_)
  have hbefore := (contains_rowOf 0 _ k time).mp ⟨range, hrange, hcontains⟩
  simp only [Option.mem_def, Option.some.injEq, forall_eq'] at hbefore
  exact hbefore.2

theorem scanAll_confined (ranges : List KeyRange) :
    (t.scanAll ranges).Confined (t.Deletes cutoff) ScansInRange fun rows =>
      ∀ row ∈ rows, ∃ range ∈ ranges, range.contains row.key = true := by
  simp only [scanAll, bind_eq, pure_eq]
  refine confined_bind (Q := fun parts => ∀ part ∈ parts, ∀ row ∈ part,
    ∃ range ∈ ranges, range.contains row.key = true) (confined_mapM fun range hrange => ?_)
    fun parts hparts => confined_result fun rows hrows row hrow => ?_
  · refine confined_mono (fun _ h => h) (fun rows hrows row hrow => ?_)
      (deletes_confined (.scan range))
    exact ⟨range, hrange, hrows row hrow⟩
  · cases hrows
    obtain ⟨part, hpart, hrow⟩ := List.mem_flatten.mp hrow
    exact hparts part hpart row hrow

theorem trimRow_confined {offset : Int64} {row : Row} (h : ∀ k time, 0 ≤ time.toInt →
      t.rowOf k time = row.key → (t.locate time).offset.toNat < offset.toInt →
        t.Expired cutoff time) :
    (t.trimRow offset row).Confined (t.Deletes cutoff) ScansInRange fun _ => True := by
  simp only [trimRow, bind_eq, pure_eq]
  refine confined_bind (confined_result fun doomed h => h) fun doomed hdoomed => ?_
  split
  · exact confined_result fun _ _ => trivial
  · refine confined_bind (deletes_confined (.columns _ _ ?_))
      fun _ _ => confined_result fun _ _ => trivial
    intro k time htime hkey hcolumn
    obtain ⟨place, hplace, hlt⟩ := before_of_mem_columnsBefore hdoomed hcolumn
    obtain rfl := encodeOffset_injective hplace
    exact h k time htime hkey hlt

/-- Every request of a deletion spares the buckets that end after the cutoff. -/
theorem deleteBefore_confined (ht : t.Rolled) (cutoff : Int64) :
    (t.deleteBefore cutoff).Confined (t.Deletes cutoff) ScansInRange fun _ => True := by
  by_cases hexpires : t.resolution.expires = true
  · have htotal : t.resolution ≠ .total := by
      intro htotal
      simp [htotal, Resolution.expires] at hexpires
    simp only [deleteBefore, hexpires, bind_eq, pure_eq, Bool.not_true, Bool.false_eq_true,
      if_false]
    cases hkept : t.firstKept? cutoff with
    | none => exact confined_result fun _ _ => trivial
    | some kept =>
        obtain ⟨base, offset⟩ := kept
        obtain ⟨hcutoff, rfl, hoffset⟩ := firstKept?_eq_some ht htotal hkept
        have hexpired := fun {time : Int64} (htime : 0 ≤ time.toInt) =>
          expired_iff ht htotal hcutoff htime
        refine confined_bind (deleteRanges_confined fun time htime hlt =>
          (hexpired htime).mpr (.inl hlt)) fun removed _ => ?_
        split
        · exact confined_result fun _ _ => trivial
        · refine confined_bind (scanAll_confined _) fun rows hrows => ?_
          refine confined_bind (Q := fun _ => True) ?_ fun _ _ => confined_result fun _ _ => trivial
          simp only [trimRows, bind_eq, pure_eq]
          refine confined_bind (confined_mapM (Q := fun _ => True) fun row hrow => ?_)
            fun _ _ => confined_result fun _ _ => trivial
          obtain ⟨range, hrange, hcontains⟩ := hrows row hrow
          refine trimRow_confined fun k time htime hkey hlt => (hexpired htime).mpr (.inr ⟨?_, ?_⟩)
          · exact (contains_rowOf_self ht hcutoff k time).mp ⟨range, hrange, by rwa [hkey]⟩
          · omega
  · simp only [deleteBefore, hexpires, bind_eq, pure_eq, Bool.not_false, if_true]
    exact confined_result fun _ _ => trivial

theorem deleteBefore_only (t : FactTable) (cutoff : Int64) :
    (t.deleteBefore cutoff).Only t.Erases := by
  have hrequest {op : TableOp} (hop : op.Erases) : (Storage.perform t.table op).Only t.Erases :=
    only_request ⟨op, rfl, hop⟩
  have hranges ranges : (t.deleteRanges ranges).Only t.Erases :=
    only_bind (only_mapM fun _ _ => hrequest (.deleteRange _)) fun _ => only_result _
  have hscans ranges : (t.scanAll ranges).Only t.Erases :=
    only_bind (only_mapM fun _ _ => hrequest (.scan _)) fun _ => only_result _
  have htrim offset row : (t.trimRow offset row).Only t.Erases := by
    simp only [trimRow, bind_eq, pure_eq]
    refine only_bind (only_result _) fun doomed => ?_
    split
    · exact only_result _
    · exact only_bind (hrequest (.delete _ _)) fun _ => only_result _
  simp only [deleteBefore, bind_eq, pure_eq]
  split
  · exact only_result _
  · split
    · exact only_result _
    · refine only_bind (hranges _) fun removed => ?_
      split
      · exact only_result _
      · refine only_bind (hscans _) fun rows => only_bind ?_ fun _ => only_result _
        exact only_bind (only_mapM fun row _ => htrim _ row) fun _ => only_result _

/-- Nothing has changed but cells of the table whose buckets have ended. -/
structure Spares (t : FactTable) (cutoff : Int64) (s s' : Storage) : Prop where
  others : ∀ id, id ≠ t.table → s'.contents id = s.contents id
  cells : ∀ k time, 0 ≤ time.toInt → ¬ t.Expired cutoff time →
    (s'.contents t.table).cell? (t.rowOf k time) (t.columnOf time) =
      (s.contents t.table).cell? (t.rowOf k time) (t.columnOf time)

theorem spares_answer {q : Storage.Request} (h : t.Deletes cutoff q) (s : Storage) :
    t.Spares cutoff s (answer q s).2 := by
  obtain ⟨op, rfl, hclears⟩ := h
  rcases answer_table s t.table op with ⟨_, heq⟩ | ⟨a, T, hperform, heq⟩ <;> rw [heq]
  · exact ⟨fun _ _ => rfl, fun _ _ _ _ => rfl⟩
  · refine ⟨fun id hid => ?_, fun k time htime hkept => ?_⟩
    · rw [contents_update, if_neg hid]
    · rw [contents_update, if_pos rfl]
      exact hclears.cell? hperform htime hkept

theorem deleteBefore_keeps (ht : t.Rolled)
    (hkeep : ∀ s s', inv s → t.Spares cutoff s s' → inv s') :
    (t.deleteBefore cutoff).Keeps Storage.answer fallible inv fun _ => True :=
  (deleteBefore_confined ht cutoff).keeps fun q s hq hs =>
    ⟨hkeep s _ hs (spares_answer hq s), scansInRange_answer q s⟩

end FactTable

end Rollup
