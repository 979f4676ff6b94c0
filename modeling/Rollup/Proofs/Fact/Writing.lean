import Rollup.Aggregation.Pending
import Rollup.Proofs.Fact.Query

namespace Rollup

open Storage Entity

theorem EntityTable.Ready.update {t : EntityTable} {s : Storage} (h : t.Ready s) {id : TableId}
    (hne : t.table ≠ id) (T : Table) : t.Ready (s.update id T) := by
  obtain ⟨E, count, hE, hnumbered, hcount⟩ := h.table
  refine ⟨⟨E, count, (holds_update_ne hne).mpr hE, hnumbered, hcount⟩, ?_⟩
  intro e number hmemory
  rw [contents_update, if_neg hne]
  exact h.memory e number hmemory

def SeriesNumbered (E : Table) (series : Series) (k : SeriesNumbers) : Prop :=
  NumberedAs E ⟨.metric, series.name⟩ k.metric ∧
    List.Forall₂ (TagNumbers E) series.tags.entries k.tags

def Metric.applied (m : Metric) (old : Option Int64) : Int64 :=
  match m.kind with
  | .counter => old.getD 0 + m.value
  | .gauge => m.value

theorem Metric.timestamp_nonneg {m : Metric} (h : m.defect? = none) : 0 ≤ m.timestamp.toInt := by
  simp only [defect?] at h
  split at h
  · cases h
  · split at h
    · cases h
    · next hnonneg =>
      rw [Int64.lt_iff_toInt_lt, Int64.toInt_zero] at hnonneg
      omega

theorem TagNumbers.mono {E E' : Table}
    (h : ∀ (e : Entity) id, NumberedAs E e id → NumberedAs E' e id) {tag : String × String}
    {ids : UInt32 × UInt32} (hids : TagNumbers E tag ids) : TagNumbers E' tag ids :=
  ⟨h _ _ hids.1, h _ _ hids.2⟩

theorem SeriesNumbered.mono {E E' : Table}
    (h : ∀ (e : Entity) id, NumberedAs E e id → NumberedAs E' e id) {series : Series}
    {k : SeriesNumbers} (hk : SeriesNumbered E series k) : SeriesNumbered E' series k :=
  ⟨h _ _ hk.1, hk.2.imp fun _ _ => TagNumbers.mono h⟩

namespace FactTable

variable {t : FactTable} {s s' : Storage} {T : Table} {m : Metric}

theorem of_resolveTag_run_ok (h : t.entities.Ready s) {tag : String × String}
    {ids : UInt32 × UInt32} (hrun : (t.resolveTag tag).run answer s = (.ok ids, s')) :
    t.entities.Ready s' ∧ t.entities.Grows s s' ∧
      TagNumbers (s'.contents t.entities.table) tag ids := by
  simp only [resolveTag, Program.bind_eq, Program.pure_eq] at hrun
  obtain ⟨name, s₁, hname, hrun⟩ := Program.run_bind_ok hrun
  obtain ⟨value, s₂, hvalue, hrun⟩ := Program.run_bind_ok hrun
  cases hrun
  obtain ⟨hready, hgrows, hid⟩ := EntityTable.of_resolve_run_ok h hname
  obtain ⟨hready', hgrows', hid'⟩ := EntityTable.of_resolve_run_ok hready hvalue
  exact ⟨hready', hgrows.trans hgrows', hgrows'.numbers _ _ hid, hid'⟩

theorem of_resolveTags_run_ok (h : t.entities.Ready s) {tags : List (String × String)}
    {ids : List (UInt32 × UInt32)}
    (hrun : (tags.mapM t.resolveTag).run answer s = (.ok ids, s')) :
    t.entities.Ready s' ∧ t.entities.Grows s s' ∧
      List.Forall₂ (TagNumbers (s'.contents t.entities.table)) tags ids := by
  induction tags generalizing s ids with
  | nil =>
      cases hrun
      exact ⟨h, .refl _ _, .nil⟩
  | cons tag tags ih =>
      simp only [List.mapM_cons, Program.bind_eq, Program.pure_eq] at hrun
      obtain ⟨first, s₁, hfirst, hrun⟩ := Program.run_bind_ok hrun
      obtain ⟨rest, s₂, hrest, hrun⟩ := Program.run_bind_ok hrun
      cases hrun
      obtain ⟨hready, hgrows, hids⟩ := of_resolveTag_run_ok h hfirst
      obtain ⟨hready', hgrows', hids'⟩ := ih hready hrest
      exact ⟨hready', hgrows.trans hgrows', .cons (hids.mono hgrows'.numbers) hids'⟩

theorem Laid.add (hlaid : t.Laid T) (row column : Bytes) (delta : Int64) :
    let updated := ((T.cell? row column).map Bytes.toInt64).getD 0 + delta
    T.add row column delta =
      .ok (updated, T.setCell row column (some (Bytes.ofInt64 updated))) := by
  cases hcell : T.cell? row column with
  | none => exact Table.add_none delta hcell
  | some cell =>
      obtain ⟨_, _, old, -, -, -, rfl⟩ := hlaid row column cell hcell
      simpa using Table.add_some delta hcell

def entered (t : FactTable) (m : Metric) (k : SeriesNumbers) (T : Table) : Table :=
  T.setCell (t.rowOf k m.timestamp) (t.columnOf m.timestamp)
    (some (Bytes.ofInt64 (m.applied ((T.cell? (t.rowOf k m.timestamp)
      (t.columnOf m.timestamp)).map Bytes.toInt64))))

theorem Laid.entered (hlaid : t.Laid T) (htime : 0 ≤ m.timestamp.toInt) (k : SeriesNumbers) :
    t.Laid (t.entered m k T) := by
  intro row column cell hcell
  rw [FactTable.entered, Table.cell?_setCell] at hcell
  split at hcell
  · next heq => exact ⟨k, m.timestamp, _, htime, heq.1, heq.2, (Option.some.inj hcell).symm⟩
  · exact hlaid row column cell hcell

theorem of_write_run_ok (hne : t.entities.table ≠ t.table) (h : t.entities.Ready s)
    (hT : s.Holds t.table T) (hlaid : t.Laid T)
    (hrun : (t.write m).run answer s = (.ok (), s')) :
    ∃ k, m.defect? = none ∧ t.entities.Ready s' ∧
      (∀ (e : Entity) id, NumberedAs (s.contents t.entities.table) e id →
        NumberedAs (s'.contents t.entities.table) e id) ∧
      SeriesNumbered (s'.contents t.entities.table) m.series k ∧
      s'.Holds t.table (t.entered m k T) := by
  simp only [write, Program.bind_eq] at hrun
  obtain ⟨_, s₀, hvalid, hrun⟩ := Program.run_bind_ok hrun
  obtain ⟨metric, s₁, hmetric, hrun⟩ := Program.run_bind_ok hrun
  obtain ⟨tags, s₂, htags, hlast⟩ := Program.run_bind_ok hrun
  simp only [Program.run_result, Prod.mk.injEq] at hvalid
  obtain ⟨hvalid, rfl⟩ := hvalid
  have hdefect : m.defect? = none := by
    simp only [Metric.validate] at hvalid
    split at hvalid
    · next hnone => exact hnone
    · cases hvalid
  obtain ⟨hready₁, hgrows₁, hid⟩ := EntityTable.of_resolve_run_ok h hmetric
  obtain ⟨hready₂, hgrows₂, hids⟩ := of_resolveTags_run_ok hready₁ htags
  have hT₂ := hgrows₂.others _ _ hne.symm (hgrows₁.others _ _ hne.symm hT)
  let k : SeriesNumbers := ⟨metric, tags⟩
  have hend : s' = s₂.update t.table (t.entered m k T) := by
    cases hkind : m.kind with
    | counter =>
        simp only [hkind] at hlast
        have hincrement := (run_increment hT₂
          (hlaid.add (t.rowOf k m.timestamp) (t.columnOf m.timestamp) m.value)).symm.trans hlast
        simp only [Prod.mk.injEq, true_and] at hincrement
        rw [← hincrement, entered, Metric.applied, hkind]
    | gauge =>
        simp only [hkind] at hlast
        have hput := (run_put hT₂ (t.rowOf k m.timestamp) (t.columnOf m.timestamp)
          (Bytes.ofInt64 m.value)).symm.trans hlast
        simp only [Prod.mk.injEq, true_and] at hput
        rw [← hput, entered, Metric.applied, hkind]
  have hcontents : s'.contents t.entities.table = s₂.contents t.entities.table := by
    rw [hend, contents_update, if_neg hne]
  refine ⟨k, hdefect, ?_, ?_, ?_, ?_⟩
  · rw [hend]
    exact hready₂.update hne _
  · rw [hcontents]
    exact (hgrows₁.trans hgrows₂).numbers
  · rw [hcontents]
    exact ⟨hgrows₂.numbers _ _ hid, hids⟩
  · rw [hend]
    exact hT₂.update_self _

end FactTable

end Rollup
