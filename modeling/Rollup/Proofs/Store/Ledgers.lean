import Rollup.Proofs.Fact.Agreement
import Rollup.Proofs.Fact.History
import Rollup.Proofs.Opening
import Rollup.Proofs.Storage.Column

namespace Rollup

open Storage Entity

namespace MetricStore

theorem validateAll_eq {ms : List Metric} (h : ∀ m ∈ ms, m.defect? = none) :
    validateAll ms = .ok () := by
  induction ms with
  | nil => rfl
  | cons m ms ih =>
      obtain ⟨hm, hms⟩ := List.forall_mem_cons.mp h
      simp only [validateAll, Metric.validate_eq hm, ih hms]
      rfl

theorem validateAll_eq_error {ms : List Metric} (h : ¬ ∀ m ∈ ms, m.defect? = none) :
    ∃ m ∈ ms, ∃ defect, m.defect? = some defect ∧
      validateAll ms = .error (.invalidMetric defect.message) := by
  induction ms with
  | nil => exact absurd (by simp) h
  | cons m ms ih =>
      cases hm : m.defect? with
      | some defect =>
          refine ⟨m, List.mem_cons_self .., defect, hm, ?_⟩
          simp only [validateAll, Metric.validate, hm]
          rfl
      | none =>
          have hms : ¬ ∀ m ∈ ms, m.defect? = none :=
            fun hms => h (List.forall_mem_cons.mpr ⟨hm, hms⟩)
          obtain ⟨m', hm', defect, hdefect, heq⟩ := ih hms
          refine ⟨m', List.mem_cons_of_mem _ hm', defect, hdefect, ?_⟩
          simp only [validateAll, Metric.validate_eq hm, heq]
          rfl

def Asks (store : MetricStore) (ms : List Metric) (q : Storage.Request) : Prop :=
  ∃ r, ∃ m ∈ ms, (store.table r).current.Asks m q

theorem writeAll_only (store : MetricStore) (ms : List Metric) (r : Resolution) :
    ((store.table r).writeAll ms).Only (store.Asks ms) := by
  suffices h : ∀ ms', ms' ⊆ ms →
      ((store.table r).current.writeAll ms').Only (store.Asks ms) from h ms fun _ hm => hm
  intro ms' hms
  induction ms' with
  | nil => exact Program.only_result _
  | cons m ms' ih =>
      obtain ⟨hm, hms⟩ := List.cons_subset.mp hms
      exact Program.only_bind
        (Program.only_mono (fun q hq => ⟨r, m, hm, hq⟩) (FactTable.write_only _ m)) fun _ => ih hms

theorem addAll_only (store : MetricStore) (ms : List Metric) :
    (store.addAll ms).Only (store.Asks ms) := by
  have hall : ∀ rs, (store.writeAllTo ms rs).Only (store.Asks ms) := by
    intro rs
    induction rs with
    | nil => exact Program.only_result _
    | cons r rs ih => exact Program.only_bind (store.writeAll_only ms r) fun _ => ih
  exact Program.only_bind (Program.only_result _) fun _ => hall _

end MetricStore

namespace Datasets

variable {d : Datasets} {s s' : Storage} {store : MetricStore} {r : Resolution}
  {L : Resolution → Ledger} {ms : List Metric} {strings : List Entity}

def EntitiesApart (d : Datasets) : Prop := ∀ r, d.entityTable.table ≠ (d.currentTable r).table

theorem rolled_currentTable (d : Datasets) (r : Resolution) : (d.currentTable r).Rolled :=
  ⟨Place.roll_pos .., Place.roll_le ..⟩

theorem currentTable_ne {r r' : Resolution} (h : r ≠ r') :
    (d.currentTable r).table ≠ (d.currentTable r').table := by
  intro heq
  simp only [currentTable, FactTable.current, TableId.system, TableId.mk.injEq, true_and] at heq
  exact h (Resolution.tableName_injective heq).1

/-- The current table of every resolution holds what its ledger says. -/
def Keeps (d : Datasets) (s : Storage) (L : Resolution → Ledger) : Prop :=
  ∀ r, ∃ T, (d.currentTable r).Reflects s T (L r)

namespace Keeps

theorem ready (h : d.Keeps s L) : d.entityTable.Ready s :=
  (h .second).elim fun _ hr => hr.ready

theorem fresh (hentities : d.entityTable.Ready s)
    (hempty : ∀ r, s.Holds (d.currentTable r).table .empty) : d.Keeps s fun _ _ _ => none :=
  fun r => ⟨.empty, .fresh hentities (hempty r)⟩

theorem of_catalog_eq (hcatalog : s'.catalog = s.catalog) (hready : d.entityTable.Ready s')
    (h : d.Keeps s L) : d.Keeps s' L := by
  intro r
  obtain ⟨T, hr⟩ := h r
  refine ⟨T, hr.mono (d.rolled_currentTable r) hready ?_ fun _ _ hid => ?_⟩
  · rw [Holds, hcatalog]
    exact hr.holds
  · rw [contents, hcatalog]
    exact hid

theorem of_sameBut {id : TableId} {column : Bytes} (h : d.Keeps s L)
    (halike : s.SameBut id column s') (hentities : d.entityTable.table ≠ id)
    (htables : ∀ r, (d.currentTable r).table ≠ id) : d.Keeps s' L := by
  have hcontents := halike.contents_eq hentities
  have hnumbers : ∀ e number, NumberedAs (s.contents d.entityTable.table) e number →
      NumberedAs (s'.contents d.entityTable.table) e number := by
    intro e number hnumber
    rwa [hcontents]
  have hready : d.entityTable.Ready s' := by
    obtain ⟨E, count, hE, hnumbered, hcount⟩ := h.ready.table
    refine ⟨⟨E, count, halike.holds hentities hE, hnumbered, hcount⟩, fun e number hmemory => ?_⟩
    rw [memory, halike.caches] at hmemory
    exact hnumbers e number (h.ready.memory e number hmemory)
  intro r
  obtain ⟨T, hr⟩ := h r
  exact ⟨T, hr.mono (d.rolled_currentTable r) hready (halike.holds (htables r) hr.holds) hnumbers⟩

theorem changed (hnames : d.EntitiesApart) (h : d.Keeps s L) {T : Table} {L' : Ledger}
    (hr : (d.currentTable r).Reflects s' T L') (hadvances : (d.currentTable r).Advances s s') :
    d.Keeps s' (Function.update L r L') := by
  intro r'
  by_cases heq : r' = r
  · subst heq
    rw [Function.update_self]
    exact ⟨T, hr⟩
  · obtain ⟨T', hr'⟩ := h r'
    rw [Function.update_of_ne heq]
    exact ⟨T', hr'.beside (d.rolled_currentTable r') hadvances hr.ready rfl
      (currentTable_ne heq) (hnames r')⟩

theorem performAll (hnames : d.EntitiesApart) (h : d.Keeps s L) {changes : List Change}
    (hrun : ((d.currentTable r).performAll changes).run answer s = (.ok (), s')) :
    d.Keeps s' (Function.update L r (changes.foldl (Ledger.apply r) (L r))) := by
  induction changes generalizing s L with
  | nil =>
      cases hrun
      rwa [List.foldl_nil, Function.update_eq_self]
  | cons change changes ih =>
      obtain ⟨_, s₁, hfirst, hrest⟩ := Program.run_bind_ok hrun
      obtain ⟨T, hr⟩ := h r
      obtain ⟨⟨T₁, hr₁⟩, hadvances⟩ := hr.performed (d.rolled_currentTable r) (hnames r) hfirst
      have hall := ih (h.changed hnames hr₁ hadvances) hrest
      rwa [Function.update_self, Function.update_idem] at hall

theorem deleteBefore (hnames : d.EntitiesApart) (h : d.Keeps s L) {cutoff : Int64} {n : Nat}
    (hrun : ((d.currentTable r).deleteBefore cutoff).run answer s = (.ok n, s')) :
    d.Keeps s' (Function.update L r ((L r).apply r (.expire cutoff))) := by
  have hchange : ((d.currentTable r).perform (.expire cutoff)).run answer s = (.ok (), s') := by
    simp only [FactTable.perform, Program.bind_eq]
    rw [Program.run_bind_of_ok hrun]
    rfl
  obtain ⟨T, hr⟩ := h r
  obtain ⟨⟨T', hr'⟩, hadvances⟩ := hr.performed (d.rolled_currentTable r) (hnames r) hchange
  exact h.changed hnames hr' hadvances

theorem query (h : d.Keeps s L) (r : Resolution) (filter : Tags) (metric : String)
    (range : TimeRange) :
    ∃ points s', ((d.currentTable r).query filter metric range).run answer s = (.ok points, s') ∧
      s'.catalog = s.catalog ∧ d.Keeps s' L := by
  obtain ⟨T, hr⟩ := h r
  obtain ⟨points, s', hrun, hcatalog, hready, -⟩ :=
    hr.seriesPoints_shows (d.rolled_currentTable r) filter metric range
  refine ⟨points.sum, s', ?_, hcatalog, h.of_catalog_eq hcatalog hready⟩
  simp only [FactTable.query, Program.bind_eq]
  rw [Program.run_bind_of_ok hrun]
  rfl

section Batches

variable (hnames : d.EntitiesApart) (hcurrent : ∀ r, (store.table r).current = d.currentTable r)
include hnames hcurrent

theorem writeAllTo {rs : List Resolution} (hrs : rs.Nodup) (h : d.Keeps s L)
    (hrun : (store.writeAllTo ms rs).run answer s = (.ok (), s')) :
    d.Keeps s' fun r =>
      if r ∈ rs then (ms.map .write).foldl (Ledger.apply r) (L r) else L r := by
  induction rs generalizing s L with
  | nil =>
      cases hrun
      exact h
  | cons r rs ih =>
      obtain ⟨hr, hrs⟩ := List.nodup_cons.mp hrs
      obtain ⟨_, s₁, hfirst, hrest⟩ := Program.run_bind_ok hrun
      rw [MetricTable.writeAll, hcurrent, FactTable.writeAll_eq_performAll] at hfirst
      have hall := ih hrs (h.performAll hnames hfirst) hrest
      -- the rest of the list does not hold the resolution that was written first
      refine fun r' => ?_
      have hr' := hall r'
      by_cases heq : r' = r
      · subst heq
        simpa [hr] using hr'
      · simpa [heq] using hr'

theorem addAll (h : d.Keeps s L) (hrun : (store.addAll ms).run answer s = (.ok (), s')) :
    d.Keeps s' fun r => (ms.map .write).foldl (Ledger.apply r) (L r) := by
  obtain ⟨_, s₁, hvalid, hrest⟩ := Program.run_bind_ok hrun
  obtain rfl : s = s₁ := congrArg Prod.snd hvalid
  intro r
  have hr := h.writeAllTo hnames hcurrent (by decide) hrest r
  simpa only [Resolution.mem_all r, if_true] using hr

theorem writes {batches : List (List Metric)} (h : d.Keeps s L)
    (hrun : (forM batches store.addAll).run answer s = (.ok (), s')) :
    d.Keeps s' fun r => (batches.flatten.map .write).foldl (Ledger.apply r) (L r) := by
  induction batches generalizing s L with
  | nil =>
      cases hrun
      exact h
  | cons ms batches ih =>
      rw [List.forM_cons] at hrun
      obtain ⟨_, s₁, hfirst, hrest⟩ := Program.run_bind_ok hrun
      have hall := ih (h.addAll hnames hcurrent hfirst) hrest
      simpa only [List.flatten_cons, List.map_append, List.foldl_append] using hall

theorem writeAllTo_run (h : d.Keeps s L) (hroom : d.entityTable.Room strings s)
    (hvalid : ∀ m ∈ ms, m.defect? = none) (hstrings : ∀ m ∈ ms, m.series.strings ⊆ strings)
    (rs : List Resolution) :
    ∃ s', (store.writeAllTo ms rs).run answer s = (.ok (), s') := by
  induction rs generalizing s L with
  | nil => exact ⟨s, rfl⟩
  | cons r rs ih =>
      obtain ⟨T, hr⟩ := h r
      have hchanges : ∀ change ∈ ms.map Change.write, change.Valid ∧
          change.strings ⊆ strings :=
        List.forall_mem_map.mpr fun m hm => ⟨hvalid m hm, hstrings m hm⟩
      obtain ⟨s₁, T₁, hfirst, -, hroom₁, -⟩ := hr.performAll_run (d.rolled_currentTable r)
        (hnames r) hroom (fun change h => (hchanges change h).1) fun change h =>
          (hchanges change h).2
      obtain ⟨s₂, hrest⟩ := ih (h.performAll hnames hfirst) hroom₁
      refine ⟨s₂, ?_⟩
      rw [← FactTable.writeAll_eq_performAll] at hfirst
      simp only [MetricStore.writeAllTo, MetricTable.writeAll, hcurrent, Program.bind_eq]
      rw [Program.run_bind_of_ok hfirst, hrest]

theorem addAll_run (h : d.Keeps s L) (hroom : d.entityTable.Room strings s)
    (hvalid : ∀ m ∈ ms, m.defect? = none) (hstrings : ∀ m ∈ ms, m.series.strings ⊆ strings) :
    ∃ s', (store.addAll ms).run answer s = (.ok (), s') := by
  obtain ⟨s', hrun⟩ :=
    h.writeAllTo_run hnames hcurrent hroom hvalid hstrings Resolution.all
  refine ⟨s', ?_⟩
  have hcheck : (Program.result (I := interface) (MetricStore.validateAll ms)).run answer s =
      (.ok (), s) := by
    rw [MetricStore.validateAll_eq hvalid]
    rfl
  simp only [MetricStore.addAll, Program.bind_eq]
  rw [Program.run_bind_of_ok hcheck, hrun]

end Batches

end Keeps

end Datasets

namespace MetricStore

def newStorage : Storage := { catalog := ((Datasets.usual {}).openStore {}).2.2 }

theorem keeps_newStorage : (Datasets.usual {}).Keeps newStorage fun _ _ _ => none := by
  have hempty : ∀ r, newStorage.Holds ((Datasets.usual {}).currentTable r).table .empty :=
    fun r => holds_of_blank (by cases r <;> decide +kernel)
  refine .fresh ?_ hempty
  exact (FactTable.Reflects.empty (t := (Datasets.usual {}).currentTable .second)
    (holds_of_blank (by decide +kernel)) (hempty .second) fun _ => rfl).ready

end MetricStore

end Rollup
