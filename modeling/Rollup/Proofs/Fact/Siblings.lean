import Rollup.Proofs.Fact.Migration
import Rollup.Proofs.Fact.Upkeep

namespace Rollup

open Storage Entity EntityTable

def MetricTable.members : MetricTable → List FactTable
  | direct current => [current]
  | bridged legacy current => [legacy, current]

theorem mem_written_of_mem {changes : List Change} {m : Metric} (h : .write m ∈ changes) :
    m.series ∈ written changes := by
  rw [written, List.mem_dedup, List.mem_filterMap]
  exact ⟨.write m, h, rfl⟩

theorem MetricTable.current_mem_members (view : MetricTable) : view.current ∈ view.members := by
  cases view <;> simp [members, current]

namespace FactTable

variable {t : FactTable} {entities : EntityTable} {ts : List FactTable} {view : MetricTable}
  {tables tables' : TableId → Table} {changes changes' : List Change} {u : Unsteady} {s : Storage}
  {series : Series} {start : Int} {value value' : Int64}

/-- Every cell of the table is a value of a series that was to be written, under its numbers. -/
def Owned (t : FactTable) (changes : List Change) (tables : TableId → Table) : Prop :=
  ∀ row column cell, (tables t.table).cell? row column = some cell → ∃ m k time value,
    .write m ∈ changes ∧ SeriesNumbered (tables t.entities.table) m.series k ∧
      0 ≤ time.toInt ∧ row = t.rowOf k time ∧ column = t.columnOf time ∧
      cell = Bytes.ofInt64 value

theorem Owned.laid (h : t.Owned changes tables) : t.Laid (tables t.table) := by
  intro row column cell hcell
  obtain ⟨m, k, time, value, -, -, hrest⟩ := h row column cell hcell
  exact ⟨k, time, value, hrest⟩

theorem Owned.mono (h : t.Owned changes tables) (hchanges : changes ⊆ changes')
    (hcells : ∀ row column cell, (tables' t.table).cell? row column = some cell →
      (tables t.table).cell? row column = some cell)
    (hnumbers : ∀ (e : Entity) id, NumberedAs (tables t.entities.table) e id →
      NumberedAs (tables' t.entities.table) e id) : t.Owned changes' tables' := by
  intro row column cell hcell
  obtain ⟨m, k, time, value, hm, hk, hrest⟩ := h row column cell (hcells row column cell hcell)
  exact ⟨m, k, time, value, hchanges hm, hk.mono hnumbers, hrest⟩

/-- Tables that have nothing in common but the numbers of one entity table. -/
structure Siblings (entities : EntityTable) (ts : List FactTable) : Prop where
  rolled : ∀ t ∈ ts, t.Rolled
  sharing : ∀ t ∈ ts, t.entities = entities
  apart : ∀ t ∈ ts, entities.table ≠ t.table
  distinct : ∀ t ∈ ts, ∀ t' ∈ ts, t'.table = t.table → t' = t

/-- The tables are in reach, and so is the numbering, which is in order as far as it has been
asked; every cell has its series. -/
structure Held (entities : EntityTable) (ts : List FactTable) (changes : List Change)
    (s : Storage) : Prop where
  numbering : ∃ T, s.Holds entities.table T
  reach : ∀ t ∈ ts, ∃ T, s.Holds t.table T
  upkept : Upkept entities.table (changes.flatMap Change.strings).length s
  owned : ∀ t ∈ ts, t.Owned changes s.contents

namespace Held

theorem append (h : Held entities ts changes s) (more : List Change) :
    Held entities ts (changes ++ more) s := by
  refine ⟨h.numbering, h.reach, h.upkept.mono ?_, fun t ht => ?_⟩
  · rw [List.flatMap_append, List.length_append]
    exact Nat.le_add_right ..
  · exact (h.owned t ht).mono (List.subset_append_left ..) (fun _ _ _ h => h) fun _ _ h => h

theorem write (hts : Siblings entities ts) (ht : t ∈ ts)
    (h : Held entities ts changes u.storage) (m : Metric) :
    Held entities ts (changes ++ [.write m]) ((t.write m).run Unsteady.answer u).2.storage := by
  obtain rfl := hts.sharing t ht
  refine ⟨Unsteady.exists_holds_run _ h.numbering,
    fun t' ht' => Unsteady.exists_holds_run _ (h.reach t' ht'), ?_, fun t' ht' => ?_⟩
  · rw [List.flatMap_append, List.flatMap_singleton, List.length_append]
    exact write_upkept (hts.apart t ht) m _ u h.upkept
  have hnumbers : ∀ (e : Entity) id, NumberedAs (u.storage.contents t'.entities.table) e id →
      NumberedAs (((t.write m).run Unsteady.answer u).2.storage.contents t'.entities.table)
        e id := by
    rw [hts.sharing t' ht']
    exact fun e id hid => t.write_numberedAs m hid
  have hapart := (hts.apart t' ht').symm
  rcases t.write_run_cases m u with ⟨e, v, hrun, hsame⟩ | ⟨k, v, hrun, hsame, hk⟩ <;>
    rw [hrun] at hnumbers ⊢
  · refine (h.owned t' ht').mono (List.subset_append_left ..) (fun row column cell hcell => ?_)
      hnumbers
    rwa [hsame.eq_of_ne hapart] at hcell
  -- the cell that was set has the numbers of the series just written, the others are as before
  · intro row column cell hcell
    rw [hsame.eq_of_ne hapart, cell?_enteredInto] at hcell
    split at hcell
    · next heq =>
      obtain rfl := hts.distinct t ht t' ht' heq.1
      exact ⟨m, k, m.timestamp, _, by simp, (hk h.upkept.remembers).2,
        Metric.timestamp_nonneg (defect?_of_write_ok hrun), heq.2.1, heq.2.2,
        (Option.some.inj hcell).symm⟩
    · obtain ⟨m', k', time, value, hm, hk', hrest⟩ := h.owned t' ht' row column cell hcell
      exact ⟨m', k', time, value, List.mem_append_left _ hm, hk'.mono hnumbers, hrest⟩

theorem writeAll (hts : Siblings entities ts) (ht : t ∈ ts) (ms : List Metric)
    (h : Held entities ts changes u.storage) :
    Held entities ts (changes ++ ms.map .write)
      ((t.writeAll ms).run Unsteady.answer u).2.storage := by
  induction ms generalizing changes u with
  | nil => exact h.append []
  | cons m ms ih =>
      have hfirst := h.write hts ht m
      have hassoc : changes ++ (m :: ms).map .write =
          (changes ++ [.write m]) ++ ms.map .write := by
        rw [List.append_assoc]
        rfl
      rw [FactTable.writeAll, Program.bind_eq, Program.run_bind, hassoc]
      split
      · next _ v hrun =>
        rw [hrun] at hfirst
        exact ih hfirst
      · next e v hrun =>
        rw [hrun] at hfirst
        exact hfirst.append _

theorem deleteBefore (hts : Siblings entities ts) (ht : t ∈ ts)
    (h : Held entities ts changes u.storage) (cutoff : Int64) :
    Held entities ts changes ((t.deleteBefore cutoff).run Unsteady.answer u).2.storage := by
  obtain rfl := hts.sharing t ht
  obtain ⟨hfades, hothers⟩ :=
    deleteBefore_fades (hts.rolled t ht) cutoff (h.owned t ht).laid
  refine ⟨Unsteady.exists_holds_run _ h.numbering,
    fun t' ht' => Unsteady.exists_holds_run _ (h.reach t' ht'),
    deleteBefore_upkept (hts.rolled t ht) (hts.apart t ht) cutoff _ u h.upkept,
    fun t' ht' => (h.owned t' ht').mono (List.Subset.refl _) (fun row column cell hcell => ?_) ?_⟩
  · by_cases heq : t'.table = t.table
    · obtain rfl := hts.distinct t ht t' ht' heq
      rcases hfades row column with hkept | ⟨hgone, -⟩
      · rwa [hkept] at hcell
      · rw [hgone] at hcell
        cases hcell
    · rwa [hothers _ heq] at hcell
  · rw [hts.sharing t' ht', hothers _ (hts.apart t ht)]
    exact fun _ _ hid => hid

theorem expire (hts : Siblings entities ts) (hview : view.members ⊆ ts)
    (h : Held entities ts changes u.storage) (cutoff : Int64) :
    Held entities ts changes ((view.deleteBefore cutoff).run Unsteady.answer u).2.storage := by
  cases view with
  | direct t => exact h.deleteBefore hts (hview (List.mem_singleton_self t)) cutoff
  | bridged legacy current =>
      obtain ⟨hlegacy, hcurrent⟩ := List.cons_subset.mp hview
      have hfirst := h.deleteBefore hts hlegacy cutoff
      rw [MetricTable.deleteBefore, Program.bind_eq, Program.run_bind]
      split
      · next old v hrun =>
        rw [hrun] at hfirst
        simp only [Program.bind_eq, Program.pure_eq, Program.run_bind_pure]
        exact hfirst.deleteBefore hts (hcurrent (List.mem_singleton_self current)) cutoff
      · next e v hrun => rwa [hrun] at hfirst

theorem perform (hts : Siblings entities ts) (hview : view.members ⊆ ts)
    (h : Held entities ts changes u.storage) (change : Change) :
    Held entities ts (changes ++ [change])
      ((view.perform change).run Unsteady.answer u).2.storage := by
  cases change with
  | write m => exact h.write hts (hview view.current_mem_members) m
  | expire cutoff =>
      simp only [MetricTable.perform, Program.bind_eq, Program.pure_eq, Program.run_bind_pure]
      exact (h.expire hts hview cutoff).append _

theorem query (hts : Siblings entities ts) (hview : view.members ⊆ ts)
    (h : Held entities ts changes u.storage) (filter : Tags) (metric : String)
    (range : TimeRange) :
    Held entities ts changes
      ((view.query filter metric range).run Unsteady.answer u).2.storage := by
  have hidle : ∀ t ∈ ts, (idle entities.table (changes.flatMap Change.strings).length
      u.storage.contents).Spends 0 (t.seriesPoints filter metric range) := fun t ht =>
    hts.sharing t ht ▸ t.seriesPoints_idle _ _ filter metric range
  have hpoints : (idle entities.table (changes.flatMap Change.strings).length
      u.storage.contents).Spends 0 (view.seriesPoints filter metric range) := by
    cases view with
    | direct t => exact hidle t (hview (List.mem_singleton_self t))
    | bridged legacy current =>
        obtain ⟨hlegacy, hcurrent⟩ := List.cons_subset.mp hview
        exact (hidle legacy hlegacy).bind_free fun _ =>
          (hidle current (hcurrent (List.mem_singleton_self current))).bind_free fun _ =>
            .result _
  have hquery : (idle entities.table (changes.flatMap Change.strings).length
      u.storage.contents).Spends 0 (view.query filter metric range) :=
    hpoints.bind_free fun _ => .result _
  obtain ⟨hsame, hupkept⟩ := hquery 0 u ⟨rfl, h.upkept⟩
  refine ⟨Unsteady.exists_holds_run _ h.numbering,
    fun t ht => Unsteady.exists_holds_run _ (h.reach t ht), hupkept, ?_⟩
  rw [hsame]
  exact h.owned

end Held

/-- The value of a series in the bucket that starts at a time stands in its cell. -/
def Stores (t : FactTable) (s : Storage) (series : Series) (start : Int) (value : Int64) : Prop :=
  ∃ k time, SeriesNumbered (s.contents t.entities.table) series k ∧ 0 ≤ time.toInt ∧
    start = t.resolution.bucketStart time.toInt ∧
    (s.contents t.table).cell? (t.rowOf k time) (t.columnOf time) = some (Bytes.ofInt64 value)

theorem Stores.cell (ht : t.Rolled) (h : t.Stores s series start value) {k : SeriesNumbers}
    {time : Int64} (hk : SeriesNumbered (s.contents t.entities.table) series k)
    (htime : 0 ≤ time.toInt) (hstart : start = t.resolution.bucketStart time.toInt) :
    (s.contents t.table).cell? (t.rowOf k time) (t.columnOf time) =
      some (Bytes.ofInt64 value) := by
  obtain ⟨k', time', hk', htime', hstart', hcell⟩ := h
  obtain rfl := hk.unique hk'
  obtain ⟨hrow, hcolumn⟩ := (cell_eq_iff ht htime htime').mpr ⟨rfl, hstart.symm.trans hstart'⟩
  rw [hrow, hcolumn, hcell]

theorem Stores.unique (ht : t.Rolled) (h : t.Stores s series start value)
    (h' : t.Stores s series start value') : value = value' := by
  obtain ⟨k, time, hk, htime, hstart, hcell⟩ := h
  exact ofInt64_injective (Option.some.inj (hcell.symm.trans (h'.cell ht hk htime hstart)))

theorem exists_ledger (ht : t.Rolled) (s : Storage) :
    ∃ L : Ledger, ∀ series start value,
      L series start = some value ↔ t.Stores s series start value := by
  classical
  refine ⟨fun series start =>
    if h : ∃ value, t.Stores s series start value then some h.choose else none, ?_⟩
  intro series start value
  dsimp only
  constructor
  · intro h
    split at h
    · next hex =>
      cases h
      exact hex.choose_spec
    · cases h
  · intro h
    have hex : ∃ value, t.Stores s series start value := ⟨value, h⟩
    rw [dif_pos hex, hex.choose_spec.unique ht h]

namespace Held

variable {L : Ledger}

theorem mirrors (hts : Siblings entities ts) (ht : t ∈ ts) (h : Held entities ts changes s)
    (hbound : (changes.flatMap Change.strings).length < 2 ^ 63)
    (hL : ∀ series start value, L series start = some value ↔ t.Stores s series start value) :
    ∃ T, t.Mirrors s T L := by
  obtain rfl := hts.sharing t ht
  obtain ⟨T, hT⟩ := h.reach t ht
  obtain ⟨E, hE⟩ := h.numbering
  obtain ⟨count, hnumbered, -⟩ := h.upkept.numbered hbound
  have howned := h.owned t ht
  refine ⟨T, ⟨⟨E, count, hE, hE.contents_eq ▸ hnumbered⟩, h.upkept.remembers _⟩, hT, ?_, ?_, ?_⟩
  · intro row column cell hcell
    obtain ⟨m, k, time, value, -, hrest⟩ := howned row column cell (hT.contents_eq.symm ▸ hcell)
    exact ⟨m.series, k, time, value, hrest⟩
  · intro series k time hk htime
    refine Option.ext fun value => ?_
    rw [hL, Option.map_eq_some_iff]
    constructor
    · rintro ⟨cell, hcell, rfl⟩
      rw [← hT.contents_eq] at hcell
      obtain ⟨_, _, _, value, -, -, -, -, -, rfl⟩ := howned _ _ cell hcell
      exact ⟨k, time, hk, htime, rfl, by rwa [Bytes.toInt64_ofInt64]⟩
    · intro hvalue
      refine ⟨_, ?_, Bytes.toInt64_ofInt64 value⟩
      rw [← hT.contents_eq, hvalue.cell (hts.rolled t ht) hk htime rfl]
  · intro series start value hvalue
    obtain ⟨k, time, hk, htime, hstart, -⟩ := (hL series start value).mp hvalue
    exact ⟨⟨k, hk⟩, time, htime, hstart⟩

theorem mem_written (hts : Siblings entities ts) (ht : t ∈ ts) (h : Held entities ts changes s)
    (hbound : (changes.flatMap Change.strings).length < 2 ^ 63)
    (hvalue : t.Stores s series start value) : series ∈ written changes := by
  obtain ⟨k, time, hk, htime, -, hcell⟩ := hvalue
  obtain ⟨count, hnumbered, -⟩ := h.upkept.numbered hbound
  obtain ⟨m, k', time', _, hm, hk', htime', hrow, hcolumn, -⟩ := h.owned t ht _ _ _ hcell
  obtain ⟨rfl, -⟩ := (cell_eq_iff (hts.rolled t ht) htime htime').mp ⟨hrow, hcolumn⟩
  rw [hts.sharing t ht] at hk hk'
  obtain rfl := SeriesNumbered.injective hnumbered hk hk'
  exact mem_written_of_mem hm

end Held

end FactTable

end Rollup
