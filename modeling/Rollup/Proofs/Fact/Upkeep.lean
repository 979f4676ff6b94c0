import Rollup.Proofs.Entity.Upkeep
import Rollup.Proofs.Fact.Attempts
import Rollup.Proofs.Fact.Fading

namespace Rollup

open Storage Entity EntityTable

namespace FactTable

variable {t : FactTable} {n : Nat} {table : TableId} {tables : TableId → Table} {u : Unsteady}

theorem numbers_spends (t : FactTable) (series : Series) :
    (Upkept.budget t.entities.table).Spends series.strings.length (t.numbers series) := by
  have htag : ∀ tag, (Upkept.budget t.entities.table).Spends 2 (t.resolveTag tag) :=
    fun _ => .bind (Upkept.resolve t.entities _) fun _ =>
      .bind_free (Upkept.resolve t.entities _) fun _ => .result _
  have hlength : series.strings.length =
      1 + (series.tags.entries.map fun _ => 2).sum := by
    rw [Series.strings, List.length_cons, List.length_flatMap, Nat.add_comm]
    rfl
  rw [hlength]
  exact .bind (Upkept.resolve t.entities _) fun _ =>
    .bind_free (.mapM htag _) fun _ => .result _

theorem write_upkept (hne : t.entities.table ≠ t.table) (m : Metric) :
    (Upkept.budget t.entities.table).Spends m.series.strings.length (t.write m) := by
  have henter : ∀ k, (Upkept.budget t.entities.table).Spends 0 (t.enter m k) := by
    intro k n u h
    rw [enter, Program.run_call, Program.run_result]
    exact Upkept.answer h hne _
  have hwrite : (Upkept.budget t.entities.table).Spends (0 + m.series.strings.length)
      (t.write m) := by
    rw [write_eq]
    exact .bind (.result _) fun _ => (t.numbers_spends m.series).bind_free henter
  rwa [Nat.zero_add] at hwrite

theorem deleteBefore_upkept (ht : t.Rolled) (htable : table ≠ t.table) (cutoff : Int64) :
    (Upkept.budget table).Spends 0 (t.deleteBefore cutoff) := by
  intro n u h
  refine ((deleteBefore_confined ht cutoff).run (fun q v hq (hv : Upkept table n v.storage) =>
    ⟨?_, fun _ => Unsteady.scansInRange_answer q⟩) h).1
  obtain ⟨op, rfl, -⟩ := hq
  exact hv.answer htable op

theorem lookupTags_reads (t : FactTable) (filter : List (String × String)) :
    (t.lookupTags filter).Only Unsteady.Reads := by
  induction filter with
  | nil => exact Program.only_result _
  | cons tag filter ih =>
      have htag : (t.lookupTag tag).Only Unsteady.Reads := by
        refine Program.only_bind (t.entities.lookup_reads _) fun name =>
          Program.only_bind (t.entities.lookup_reads _) fun value => ?_
        cases name <;> cases value <;> exact Program.only_result _
      rw [lookupTags_cons]
      refine Program.only_bind htag fun found => ?_
      cases found with
      | none => exact Program.only_result _
      | some ids => exact Program.only_bind ih fun _ => Program.only_result _

def idle (table : TableId) (n : Nat) (tables : TableId → Table) : Budget where
  Holds _ u := u.storage.contents = tables ∧ Upkept table n u.storage
  mono _ h := h

theorem lookup_idle (entities : EntityTable) (n : Nat) (tables : TableId → Table) (e : Entity) :
    (idle entities.table n tables).Spends 0 (entities.lookup e) := by
  intro _ u ⟨hsame, h⟩
  obtain ⟨hcontents, h'⟩ := h.lookup e
  exact ⟨hcontents.trans hsame, h'⟩

theorem lookupTags_idle (t : FactTable) (n : Nat) (tables : TableId → Table)
    (filter : List (String × String)) :
    (idle t.entities.table n tables).Spends 0 (t.lookupTags filter) := by
  induction filter with
  | nil => exact .result _
  | cons tag filter ih =>
      have htag : (idle t.entities.table n tables).Spends 0 (t.lookupTag tag) := by
        refine .bind_free (lookup_idle t.entities n tables _) fun name =>
          .bind_free (lookup_idle t.entities n tables _) fun value => ?_
        cases name <;> cases value <;> exact .result _
      rw [lookupTags_cons]
      refine htag.bind_free fun found => ?_
      cases found with
      | none => exact .result _
      | some ids => exact ih.bind_free fun _ => .result _

theorem scanAll_idle (t : FactTable) (table : TableId) (n : Nat) (tables : TableId → Table)
    (ranges : List KeyRange) : (idle table n tables).Spends 0 (t.scanAll ranges) := by
  have hscan : ∀ range, (idle table n tables).Spends 0 (scan t.table range) := by
    intro range _ u ⟨hsame, h⟩
    have hreads : (scan t.table range).Only Unsteady.Reads := Program.only_request trivial
    have hcontents := Unsteady.contents_run hreads u
    refine ⟨hcontents.trans hsame, h.congr ?_ (congrFun hcontents table)⟩
    exact h.remembers.answer_table fun e id hid => (congrFun hcontents table).symm ▸ hid
  have hscans := Budget.Spends.mapM hscan ranges
  have hnothing : (ranges.map fun _ => 0).sum = 0 := by simp
  rw [hnothing] at hscans
  exact hscans.bind_free fun _ => .result _

theorem seriesPoints_idle (t : FactTable) (n : Nat) (tables : TableId → Table) (filter : Tags)
    (metric : String) (range : TimeRange) :
    (idle t.entities.table n tables).Spends 0 (t.seriesPoints filter metric range) := by
  refine .bind_free (lookup_idle t.entities n tables _) fun id? => ?_
  cases id? with
  | none => exact .result _
  | some id =>
      refine (t.lookupTags_idle n tables filter.entries).bind_free fun wanted? => ?_
      cases wanted? with
      | none => exact .result _
      | some wanted =>
          dsimp only
          cases t.rowsOf range with
          | none => exact .result _
          | some rows => exact (t.scanAll_idle _ n tables _).bind_free fun _ => .result _

end FactTable

end Rollup
