import Rollup.Proofs.Entity.Cache
import Rollup.Proofs.Fact.Steps

namespace Rollup

open Storage Entity

namespace EntityTable

variable {t : EntityTable} {tables tables' tables'' : TableId → Table} {q : Storage.Request}
  {α : Type} {p : Work α} {e : Entity} {id : UInt32} {u u' : Unsteady}

/-- Strings are numbered in the cells of a column of a table. -/
def Occupies (t : EntityTable) (id : TableId) (column : Bytes) : Prop :=
  id = t.table ∧ column ∈ Entity.columns

/-- The tables differ in no cell but those in which strings are numbered. -/
def SameBeside (t : EntityTable) (tables tables' : TableId → Table) : Prop :=
  ∀ id row column, ¬ t.Occupies id column →
    (tables' id).cell? row column = (tables id).cell? row column

theorem SameBeside.refl (t : EntityTable) (tables : TableId → Table) :
    t.SameBeside tables tables := fun _ _ _ _ => rfl

theorem SameBeside.trans (h : t.SameBeside tables tables') (h' : t.SameBeside tables' tables'') :
    t.SameBeside tables tables'' :=
  fun id row column hfree => (h' id row column hfree).trans (h id row column hfree)

theorem SameBeside.eq_of_ne (h : t.SameBeside tables tables') {id : TableId} (hid : id ≠ t.table) :
    tables' id = tables id :=
  Table.ext_cell? fun row column => h id row column fun hoccupied => hid hoccupied.1

theorem Asks.sameBeside (h : t.Asks q) (u : Unsteady) :
    t.SameBeside u.storage.contents (Unsteady.answer q u).2.storage.contents := by
  have hevicted : t.SameBeside u.storage.contents u.evicted.contents :=
    u.contents_evicted_eq ▸ .refl t _
  cases q with
  | known cache e => exact hevicted
  | remember cache e number => exact hevicted
  | table id op =>
      obtain ⟨rfl, hop⟩ := h
      have hwithin : op.Within (· ∈ Entity.columns) := hop.within
      rcases u.answer_table t.table op with ⟨err, heq⟩ | ⟨a, T, hperform, heq⟩ <;> rw [heq]
      · exact hevicted
      · intro id row column hfree
        rw [contents_update]
        split
        · next hid =>
          subst hid
          exact Table.cell?_of_perform hwithin (fun hcolumn => hfree ⟨rfl, hcolumn⟩) hperform row
        · rw [Unsteady.contents_evicted]

theorem sameBeside_run (hp : p.Only t.Asks) (u : Unsteady) :
    t.SameBeside u.storage.contents (p.run Unsteady.answer u).2.storage.contents :=
  hp.run (fun v : Unsteady => t.SameBeside u.storage.contents v.storage.contents)
    (fun _ v hq hv => hv.trans (hq.sameBeside v)) (.refl t _)

theorem Asks.numberedAs (h : t.Asks q) (hid : NumberedAs (u.storage.contents t.table) e id) :
    NumberedAs ((Unsteady.answer q u).2.storage.contents t.table) e id := by
  have hevicted : NumberedAs (u.evicted.contents t.table) e id := by
    rwa [Unsteady.contents_evicted]
  cases q with
  | known cache e' => exact hevicted
  | remember cache e' number => exact hevicted
  | table id' op =>
      obtain ⟨rfl, hop⟩ := h
      rcases u.answer_table t.table op with ⟨err, heq⟩ | ⟨a, T, hperform, heq⟩ <;> rw [heq]
      · exact hevicted
      · rw [contents_update, if_pos rfl]
        exact hop.numberedAs hperform hid

theorem numberedAs_run (hp : p.Only t.Asks) (hid : NumberedAs (u.storage.contents t.table) e id) :
    NumberedAs ((p.run Unsteady.answer u).2.storage.contents t.table) e id :=
  hp.run (fun v : Unsteady => NumberedAs (v.storage.contents t.table) e id)
    (fun _ _ hq hv => hq.numberedAs hv) hid

theorem resolve_run_ok (hu : Remembers t.table u.storage)
    (hrun : (t.resolve e).run Unsteady.answer u = (.ok id, u')) :
    Remembers t.table u'.storage ∧ NumberedAs (u'.storage.contents t.table) e id := by
  have hmet := (Question.resolve e).ask_transparent (u := u) ⟨rfl, rfl⟩ hu
  simp only [Question.ask] at hmet
  rw [hrun] at hmet
  exact ⟨hmet.remembers, hmet.fits id rfl⟩

end EntityTable

namespace FactTable

variable {t : FactTable} {m : Metric} {k : SeriesNumbers} {tables tables' : TableId → Table}
  {u u' : Unsteady} {series : Series}

theorem resolveTag_run_ok (hu : EntityTable.Remembers t.entities.table u.storage)
    {tag : String × String} {ids : UInt32 × UInt32}
    (hrun : (t.resolveTag tag).run Unsteady.answer u = (.ok ids, u')) :
    EntityTable.Remembers t.entities.table u'.storage ∧
      TagNumbers (u'.storage.contents t.entities.table) tag ids := by
  obtain ⟨name, u₁, hname, hrun⟩ := Program.run_bind_ok hrun
  obtain ⟨value, u₂, hvalue, hrun⟩ := Program.run_bind_ok hrun
  cases hrun
  obtain ⟨hu₁, hid⟩ := EntityTable.resolve_run_ok hu hname
  obtain ⟨hu₂, hid'⟩ := EntityTable.resolve_run_ok hu₁ hvalue
  have hkept := EntityTable.numberedAs_run (t.entities.resolve_only ⟨.tagValue, tag.2⟩) hid
  rw [hvalue] at hkept
  exact ⟨hu₂, hkept, hid'⟩

theorem resolveTags_run_ok (hu : EntityTable.Remembers t.entities.table u.storage)
    {tags : List (String × String)} {ids : List (UInt32 × UInt32)}
    (hrun : (tags.mapM t.resolveTag).run Unsteady.answer u = (.ok ids, u')) :
    EntityTable.Remembers t.entities.table u'.storage ∧
      List.Forall₂ (TagNumbers (u'.storage.contents t.entities.table)) tags ids := by
  induction tags generalizing u ids with
  | nil =>
      cases hrun
      exact ⟨hu, .nil⟩
  | cons tag tags ih =>
      simp only [List.mapM_cons, Program.bind_eq, Program.pure_eq] at hrun
      obtain ⟨first, u₁, hfirst, hrun⟩ := Program.run_bind_ok hrun
      obtain ⟨rest, u₂, hrest, hrun⟩ := Program.run_bind_ok hrun
      cases hrun
      obtain ⟨hu₁, hids⟩ := resolveTag_run_ok hu hfirst
      obtain ⟨hu₂, hids'⟩ := ih hu₁ hrest
      refine ⟨hu₂, .cons (hids.mono fun e id hid => ?_) hids'⟩
      have hkept := EntityTable.numberedAs_run
        (Program.only_mapM fun tag (_ : tag ∈ tags) => t.resolveTag_only tag) hid
      rwa [hrest] at hkept

theorem numbers_run_ok (hu : EntityTable.Remembers t.entities.table u.storage)
    (hrun : (t.numbers series).run Unsteady.answer u = (.ok k, u')) :
    EntityTable.Remembers t.entities.table u'.storage ∧
      SeriesNumbered (u'.storage.contents t.entities.table) series k := by
  obtain ⟨metric, u₁, hmetric, hrun⟩ := Program.run_bind_ok hrun
  obtain ⟨tags, u₂, htags, hrun⟩ := Program.run_bind_ok hrun
  cases hrun
  obtain ⟨hu₁, hid⟩ := EntityTable.resolve_run_ok hu hmetric
  obtain ⟨hu₂, hids⟩ := resolveTags_run_ok hu₁ htags
  have hkept := EntityTable.numberedAs_run
    (Program.only_mapM fun tag (_ : tag ∈ series.tags.entries) => t.resolveTag_only tag) hid
  rw [htags] at hkept
  exact ⟨hu₂, hkept, hids⟩

def enteredInto (t : FactTable) (m : Metric) (k : SeriesNumbers) (tables : TableId → Table) :
    TableId → Table :=
  Function.update tables t.table (t.entered m k (tables t.table))

theorem cell?_enteredInto (t : FactTable) (m : Metric) (k : SeriesNumbers)
    (tables : TableId → Table) (id : TableId) (row column : Bytes) :
    (t.enteredInto m k tables id).cell? row column =
      if id = t.table ∧ row = t.rowOf k m.timestamp ∧ column = t.columnOf m.timestamp then
        some (Bytes.ofInt64 (m.applied (((tables t.table).cell? (t.rowOf k m.timestamp)
          (t.columnOf m.timestamp)).map Bytes.toInt64)))
      else (tables id).cell? row column := by
  rw [enteredInto, Function.update_apply]
  by_cases hid : id = t.table
  · subst hid
    simp only [if_true, entered, Table.cell?_setCell, true_and]
  · simp only [hid, false_and, if_false]

theorem not_occupies_columnOf (t : FactTable) (entities : EntityTable) (id : TableId)
    (time : Int64) : ¬ entities.Occupies id (t.columnOf time) := by
  intro hoccupied
  have hlength := Entity.length_of_mem_columns hoccupied.2
  rw [length_columnOf] at hlength
  cases hlength

theorem sameBeside_enteredInto {entities : EntityTable} (h : entities.SameBeside tables tables')
    (t : FactTable) (m : Metric) (k : SeriesNumbers) :
    entities.SameBeside (t.enteredInto m k tables) (t.enteredInto m k tables') := by
  intro id row column hfree
  rw [cell?_enteredInto, cell?_enteredInto, h id row column hfree,
    h t.table _ _ (t.not_occupies_columnOf entities _ _)]

theorem numberedAs_entered {T : Table} {e : Entity} {number : UInt32} :
    NumberedAs (t.entered m k T) e number ↔ NumberedAs T e number := by
  rw [NumberedAs, entered, Table.cell?_setCell, if_neg, NumberedAs]
  rintro ⟨-, hcolumn⟩
  have hlength := congrArg List.length hcolumn
  rw [length_columnOf] at hlength
  cases hlength

theorem numberedAs_enteredInto {id : TableId} {e : Entity} {number : UInt32} :
    NumberedAs (t.enteredInto m k tables id) e number ↔ NumberedAs (tables id) e number := by
  rw [enteredInto, Function.update_apply]
  split
  · next hid => rw [numberedAs_entered, hid]
  · exact Iff.rfl

theorem answer_entry (t : FactTable) (m : Metric) (k : SeriesNumbers) (u : Unsteady) :
    (∃ e v, Unsteady.answer (.table t.table (t.entry m k)) u = (.error e, v) ∧
      v.storage.contents = u.storage.contents) ∨
    ∃ a v, Unsteady.answer (.table t.table (t.entry m k)) u = (.ok a, v) ∧
      v.storage.contents = t.enteredInto m k u.storage.contents := by
  rcases u.perform_run_cases t.table (t.entry m k) with
    ⟨e, v, hrun, hv⟩ | ⟨a, T, v, hperform, hrun, hv⟩
  · exact .inl ⟨e, v, hrun, hv⟩
  · exact .inr ⟨a, v, hrun, by rw [hv, of_perform_entry hperform, enteredInto]⟩

theorem numberedAs_answer_entry {id : TableId} {e : Entity} {number : UInt32}
    (h : NumberedAs (u.storage.contents id) e number) :
    NumberedAs ((Unsteady.answer (.table t.table (t.entry m k)) u).2.storage.contents id) e
      number := by
  rcases t.answer_entry m k u with ⟨err, v, heq, hv⟩ | ⟨a, v, heq, hv⟩ <;> rw [heq, hv]
  · exact h
  · exact numberedAs_enteredInto.mpr h

theorem write_numberedAs (t : FactTable) (m : Metric) {e : Entity} {id : UInt32}
    (h : NumberedAs (u.storage.contents t.entities.table) e id) :
    NumberedAs (((t.write m).run Unsteady.answer u).2.storage.contents t.entities.table) e id := by
  refine (t.write_only m).run
    (fun v : Unsteady => NumberedAs (v.storage.contents t.entities.table) e id)
    (fun q v hq hv => ?_) h
  rcases hq with hq | ⟨k, rfl⟩
  · exact hq.numberedAs hv
  · exact numberedAs_answer_entry hv

theorem defect?_of_write_ok (hrun : (t.write m).run Unsteady.answer u = (.ok (), u')) :
    m.defect? = none := by
  obtain ⟨_, u₁, hvalid, -⟩ := Program.run_bind_ok hrun
  exact Metric.of_validate (congrArg Prod.fst hvalid)

/-- A write fails and changes nothing but the numbering of strings, or it succeeds and has
entered its value under the numbers of its series. -/
theorem write_run_cases (t : FactTable) (m : Metric) (u : Unsteady) :
    (∃ e v, (t.write m).run Unsteady.answer u = (.error e, v) ∧
      t.entities.SameBeside u.storage.contents v.storage.contents) ∨
    ∃ k v, (t.write m).run Unsteady.answer u = (.ok (), v) ∧
      t.entities.SameBeside (t.enteredInto m k u.storage.contents) v.storage.contents ∧
      (EntityTable.Remembers t.entities.table u.storage →
        EntityTable.Remembers t.entities.table v.storage ∧
          SeriesNumbered (v.storage.contents t.entities.table) m.series k) := by
  rw [write_eq]
  cases hvalid : m.validate with
  | error e => exact .inl ⟨e, u, rfl, .refl _ _⟩
  | ok _ =>
      simp only [Program.bind]
      have hnumbering := EntityTable.sameBeside_run (t.numbers_only m.series) u
      rcases hnumbers : (t.numbers m.series).run Unsteady.answer u with ⟨_ | k, v⟩
      · rw [hnumbers] at hnumbering
        exact .inl ⟨_, v, Program.run_bind_of_error hnumbers, hnumbering⟩
      -- only the last request touches the table of buckets
      · rw [hnumbers] at hnumbering
        rw [Program.run_bind_of_ok hnumbers, enter, Program.run_call, Program.run_result]
        rcases t.answer_entry m k v with ⟨e, w, heq, hw⟩ | ⟨a, w, heq, hw⟩
        · rw [heq]
          refine .inl ⟨e, w, rfl, ?_⟩
          rwa [hw]
        · have hkept : ∀ e id, NumberedAs (v.storage.contents t.entities.table) e id →
              NumberedAs (w.storage.contents t.entities.table) e id := fun e id hid => by
            rw [hw]
            exact numberedAs_enteredInto.mpr hid
          refine .inr ⟨k, w, by rw [heq]; rfl, ?_, fun hu => ?_⟩
          · rw [hw]
            exact sameBeside_enteredInto hnumbering t m k
          · obtain ⟨hv, hk⟩ := numbers_run_ok hu hnumbers
            refine ⟨?_, hk.mono hkept⟩
            obtain rfl : (Unsteady.answer (.table t.table (t.entry m k)) v).2 = w := by rw [heq]
            exact hv.answer_table hkept

end FactTable

end Rollup
