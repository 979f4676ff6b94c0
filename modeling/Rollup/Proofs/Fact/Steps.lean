import Rollup.Proofs.Entity.Room
import Rollup.Proofs.Fact.Writing

namespace Rollup

open Storage Entity

def Series.strings (series : Series) : List Entity :=
  ⟨.metric, series.name⟩ ::
    series.tags.entries.flatMap fun tag => [⟨.tagName, tag.1⟩, ⟨.tagValue, tag.2⟩]

theorem Series.tag_mem_strings {series : Series} {tag : String × String}
    (h : tag ∈ series.tags.entries) :
    ⟨.tagName, tag.1⟩ ∈ series.strings ∧ ⟨.tagValue, tag.2⟩ ∈ series.strings := by
  constructor
  all_goals
    refine List.mem_cons_of_mem _ (List.mem_flatMap.mpr ⟨tag, h, ?_⟩)
    simp

theorem Metric.of_validate {m : Metric} (h : m.validate = .ok ()) : m.defect? = none := by
  simp only [validate] at h
  split at h
  · next hnone => exact hnone
  · cases h

theorem Metric.validate_eq {m : Metric} (h : m.defect? = none) : m.validate = .ok () := by
  simp only [validate, h]

/-- Cells in the columns of buckets are words. -/
def Table.Words (T : Table) : Prop :=
  ∀ row column cell, column.length = 2 → T.cell? row column = some cell → cell.length = 8

def Storage.Serves (s : Storage) (id : TableId) : Prop := ∃ T, s.Holds id T ∧ T.Words

/-- The operation keeps cells in the columns of buckets words. -/
def TableOp.Tame (op : TableOp) : Prop :=
  ∀ (T : Table) a T', T.perform op = .ok (a, T') → T.Words → T'.Words

namespace Table

theorem words_setCell {T : Table} (h : T.Words) {row column : Bytes} {value : Option Bytes}
    (hvalue : column.length = 2 → ∀ cell, value = some cell → cell.length = 8) :
    (T.setCell row column value).Words := by
  intro row' column' cell hcolumn hcell
  rw [cell?_setCell] at hcell
  split at hcell
  · next heq => exact hvalue (heq.2 ▸ hcolumn) cell hcell
  · exact h row' column' cell hcolumn hcell

theorem words_empty : Table.empty.Words := by
  intro row column cell _ hcell
  simp [Table.cell?, Table.columns, Table.empty] at hcell

end Table

theorem TableOp.tame_put {row column value : Bytes} (hcolumn : column.length ≠ 2) :
    (TableOp.put row column value).Tame := by
  intro T a T' hperform hwords
  cases hperform
  exact Table.words_setCell hwords fun h => absurd h hcolumn

theorem EntityTable.Step.tame {op : TableOp} (h : EntityTable.Step op) : op.Tame := by
  intro T a T' hperform hwords
  cases h with
  | read row =>
      cases hperform
      exact hwords
  | count kind =>
      obtain ⟨-, rfl⟩ := Table.of_add_ok hperform
      exact Table.words_setCell hwords fun h => absurd h (by decide)
  | record kind id name => exact TableOp.tame_put (by decide) T a T' hperform hwords
  | claim e id =>
      simp only [Table.perform] at hperform
      split at hperform <;> cases hperform
      · exact Table.words_setCell hwords fun h => absurd h (by decide)
      · exact hwords
  | retract kind id name =>
      simp only [Table.perform] at hperform
      split at hperform <;> cases hperform
      · exact Table.words_setCell hwords fun h => absurd h (by decide)
      · exact hwords

namespace FactTable

variable {t : FactTable} {s s' : Storage} {T T' : Table} {m : Metric} {k : SeriesNumbers}
  {series : Series} {strings : List Entity} {id : TableId}

/-- The numbers of a series, given out where there are none yet. -/
def numbers (t : FactTable) (series : Series) : Work SeriesNumbers := do
  let metric ← t.entities.resolve ⟨.metric, series.name⟩
  let tags ← series.tags.entries.mapM t.resolveTag
  return ⟨metric, tags⟩

def entry (t : FactTable) (m : Metric) (k : SeriesNumbers) : TableOp :=
  match m.kind with
  | .counter => .increment (t.rowOf k m.timestamp) (t.columnOf m.timestamp) m.value
  | .gauge => .put (t.rowOf k m.timestamp) (t.columnOf m.timestamp) (Bytes.ofInt64 m.value)

def enter (t : FactTable) (m : Metric) (k : SeriesNumbers) : Work Unit :=
  .call (.table t.table (t.entry m k)) fun answer => .result (answer.map fun _ => ())

theorem enter_eq (t : FactTable) (m : Metric) (k : SeriesNumbers) : t.enter m k =
    (Storage.perform t.table (t.entry m k)).bind fun _ => .result (.ok ()) := by
  simp only [enter, Storage.perform, Program.request, Program.bind]
  congr 1
  funext answer
  cases answer <;> rfl

theorem write_eq (t : FactTable) (m : Metric) : t.write m =
    (Program.result m.validate).bind fun _ => (t.numbers m.series).bind fun k => t.enter m k := by
  have hbare : ∀ p : Work Unit, p = p.bind fun _ => .result (.ok ()) :=
    fun p => (Program.bind_pure p).symm
  simp only [write, numbers, enter_eq, entry, Program.bind_eq, Program.bind_assoc,
    Program.pure_eq, Program.bind]
  congr 1
  funext _
  congr 1
  funext metric
  congr 1
  funext tags
  cases m.kind with
  | counter => exact hbare _
  | gauge => exact hbare _

theorem resolveTag_only (t : FactTable) (tag : String × String) :
    (t.resolveTag tag).Only t.entities.Asks :=
  Program.only_bind (t.entities.resolve_only _) fun _ =>
    Program.only_bind (t.entities.resolve_only _) fun _ => Program.only_result _

theorem numbers_only (t : FactTable) (series : Series) :
    (t.numbers series).Only t.entities.Asks :=
  Program.only_bind (t.entities.resolve_only _) fun _ =>
    Program.only_bind (Program.only_mapM fun tag _ => t.resolveTag_only tag) fun _ =>
      Program.only_result _

def Asks (t : FactTable) (m : Metric) (q : Storage.Request) : Prop :=
  t.entities.Asks q ∨ ∃ k, q = .table t.table (t.entry m k)

theorem write_only (t : FactTable) (m : Metric) : (t.write m).Only (t.Asks m) := by
  rw [write_eq]
  refine Program.only_bind (Program.only_result _) fun _ => ?_
  refine Program.only_bind (Program.only_mono (fun _ => .inl) (t.numbers_only _)) fun k => ?_
  exact ⟨.inr ⟨k, rfl⟩, fun _ _ => Program.only_result _⟩

theorem length_columnOf (t : FactTable) (time : Int64) : (t.columnOf time).length = 2 :=
  Bytes.length_ofUInt16 _

theorem of_perform_entry {a : (t.entry m k).Answer} (h : T.perform (t.entry m k) = .ok (a, T')) :
    T' = t.entered m k T := by
  obtain ⟨kind, name, timestamp, value, tags⟩ := m
  cases kind with
  | counter =>
      cases hadd : T.add (t.rowOf k timestamp) (t.columnOf timestamp) value with
      | error e => simp [entry, Table.perform, hadd, Except.map] at h
      | ok r =>
          obtain ⟨updated, U⟩ := r
          simp only [entry, Table.perform, hadd, Except.map, Except.ok.injEq] at h
          obtain ⟨rfl, htable⟩ := Table.of_add_ok hadd
          exact (congrArg Prod.snd h).symm.trans htable
  | gauge =>
      cases h
      rfl

theorem perform_entry (t : FactTable) (m : Metric) (k : SeriesNumbers)
    (hcell : ∀ cell, T.cell? (t.rowOf k m.timestamp) (t.columnOf m.timestamp) = some cell →
      cell.length = 8) : ∃ a, T.perform (t.entry m k) = .ok (a, t.entered m k T) := by
  have hok : ∃ a T', T.perform (t.entry m k) = .ok (a, T') := by
    obtain ⟨kind, name, timestamp, value, tags⟩ := m
    cases kind with
    | gauge => exact ⟨_, _, rfl⟩
    | counter =>
        cases hold : T.cell? (t.rowOf k timestamp) (t.columnOf timestamp) with
        | none => simp [entry, Table.perform, Table.add_none value hold, Except.map]
        | some cell =>
            simp [entry, Table.perform, Table.add, hold, Table.readLong, hcell cell hold,
              Except.map, Bind.bind, Except.bind, pure, Except.pure]
  obtain ⟨a, T', hperform⟩ := hok
  exact ⟨a, of_perform_entry hperform ▸ hperform⟩

theorem enter_run (hT : s.Holds t.table T)
    (hcell : ∀ cell, T.cell? (t.rowOf k m.timestamp) (t.columnOf m.timestamp) = some cell →
      cell.length = 8) :
    (t.enter m k).run answer s = (.ok (), s.update t.table (t.entered m k T)) := by
  obtain ⟨a, hperform⟩ := t.perform_entry m k hcell
  have hrun := run_perform (t.entry m k) hT hperform
  simp only [Storage.perform, Program.request, Program.run_call, Program.run_result,
    Prod.mk.injEq] at hrun
  simp only [enter, Program.run_call, Program.run_result, hrun.1, hrun.2]
  rfl

theorem entry_tame (t : FactTable) (m : Metric) (k : SeriesNumbers) : (t.entry m k).Tame := by
  intro T a T' hperform hwords
  rw [of_perform_entry hperform]
  refine Table.words_setCell hwords fun _ cell hcell => ?_
  cases hcell
  exact Bytes.length_ofInt64 _

theorem serves_answer {q : Storage.Request} (hq : ∀ id' op, q = .table id' op → op.Tame)
    (h : s.Serves id) : (Storage.answer q s).2.Serves id := by
  obtain ⟨T, hT, hwords⟩ := h
  cases q with
  | known cache e => exact ⟨T, hT, hwords⟩
  | remember cache e number => exact ⟨T, hT, hwords⟩
  | table id' op =>
      rcases answer_table s id' op with ⟨_, heq⟩ | ⟨a, T', hperform, heq⟩ <;> rw [heq]
      · exact ⟨T, hT, hwords⟩
      · by_cases hid : id = id'
        · subst hid
          rw [hT.contents_eq] at hperform
          exact ⟨T', hT.update_self T', hq id op rfl T a T' hperform hwords⟩
        · exact ⟨T, (holds_update_ne hid).mpr hT, hwords⟩

theorem Asks.tame {q : Storage.Request} (h : t.Asks m q) {op : TableOp}
    (hq : q = .table id op) : op.Tame := by
  subst hq
  rcases h with h | ⟨k, h⟩
  · exact h.2.tame
  · cases h
    exact t.entry_tame m k

theorem serves_write (h : s.Serves id) : ((t.write m).run answer s).2.Serves id :=
  (t.write_only m).run (Serves · id)
    (fun _ _ hq hs => serves_answer (fun _ _ h => Asks.tame hq h) hs) h

theorem holds_write (hid : id ≠ t.table) (hid' : id ≠ t.entities.table) (h : s.Holds id T) :
    ((t.write m).run answer s).2.Holds id T := by
  refine (t.write_only m).run (Holds · id T) (fun q _ hq hs => ?_) h
  refine holds_answer (fun op heq => ?_) hs
  subst heq
  rcases hq with hq | ⟨k, hq⟩
  · exact hid' hq.1
  · cases hq
    exact hid rfl

theorem resolveTag_run (h : t.entities.Room strings s) {tag : String × String}
    (htag : ⟨.tagName, tag.1⟩ ∈ strings ∧ ⟨.tagValue, tag.2⟩ ∈ strings) :
    ∃ ids s', (t.resolveTag tag).run answer s = (.ok ids, s') ∧ t.entities.Room strings s' ∧
      t.entities.Grows s s' ∧ TagNumbers (s'.contents t.entities.table) tag ids := by
  obtain ⟨name, s₁, hname, hroom, hgrows, hid⟩ := h.resolve_run htag.1
  obtain ⟨value, s₂, hvalue, hroom', hgrows', hid'⟩ := hroom.resolve_run htag.2
  refine ⟨(name, value), s₂, ?_, hroom', hgrows.trans hgrows', hgrows'.numbers _ _ hid, hid'⟩
  simp only [resolveTag, Program.bind_eq, Program.pure_eq]
  rw [Program.run_bind_of_ok hname, Program.run_bind_of_ok hvalue]
  rfl

theorem resolveTags_run (h : t.entities.Room strings s) {tags : List (String × String)}
    (htags : ∀ tag ∈ tags, ⟨.tagName, tag.1⟩ ∈ strings ∧ ⟨.tagValue, tag.2⟩ ∈ strings) :
    ∃ ids s', (tags.mapM t.resolveTag).run answer s = (.ok ids, s') ∧
      t.entities.Room strings s' ∧ t.entities.Grows s s' ∧
      List.Forall₂ (TagNumbers (s'.contents t.entities.table)) tags ids := by
  induction tags generalizing s with
  | nil => exact ⟨[], s, rfl, h, .refl _ _, .nil⟩
  | cons tag tags ih =>
      obtain ⟨htag, htags⟩ := List.forall_mem_cons.mp htags
      obtain ⟨ids, s₁, hfirst, hroom, hgrows, hids⟩ := resolveTag_run h htag
      obtain ⟨rest, s₂, hrest, hroom', hgrows', hids'⟩ := ih hroom htags
      refine ⟨ids :: rest, s₂, ?_, hroom', hgrows.trans hgrows',
        .cons (hids.mono hgrows'.numbers) hids'⟩
      simp only [List.mapM_cons, Program.bind_eq, Program.pure_eq]
      rw [Program.run_bind_of_ok hfirst, Program.run_bind_of_ok hrest]
      rfl

theorem numbers_run (h : t.entities.Room strings s) (hstrings : series.strings ⊆ strings) :
    ∃ k s', (t.numbers series).run answer s = (.ok k, s') ∧ t.entities.Room strings s' ∧
      t.entities.Grows s s' ∧ SeriesNumbered (s'.contents t.entities.table) series k := by
  obtain ⟨metric, s₁, hmetric, hroom, hgrows, hid⟩ :=
    h.resolve_run (hstrings (List.mem_cons_self ..))
  obtain ⟨tags, s₂, htags, hroom', hgrows', hids⟩ :=
    resolveTags_run (t := t) hroom fun tag (htag : tag ∈ series.tags.entries) =>
      (Series.tag_mem_strings htag).imp (hstrings ·) (hstrings ·)
  refine ⟨⟨metric, tags⟩, s₂, ?_, hroom', hgrows.trans hgrows', hgrows'.numbers _ _ hid, hids⟩
  simp only [numbers, Program.bind_eq, Program.pure_eq]
  rw [Program.run_bind_of_ok hmetric, Program.run_bind_of_ok htags]
  rfl

theorem room_entered (h : t.entities.Room strings s) (hT : s.Holds t.table T) :
    t.entities.Room strings (s.update t.table (t.entered m k T)) := by
  refine h.update hT fun row column hcolumn => ?_
  refine (Table.cell?_setCell ..).trans (if_neg fun heq => ?_)
  have hlength := Entity.length_of_mem_columns hcolumn
  rw [heq.2, length_columnOf] at hlength
  cases hlength

/-- On tables in order, and with numbers left for its strings, a valid value is written. -/
theorem write_run (h : t.entities.Room strings s) (hstrings : m.series.strings ⊆ strings)
    (hserves : s.Serves t.table) (hvalid : m.defect? = none) :
    ∃ s', (t.write m).run answer s = (.ok (), s') ∧ t.entities.Room strings s' := by
  obtain ⟨k, s₁, hnumbers, hroom, -⟩ := numbers_run (t := t) h hstrings
  have hserves₁ : ((t.numbers m.series).run answer s).2.Serves t.table :=
    (t.numbers_only m.series).run (Serves · t.table)
      (fun _ _ hq hs => serves_answer (fun _ _ h => Asks.tame (m := m) (.inl hq) h) hs) hserves
  rw [hnumbers] at hserves₁
  obtain ⟨T, hT, hwords⟩ := hserves₁
  refine ⟨s₁.update t.table (t.entered m k T), ?_, room_entered hroom hT⟩
  rw [write_eq, Metric.validate_eq hvalid]
  simp only [Program.bind]
  rw [Program.run_bind_of_ok hnumbers]
  exact enter_run hT fun cell hcell => hwords _ _ cell (length_columnOf t _) hcell

end FactTable

end Rollup
