import Rollup.Proofs.Program.Requests
import Rollup.Proofs.Storage.Run

namespace Rollup

/-- An operation on single cells, in columns of some kind. -/
def TableOp.Within (among : Bytes → Prop) : TableOp → Prop
  | get _ column | put _ column _ | swap _ column _ _ => among column
  | increment _ column _ | incrementAndGet _ column _ => among column
  | delete _ columns => ∀ column ∈ columns, among column
  | deleteRange _ | scan _ => False

theorem TableOp.Within.mono {among among' : Bytes → Prop} {op : TableOp} (h : op.Within among)
    (himp : ∀ column, among column → among' column) : op.Within among' := by
  cases op with
  | delete row columns => exact fun column hcolumn => himp column (h column hcolumn)
  | deleteRange => exact h
  | scan => exact h
  | _ => exact himp _ h

namespace Table

/-- Tables that have the same cells in the columns of some kind. -/
def AgreeOn (among : Bytes → Prop) (T T' : Table) : Prop :=
  ∀ row column, among column → T'.cell? row column = T.cell? row column

namespace AgreeOn

variable {among : Bytes → Prop} {T T' : Table} {row column : Bytes}

theorem setCell (h : T.AgreeOn among T') (row column : Bytes) (value : Option Bytes) :
    (T.setCell row column value).AgreeOn among (T'.setCell row column value) := by
  intro row' column' hcolumn'
  rw [cell?_setCell, cell?_setCell, h row' column' hcolumn']

theorem add (h : T.AgreeOn among T') (hcolumn : among column) (row : Bytes) (delta : Int64) :
    (∃ e, T.add row column delta = .error e ∧ T'.add row column delta = .error e) ∨
    ∃ updated U U', T.add row column delta = .ok (updated, U) ∧
      T'.add row column delta = .ok (updated, U') ∧ U.AgreeOn among U' := by
  simp only [Table.add, h row column hcolumn, bind, Except.bind, pure, Except.pure]
  cases T.cell? row column with
  | none => exact .inr ⟨_, _, _, rfl, rfl, h.setCell _ _ _⟩
  | some cell =>
      cases hread : readLong cell with
      | error e => exact .inl ⟨e, by simp only [hread], by simp only [hread]⟩
      | ok current =>
          simp only [hread]
          exact .inr ⟨_, _, _, rfl, rfl, h.setCell _ _ _⟩

theorem perform (h : T.AgreeOn among T') {op : TableOp} (hop : op.Within among) :
    (∃ e, T.perform op = .error e ∧ T'.perform op = .error e) ∨
    ∃ a U U', T.perform op = .ok (a, U) ∧ T'.perform op = .ok (a, U') ∧ U.AgreeOn among U' := by
  cases op with
  | get row column =>
      simp only [Table.perform, h row column hop]
      exact .inr ⟨_, _, _, rfl, rfl, h⟩
  | put row column value => exact .inr ⟨_, _, _, rfl, rfl, h.setCell _ _ _⟩
  | swap row column expected new =>
      simp only [Table.perform, h row column hop]
      split
      · exact .inr ⟨_, _, _, rfl, rfl, h.setCell _ _ _⟩
      · exact .inr ⟨_, _, _, rfl, rfl, h⟩
  | increment row column delta =>
      simp only [Table.perform]
      rcases h.add hop row delta with ⟨e, herror, herror'⟩ | ⟨updated, U, U', hok, hok', hU⟩
      · rw [herror, herror']
        exact .inl ⟨e, rfl, rfl⟩
      · rw [hok, hok']
        exact .inr ⟨_, _, _, rfl, rfl, hU⟩
  | incrementAndGet row column delta => exact h.add hop row delta
  | delete row columns =>
      refine .inr ⟨_, _, _, rfl, rfl, fun row' column' hcolumn' => ?_⟩
      rw [cell?_clear, cell?_clear, h row' column' hcolumn']
  | deleteRange range => exact hop.elim
  | scan range => exact hop.elim

end AgreeOn

theorem cell?_of_perform {among : Bytes → Prop} {T T' : Table} {op : TableOp} {a : op.Answer}
    {column : Bytes} (hop : op.Within among) (hcolumn : ¬ among column)
    (h : T.perform op = .ok (a, T')) (row : Bytes) :
    T'.cell? row column = T.cell? row column := by
  have hset : ∀ {row' other : Bytes} {value : Option Bytes}, among other →
      (T.setCell row' other value).cell? row column = T.cell? row column := by
    intro row' other value hother
    rw [cell?_setCell, if_neg fun heq => hcolumn (by rw [heq.2]; exact hother)]
  cases op with
  | get => cases h; rfl
  | put => cases h; exact hset hop
  | swap =>
      simp only [Table.perform] at h
      split at h <;> cases h
      · exact hset hop
      · rfl
  | increment row' other delta =>
      cases hadd : T.add row' other delta with
      | error e => simp [Table.perform, hadd, Except.map] at h
      | ok r =>
          obtain ⟨updated, U⟩ := r
          simp only [Table.perform, hadd, Except.map, Except.ok.injEq, Prod.mk.injEq] at h
          obtain ⟨-, rfl⟩ := h
          rw [(of_add_ok hadd).2]
          exact hset hop
  | incrementAndGet =>
      rw [(of_add_ok h).2]
      exact hset hop
  | delete row' columns =>
      cases h
      rw [cell?_clear, if_neg fun heq => hcolumn (hop column heq.2)]
  | deleteRange => exact hop.elim
  | scan => exact hop.elim

end Table

namespace Storage

theorem contents_update_self (s : Storage) (id : TableId) :
    (s.update id (s.contents id)).contents = s.contents := by
  funext other
  rw [contents_update]
  split
  · next heq => rw [heq]
  · rfl

def Avoids (column : Bytes) (q : Request) : Prop :=
  ∀ id op, q = .table id op → op.Within (· ≠ column)

/-- Storages that differ in nothing but the cells that one table has in one column. -/
structure SameBut (id : TableId) (column : Bytes) (s s' : Storage) : Prop where
  caches : s'.caches = s.caches
  others : ∀ other, other ≠ id → s'.catalog.find? other = s.catalog.find? other
  available : (s'.catalog.table id).available = (s.catalog.table id).available
  cells : (s.contents id).AgreeOn (· ≠ column) (s'.contents id)

namespace SameBut

variable {α : Type} {s s' s'' : Storage} {id other : TableId} {column : Bytes}

theorem refl (id : TableId) (column : Bytes) (s : Storage) : s.SameBut id column s :=
  ⟨rfl, fun _ _ => rfl, rfl, fun _ _ _ => rfl⟩

theorem trans (h : s.SameBut id column s') (h' : s'.SameBut id column s'') :
    s.SameBut id column s'' where
  caches := h'.caches.trans h.caches
  others other hne := (h'.others other hne).trans (h.others other hne)
  available := h'.available.trans h.available
  cells row column' hne := (h'.cells row column' hne).trans (h.cells row column' hne)

theorem table_eq (h : s.SameBut id column s') (hne : other ≠ id) :
    s'.catalog.table other = s.catalog.table other := by
  rw [Catalog.table, h.others other hne, Catalog.table]

theorem update (h : s.SameBut id column s') {T T' : Table} (hT : T.AgreeOn (· ≠ column) T') :
    (s.update id T).SameBut id column (s'.update id T') where
  caches := h.caches
  others other hne := by
    simp only [Storage.update, Catalog.find?_put, if_neg hne, h.others other hne]
  available := by
    simp only [Storage.update, Catalog.table_put, if_true, h.available]
  cells := by
    rw [contents_update, contents_update, if_pos rfl, if_pos rfl]
    exact hT

theorem put_ne (h : s.SameBut id column s') (hne : other ≠ id) (stored : StoredTable) :
    SameBut id column { s with catalog := s.catalog.put other stored }
      { s' with catalog := s'.catalog.put other stored } where
  caches := h.caches
  others other' hne' := by
    simp only [Catalog.find?_put, h.others other' hne']
  available := by
    simp only [Catalog.table_put, if_neg hne.symm, h.available]
  cells := by
    simp only [contents, Catalog.table_put, if_neg hne.symm]
    exact h.cells

theorem holds (h : s.SameBut id column s') (hne : other ≠ id) {T : Table}
    (hT : s.Holds other T) : s'.Holds other T := by
  rwa [Holds, h.others other hne]

theorem contents_eq (h : s.SameBut id column s') (hne : other ≠ id) :
    s'.contents other = s.contents other :=
  congrArg StoredTable.contents (h.table_eq hne)

theorem of_update {T : Table} (hT : (s.contents id).AgreeOn (· ≠ column) T) :
    s.SameBut id column (s.update id T) where
  caches := rfl
  others other hne := by
    simp only [Storage.update, Catalog.find?_put, if_neg hne]
  available := by
    simp only [Storage.update, Catalog.table_put, if_true]
  cells := by
    rw [contents_update, if_pos rfl]
    exact hT

theorem answer_table (h : s.SameBut id column s') {op : TableOp}
    (hop : op.Within (· ≠ column)) :
    (answer (.table other op) s').1 = (answer (.table other op) s).1 ∧
      (answer (.table other op) s).2.SameBut id column (answer (.table other op) s').2 := by
  by_cases hother : other = id
  · subst hother
    by_cases hreach : (s.catalog.table other).available = true
    · have hreach' := h.available.trans hreach
      simp only [Storage.answer, Catalog.perform, if_pos hreach, if_pos hreach']
      rcases h.cells.perform hop with ⟨e, herror, herror'⟩ | ⟨a, U, U', hok, hok', hU⟩
      · simp only [contents] at herror herror'
        simp only [herror, herror']
        exact ⟨trivial, h⟩
      · simp only [contents] at hok hok'
        simp only [hok, hok']
        exact ⟨trivial, h.update hU⟩
    · have hreach' : ¬ (s'.catalog.table other).available = true := by rwa [h.available]
      simp only [Storage.answer, Catalog.perform, if_neg hreach, if_neg hreach']
      exact ⟨trivial, h⟩
  · simp only [Storage.answer, Catalog.perform, h.table_eq hother]
    split
    · split
      · exact ⟨rfl, h.put_ne hother _⟩
      · exact ⟨rfl, h⟩
    · exact ⟨rfl, h⟩

theorem answer (h : s.SameBut id column s') {q : Request} (hq : Avoids column q) :
    (answer q s').1 = (answer q s).1 ∧ (answer q s).2.SameBut id column (answer q s').2 := by
  cases q with
  | table other op => exact h.answer_table (hq other op rfl)
  | known cache e =>
      refine ⟨?_, h⟩
      simp only [Storage.answer, memory, h.caches]
  | remember cache e number =>
      refine ⟨rfl, ⟨?_, h.others, h.available, h.cells⟩⟩
      simp only [Storage.answer, h.caches]

theorem run {w : Work α} (h : s.SameBut id column s') (hw : w.Only (Avoids column)) :
    (w.run Storage.answer s').1 = (w.run Storage.answer s).1 ∧
      (w.run Storage.answer s).2.SameBut id column (w.run Storage.answer s').2 := by
  induction w generalizing s s' with
  | result outcome => exact ⟨rfl, h⟩
  | call q resume ih =>
      obtain ⟨hanswer, hnext⟩ := h.answer hw.1
      rw [Program.run_call, Program.run_call, hanswer]
      exact ih _ hnext (hw.2 _ fun _ _ => trivial)

end SameBut

theorem cell?_run {α : Type} {w : Work α} {column : Bytes} (s : Storage) (id : TableId)
    (row : Bytes) (hw : w.Only (Avoids column)) :
    ((w.run answer s).2.contents id).cell? row column = (s.contents id).cell? row column := by
  refine hw.run (fun s' : Storage => (s'.contents id).cell? row column = (s.contents id).cell? row column)
    (fun q s' hq hs' => ?_) rfl
  cases q with
  | known cache e => exact hs'
  | remember cache e number => exact hs'
  | table other op =>
      rcases answer_table s' other op with ⟨_, heq⟩ | ⟨a, T, hperform, heq⟩ <;> rw [heq]
      · exact hs'
      · rw [contents_update]
        split
        · next hid =>
          subst hid
          rw [Table.cell?_of_perform (hq id op rfl) (fun h => h rfl) hperform, hs']
        · exact hs'

end Storage

end Rollup
