import Rollup.Proofs.Fact.Sparing
import Rollup.Proofs.Storage.Outage

namespace Rollup

open Storage Program

theorem Unsteady.scansInRange_answer {u : Unsteady} (q : Storage.Request) {a : q.Answer}
    (h : (Unsteady.answer q u).1 = .ok a) : ScansInRange q a := by
  simp only [Unsteady.answer] at h
  split at h
  · cases h
  · exact Storage.scansInRange_answer q u.evicted a h

namespace FactTable

variable {t : FactTable} {cutoff : Int64} {op : TableOp} {T T' T'' : Table} {u : Unsteady}

def Fades (t : FactTable) (cutoff : Int64) (T T' : Table) : Prop :=
  ∀ row column, T'.cell? row column = T.cell? row column ∨
    T'.cell? row column = none ∧ t.Doomed cutoff row column

theorem Fades.refl (t : FactTable) (cutoff : Int64) (T : Table) : t.Fades cutoff T T :=
  fun _ _ => .inl rfl

theorem Fades.trans (h : t.Fades cutoff T T') (h' : t.Fades cutoff T' T'') :
    t.Fades cutoff T T'' := by
  intro row column
  rcases h' row column with heq | hgone
  · rw [heq]
    exact h row column
  · exact .inr hgone

theorem Fades.laid (h : t.Fades cutoff T T') (hlaid : t.Laid T) : t.Laid T' := by
  intro row column cell hcell
  rcases h row column with heq | ⟨hgone, -⟩
  · exact hlaid row column cell (heq ▸ hcell)
  · cases hgone.symm.trans hcell

theorem Fades.kept (h : t.Fades cutoff T T') (ht : t.Rolled) {k : SeriesNumbers} {time : Int64}
    (htime : 0 ≤ time.toInt) (hkept : ¬ t.Expired cutoff time) :
    T'.cell? (t.rowOf k time) (t.columnOf time) = T.cell? (t.rowOf k time) (t.columnOf time) := by
  rcases h (t.rowOf k time) (t.columnOf time) with heq | ⟨-, hdoomed⟩
  · exact heq
  · exact absurd ((doomed_iff ht htime).mp hdoomed) hkept

theorem Clears.fades (h : t.Clears cutoff op) (hlaid : t.Laid T) {a : op.Answer}
    (hperform : T.perform op = .ok (a, T')) : t.Fades cutoff T T' := by
  intro row column
  rcases h.erases.cell?_cases hperform row column with hsame | hgone
  · exact .inl hsame
  cases hcell : T.cell? row column with
  | none => exact .inl hgone
  | some cell =>
      -- a cell that a table in order holds is the value of a bucket
      obtain ⟨k, time, value, htime, rfl, rfl, -⟩ := hlaid row column cell hcell
      refine .inr ⟨hgone, k, time, htime, rfl, rfl, by_contra fun hkept => ?_⟩
      rw [h.cell? hperform htime hkept, hcell] at hgone
      cases hgone

theorem Deletes.fades {q : Storage.Request} (h : t.Deletes cutoff q)
    (hlaid : t.Laid (u.storage.contents t.table)) :
    t.Fades cutoff (u.storage.contents t.table)
        ((Unsteady.answer q u).2.storage.contents t.table) ∧
      ∀ id, id ≠ t.table →
        (Unsteady.answer q u).2.storage.contents id = u.storage.contents id := by
  obtain ⟨op, rfl, hclears⟩ := h
  rcases u.answer_table t.table op with ⟨e, heq⟩ | ⟨a, T, hperform, heq⟩ <;> rw [heq]
  · exact ⟨(u.contents_evicted _).symm ▸ .refl t cutoff _, fun id _ => u.contents_evicted id⟩
  · refine ⟨?_, fun id hid => ?_⟩
    · rw [contents_update, if_pos rfl]
      exact hclears.fades hlaid hperform
    · rw [contents_update, if_neg hid, Unsteady.contents_evicted]

/-- Whatever fails, a deletion takes at most the cells of buckets that have ended. -/
theorem deleteBefore_fades (ht : t.Rolled) (cutoff : Int64)
    (hlaid : t.Laid (u.storage.contents t.table)) :
    let v := ((t.deleteBefore cutoff).run Unsteady.answer u).2
    t.Fades cutoff (u.storage.contents t.table) (v.storage.contents t.table) ∧
      ∀ id, id ≠ t.table → v.storage.contents id = u.storage.contents id := by
  refine ((deleteBefore_confined ht cutoff).run (fun q (v : Unsteady) hq
    (hv : t.Fades cutoff (u.storage.contents t.table) (v.storage.contents t.table) ∧
      ∀ id, id ≠ t.table → v.storage.contents id = u.storage.contents id) => ?_)
    ⟨.refl t cutoff _, fun _ _ => rfl⟩).1
  obtain ⟨hfades, hothers⟩ := hq.fades (hv.1.laid hlaid)
  exact ⟨⟨hv.1.trans hfades, fun id hid => (hothers id hid).trans (hv.2 id hid)⟩,
    fun _ => Unsteady.scansInRange_answer q⟩

theorem cell?_of_deleteBefore (ht : t.Rolled) (cutoff : Int64) (u : Unsteady) {row column : Bytes}
    (hcell : (((t.deleteBefore cutoff).run Unsteady.answer u).2.storage.contents t.table).cell? row
      column ≠ none) : (u.storage.contents t.table).cell? row column ≠ none := by
  refine ((deleteBefore_confined ht cutoff).run (fun q (v : Unsteady) hq
    (hv : (v.storage.contents t.table).cell? row column ≠ none →
      (u.storage.contents t.table).cell? row column ≠ none) => ?_) (s := u) id).1 hcell
  refine ⟨fun hcell => hv ?_, fun _ => Unsteady.scansInRange_answer q⟩
  obtain ⟨op, rfl, hclears⟩ := hq
  rcases v.answer_table t.table op with ⟨e, heq⟩ | ⟨a, T, hperform, heq⟩ <;> rw [heq] at hcell
  · rwa [Unsteady.contents_evicted] at hcell
  · rw [contents_update, if_pos rfl] at hcell
    rcases hclears.erases.cell?_cases hperform row column with hsame | hgone
    · rwa [hsame] at hcell
    · exact absurd hgone hcell

theorem trimRow_passesOn (t : FactTable) (offset : Int64) (row : Row) :
    (t.trimRow offset row).PassesOn := by
  simp only [trimRow, bind_eq, pure_eq]
  refine passesOn_bind trivial fun doomed => ?_
  split
  · trivial
  · exact passesOn_bind (passesOn_request _) fun _ => trivial

theorem deleteBefore_passesOn (t : FactTable) (cutoff : Int64) :
    (t.deleteBefore cutoff).PassesOn := by
  have hranges : ∀ ranges, (t.deleteRanges ranges).PassesOn := fun ranges =>
    passesOn_bind (passesOn_mapM fun _ => passesOn_request _) fun _ => trivial
  have hscans : ∀ ranges, (t.scanAll ranges).PassesOn := fun ranges =>
    passesOn_bind (passesOn_mapM fun _ => passesOn_request _) fun _ => trivial
  have htrims : ∀ offset rows, (t.trimRows offset rows).PassesOn := fun offset rows =>
    passesOn_bind (passesOn_mapM (t.trimRow_passesOn offset)) fun _ => trivial
  simp only [deleteBefore, bind_eq, pure_eq]
  split
  · trivial
  · split
    · trivial
    · refine passesOn_bind (hranges _) fun removed => ?_
      split
      · trivial
      · exact passesOn_bind (hscans _) fun rows => passesOn_bind (htrims _ rows) fun _ => trivial

end FactTable

end Rollup
