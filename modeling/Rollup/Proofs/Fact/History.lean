import Rollup.Proofs.Fact.Ledger
import Rollup.Proofs.Fact.Steps

namespace Rollup

open Storage Entity

namespace Change

/-- A write of a value without a defect, or a deletion. -/
def Valid : Change → Prop
  | .write m => m.defect? = none
  | .expire _ => True

def strings : Change → List Entity
  | .write m => m.series.strings
  | .expire _ => []

end Change

namespace FactTable

variable {t t' : FactTable} {s s' s'' : Storage} {T T' : Table} {L L' : Ledger} {m : Metric}
  {strings : List Entity} {change : Change}

/-- Strings keep their numbers, and no table but the two of a fact table changes. -/
structure Advances (t : FactTable) (s s' : Storage) : Prop where
  numbers : ∀ (e : Entity) id, NumberedAs (s.contents t.entities.table) e id →
    NumberedAs (s'.contents t.entities.table) e id
  others : ∀ id U, id ≠ t.table → id ≠ t.entities.table → s.Holds id U → s'.Holds id U

theorem Advances.refl (t : FactTable) (s : Storage) : t.Advances s s :=
  ⟨fun _ _ h => h, fun _ _ _ _ h => h⟩

theorem Advances.trans (h : t.Advances s s') (h' : t.Advances s' s'') : t.Advances s s'' :=
  ⟨fun e id hid => h'.numbers e id (h.numbers e id hid),
    fun id U hid hid' hU => h'.others id U hid hid' (h.others id U hid hid' hU)⟩

theorem Advances.update (hne : t.entities.table ≠ t.table) (s : Storage) (T : Table) :
    t.Advances s (s.update t.table T) := by
  refine ⟨?_, fun id U hid _ hU => (holds_update_ne hid).mpr hU⟩
  rw [contents_update, if_neg hne]
  exact fun _ _ hid => hid

theorem writeAll_eq_performAll (t : FactTable) (ms : List Metric) :
    t.writeAll ms = t.performAll (ms.map .write) := by
  induction ms with
  | nil => rfl
  | cons m ms ih =>
      simp only [writeAll, List.map_cons, performAll, ih]
      rfl

theorem Laid.words (h : t.Laid T) : T.Words := by
  intro row column cell _ hcell
  obtain ⟨-, -, value, -, -, -, rfl⟩ := h row column cell hcell
  exact Bytes.length_ofInt64 value

namespace Reflects

theorem beside (ht : t.Rolled) (h : t.Reflects s T L) (hadvances : t'.Advances s s')
    (hready : t'.entities.Ready s') (hentities : t'.entities = t.entities)
    (hother : t.table ≠ t'.table) (hne : t.entities.table ≠ t.table) : t.Reflects s' T L := by
  rw [hentities] at hready
  refine h.mono ht hready (hadvances.others _ _ hother ?_ h.holds) ?_
  · rw [hentities]
    exact hne.symm
  · have hnumbers := hadvances.numbers
    rwa [hentities] at hnumbers

theorem write_advances (hne : t.entities.table ≠ t.table) (h : t.Reflects s T L)
    (hrun : (t.write m).run answer s = (.ok (), s')) : t.Advances s s' := by
  obtain ⟨-, -, -, hnumbers, -⟩ := of_write_run_ok hne h.ready h.holds h.laid hrun
  refine ⟨hnumbers, fun id U hid hid' hU => ?_⟩
  have hothers := holds_write (m := m) hid hid' hU
  rwa [hrun] at hothers

theorem performed (ht : t.Rolled) (hne : t.entities.table ≠ t.table) (h : t.Reflects s T L)
    (hrun : (t.perform change).run answer s = (.ok (), s')) :
    (∃ T', t.Reflects s' T' (L.apply t.resolution change)) ∧ t.Advances s s' := by
  refine ⟨h.apply ht hne hrun, ?_⟩
  cases change with
  | write m => exact h.write_advances hne hrun
  | expire cutoff =>
      obtain ⟨n, T', hdelete, -⟩ := deleteBefore_run ht h.holds h.laid cutoff
      simp only [FactTable.perform, Program.bind_eq, Program.run_bind_of_ok hdelete] at hrun
      cases hrun
      exact .update hne s T'

theorem write_run (ht : t.Rolled) (hne : t.entities.table ≠ t.table) (h : t.Reflects s T L)
    (hroom : t.entities.Room strings s) (hvalid : m.defect? = none)
    (hstrings : m.series.strings ⊆ strings) :
    ∃ s' T', (t.write m).run answer s = (.ok (), s') ∧
      t.Reflects s' T' (L.apply t.resolution (.write m)) ∧ t.entities.Room strings s' ∧
      t.Advances s s' := by
  obtain ⟨s', hrun, hroom'⟩ :=
    FactTable.write_run hroom hstrings ⟨T, h.holds, h.laid.words⟩ hvalid
  obtain ⟨T', h'⟩ := h.write ht hne hrun
  exact ⟨s', T', hrun, h', hroom', h.write_advances hne hrun⟩

theorem expire_run (ht : t.Rolled) (hne : t.entities.table ≠ t.table) (h : t.Reflects s T L)
    (hroom : t.entities.Room strings s) (cutoff : Int64) :
    ∃ n s' T', (t.deleteBefore cutoff).run answer s = (.ok n, s') ∧
      t.Reflects s' T' (L.apply t.resolution (.expire cutoff)) ∧ t.entities.Room strings s' ∧
      t.Advances s s' := by
  obtain ⟨n, T', hrun, -⟩ := deleteBefore_run ht h.holds h.laid cutoff
  obtain ⟨T'', h'⟩ := h.expire ht hne hrun
  exact ⟨n, _, T'', hrun, h', hroom.update_ne hne T', .update hne s T'⟩

theorem perform_run (ht : t.Rolled) (hne : t.entities.table ≠ t.table) (h : t.Reflects s T L)
    (hroom : t.entities.Room strings s) (hvalid : change.Valid)
    (hstrings : change.strings ⊆ strings) :
    ∃ s' T', (t.perform change).run answer s = (.ok (), s') ∧
      t.Reflects s' T' (L.apply t.resolution change) ∧ t.entities.Room strings s' ∧
      t.Advances s s' := by
  cases change with
  | write m => exact h.write_run ht hne hroom hvalid hstrings
  | expire cutoff =>
      obtain ⟨n, s', T', hrun, h'⟩ := h.expire_run ht hne hroom cutoff
      refine ⟨s', T', ?_, h'⟩
      simp only [perform, Program.bind_eq, Program.pure_eq]
      rw [Program.run_bind_of_ok hrun]
      rfl

theorem performAll_run (ht : t.Rolled) (hne : t.entities.table ≠ t.table)
    (h : t.Reflects s T L) (hroom : t.entities.Room strings s) {changes : List Change}
    (hvalid : ∀ change ∈ changes, change.Valid)
    (hstrings : ∀ change ∈ changes, change.strings ⊆ strings) :
    ∃ s' T', (t.performAll changes).run answer s = (.ok (), s') ∧
      t.Reflects s' T' (changes.foldl (Ledger.apply t.resolution) L) ∧
      t.entities.Room strings s' ∧ t.Advances s s' := by
  induction changes generalizing s T L with
  | nil => exact ⟨s, T, rfl, h, hroom, .refl t s⟩
  | cons change changes ih =>
      obtain ⟨hvalid₁, hvalid⟩ := List.forall_mem_cons.mp hvalid
      obtain ⟨hstrings₁, hstrings⟩ := List.forall_mem_cons.mp hstrings
      obtain ⟨s₁, T₁, hfirst, h₁, hroom₁, hadvances₁⟩ :=
        h.perform_run ht hne hroom hvalid₁ hstrings₁
      obtain ⟨s₂, T₂, hrest, h₂, hroom₂, hadvances₂⟩ := ih h₁ hroom₁ hvalid hstrings
      refine ⟨s₂, T₂, ?_, h₂, hroom₂, hadvances₁.trans hadvances₂⟩
      simp only [performAll, Program.bind_eq]
      rw [Program.run_bind_of_ok hfirst, hrest]

end Reflects

end FactTable

end Rollup
