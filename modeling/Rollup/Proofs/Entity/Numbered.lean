import Rollup.Entity.Basic
import Rollup.Proofs.Bytes

namespace Rollup

namespace Entity

variable {e e' : Entity} {kind kind' : EntityKind} {id id' : UInt32}

theorem readId_eq_ok_iff {cell : Bytes} : readId cell = .ok id ↔ cell = Bytes.ofUInt32 id := by
  constructor
  · intro h
    simp only [readId] at h
    split at h
    · next hlength =>
      cases h
      exact (Bytes.ofUInt32_toUInt32 hlength).symm
    · cases h
  · rintro rfl
    exact readId_ofUInt32 id

theorem numberRow_injective (h : numberRow kind id = numberRow kind' id') :
    kind = kind' ∧ id = id' := by
  simp only [numberRow, List.cons.injEq, true_and] at h
  exact ⟨EntityKind.code_injective _ _ h.1, Bytes.ofUInt32_injective h.2⟩

theorem counterRow_injective (h : counterRow kind = counterRow kind') : kind = kind' := by
  simp only [counterRow, List.cons.injEq, true_and, and_true] at h
  exact EntityKind.code_injective _ _ h

@[simp] theorem nameRow_ne_numberRow : e.nameRow ≠ numberRow kind id := by
  simp [nameRow, numberRow]

@[simp] theorem nameRow_ne_counterRow : e.nameRow ≠ counterRow kind := by
  simp [nameRow, counterRow]

@[simp] theorem numberRow_ne_counterRow : numberRow kind id ≠ counterRow kind' := by
  simp [numberRow, counterRow]

@[simp] theorem numberRow_ne_nameRow : numberRow kind id ≠ e.nameRow := by
  simp [nameRow, numberRow]

@[simp] theorem counterRow_ne_nameRow : counterRow kind ≠ e.nameRow := by
  simp [nameRow, counterRow]

@[simp] theorem counterRow_ne_numberRow : counterRow kind ≠ numberRow kind' id := by
  simp [numberRow, counterRow]

def NumberedAs (T : Table) (e : Entity) (id : UInt32) : Prop :=
  T.cell? e.nameRow idColumn = some (Bytes.ofUInt32 id)

instance (T : Table) (e : Entity) (id : UInt32) : Decidable (NumberedAs T e id) :=
  inferInstanceAs (Decidable (_ = _))

theorem numberedAs_setCell {T : Table} {row column : Bytes} {value : Option Bytes}
    (hrow : e.nameRow ≠ row) : NumberedAs (T.setCell row column value) e id ↔ NumberedAs T e id := by
  simp [NumberedAs, Table.cell?_setCell, hrow]

theorem NumberedAs.unique {T : Table} (h : NumberedAs T e id) (h' : NumberedAs T e id') :
    id = id' :=
  Bytes.ofUInt32_injective (Option.some.inj (h.symm.trans h'))

end Entity

open Entity

/-- The contents of an entity table after so many numbers of each kind. -/
structure Numbered (T : Table) (count : EntityKind → Nat) : Prop where
  counter : ∀ kind, T.cell? (counterRow kind) counterColumn =
    if count kind = 0 then none else some (Bytes.ofInt64 (Int64.ofNat (count kind)))
  record : ∀ (e : Entity) cell, T.cell? e.nameRow idColumn = some cell →
    ∃ id, cell = Bytes.ofUInt32 id ∧ 0 < id.toNat ∧ id.toNat ≤ count e.kind ∧
      T.cell? (numberRow e.kind id) nameColumn = some (Utf8.encode e.name)

namespace Numbered

variable {T : Table} {count : EntityKind → Nat} {e e' : Entity} {kind : EntityKind}
  {id : UInt32}

theorem empty : Numbered .empty fun _ => 0 :=
  ⟨fun _ => rfl, fun _ _ h => by simp [Table.cell?, Table.columns, Table.empty] at h⟩

theorem recorded (h : Numbered T count) (hid : NumberedAs T e id) :
    0 < id.toNat ∧ id.toNat ≤ count e.kind ∧
      T.cell? (numberRow e.kind id) nameColumn = some (Utf8.encode e.name) := by
  obtain ⟨id', hcell, hpos, hle, hrecord⟩ := h.record e _ hid
  obtain rfl := Bytes.ofUInt32_injective hcell
  exact ⟨hpos, hle, hrecord⟩

theorem injective (h : Numbered T count) (hid : NumberedAs T e id) (hid' : NumberedAs T e' id)
    (hkind : e.kind = e'.kind) : e = e' := by
  have hrecord := (h.recorded hid).2.2
  rw [hkind, (h.recorded hid').2.2] at hrecord
  cases e
  cases e'
  simp only [Entity.mk.injEq]
  exact ⟨hkind, (Utf8.encode_injective _ _ (Option.some.inj hrecord)).symm⟩

theorem add_counter (h : Numbered T count) (kind : EntityKind) :
    T.add (counterRow kind) counterColumn 1 =
      .ok (Int64.ofNat (count kind + 1),
        T.setCell (counterRow kind) counterColumn
          (some (Bytes.ofInt64 (Int64.ofNat (count kind + 1))))) := by
  have hcounter := h.counter kind
  split at hcounter
  · next hzero => simpa [hzero] using Table.add_none 1 hcounter
  · simpa [Int64.ofNat_add] using Table.add_some 1 hcounter

theorem counted (h : Numbered T count) (kind : EntityKind) :
    Numbered (T.setCell (counterRow kind) counterColumn
        (some (Bytes.ofInt64 (Int64.ofNat (count kind + 1)))))
      fun kind' => if kind' = kind then count kind + 1 else count kind' := by
  constructor
  · intro kind'
    rw [Table.cell?_setCell]
    by_cases hkind : kind' = kind
    · subst hkind
      simp
    · have hrow : counterRow kind' ≠ counterRow kind := fun h => hkind (counterRow_injective h)
      simp [hrow, hkind, h.counter kind']
  · intro e cell hcell
    simp only [Table.cell?_setCell, nameRow_ne_counterRow, false_and, if_false] at hcell
    obtain ⟨id, hid, hpos, hle, hrecord⟩ := h.record e cell hcell
    refine ⟨id, hid, hpos, ?_, ?_⟩
    · split
      · next hkind => rw [← hkind]; omega
      · exact hle
    · simpa [Table.cell?_setCell] using hrecord

theorem setRecord (h : Numbered T count) (hfree : ∀ e, e.kind = kind → ¬ NumberedAs T e id)
    (name : Option Bytes) : Numbered (T.setCell (numberRow kind id) nameColumn name) count := by
  constructor
  · intro kind'
    simpa [Table.cell?_setCell] using h.counter kind'
  · intro e cell hcell
    simp only [Table.cell?_setCell, nameRow_ne_numberRow, false_and, if_false] at hcell
    obtain ⟨id', rfl, hpos, hle, hrecord⟩ := h.record e cell hcell
    refine ⟨id', rfl, hpos, hle, ?_⟩
    have hrow : numberRow e.kind id' ≠ numberRow kind id := by
      intro hrow
      obtain ⟨hkind, rfl⟩ := numberRow_injective hrow
      exact hfree e hkind hcell
    simpa [Table.cell?_setCell, hrow] using hrecord

theorem claim (h : Numbered T count) (hpos : 0 < id.toNat) (hle : id.toNat ≤ count e.kind)
    (hrecord : T.cell? (numberRow e.kind id) nameColumn = some (Utf8.encode e.name)) :
    Numbered (T.setCell e.nameRow idColumn (some (Bytes.ofUInt32 id))) count := by
  constructor
  · intro kind
    simpa [Table.cell?_setCell] using h.counter kind
  · intro e' cell hcell
    rw [Table.cell?_setCell] at hcell
    by_cases he : e' = e
    · subst he
      simp only [and_self, if_true, Option.some.injEq] at hcell
      exact ⟨id, hcell.symm, hpos, hle, by simpa [Table.cell?_setCell] using hrecord⟩
    · have hrow : e'.nameRow ≠ e.nameRow := fun h => he (nameRow_injective h)
      simp only [hrow, false_and, if_false] at hcell
      obtain ⟨id', hid', hpos', hle', hrecord'⟩ := h.record e' cell hcell
      exact ⟨id', hid', hpos', hle', by simpa [Table.cell?_setCell] using hrecord'⟩

end Numbered

end Rollup
