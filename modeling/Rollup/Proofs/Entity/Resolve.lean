import Rollup.Entity.Numbering
import Rollup.Proofs.Entity.Numbered
import Rollup.Proofs.Storage.Run

namespace Rollup

open Storage Entity

namespace EntityTable

variable {t : EntityTable} {s s' : Storage} {T : Table} {count : EntityKind → Nat}
  {e : Entity} {id : UInt32}

def exhausted (kind : EntityKind) : Error := .internal s!"{kind.name} id space exhausted"

/-- The table is in reach and in order, and the memory holds nothing but its numbers. The
numbers may have run out. -/
structure Legible (t : EntityTable) (s : Storage) : Prop where
  table : ∃ T count, s.Holds t.table T ∧ Numbered T count
  memory : ∀ e id, s.memory t.cache e = some id → NumberedAs (s.contents t.table) e id

/-- Beside that, no more numbers have been given out than there are. -/
structure Ready (t : EntityTable) (s : Storage) : Prop where
  table : ∃ T count, s.Holds t.table T ∧ Numbered T count ∧ ∀ kind, count kind ≤ 4294967295
  memory : ∀ e id, s.memory t.cache e = some id → NumberedAs (s.contents t.table) e id

theorem Ready.legible (h : t.Ready s) : t.Legible s := by
  obtain ⟨T, count, hT, hn, -⟩ := h.table
  exact ⟨⟨T, count, hT, hn⟩, h.memory⟩

theorem Legible.ready (h : t.Legible s') (hs : t.Ready s) (hcatalog : s'.catalog = s.catalog) :
    t.Ready s' := by
  obtain ⟨T, count, hT, hn, hcount⟩ := hs.table
  exact ⟨⟨T, count, by rwa [Holds, hcatalog], hn, hcount⟩, h.memory⟩

/-- Numbers stay what they are, and no other table changes. -/
structure Grows (t : EntityTable) (s s' : Storage) : Prop where
  numbers : ∀ e id, NumberedAs (s.contents t.table) e id →
    NumberedAs (s'.contents t.table) e id
  others : ∀ other T, other ≠ t.table → s.Holds other T → s'.Holds other T

theorem Grows.refl (t : EntityTable) (s : Storage) : t.Grows s s :=
  ⟨fun _ _ h => h, fun _ _ _ h => h⟩

theorem Grows.trans {s'' : Storage} (h : t.Grows s s') (h' : t.Grows s' s'') :
    t.Grows s s'' :=
  ⟨fun e id hid => h'.numbers e id (h.numbers e id hid),
    fun other T hne hT => h'.others other T hne (h.others other T hne hT)⟩

theorem Grows.of_catalog_eq (h : s'.catalog = s.catalog) : t.Grows s s' :=
  ⟨fun e id hid => by rwa [contents, h], fun _ _ _ hT => by rwa [Holds, h]⟩

theorem read_run (h : s.Holds t.table T) (hn : Numbered T count) (e : Entity) :
    ∃ found, (t.read e).run answer s = (.ok found, s) ∧
      ∀ id, found = some id ↔ NumberedAs T e id := by
  simp only [read, Program.bind_eq]
  rw [Program.run_bind_of_ok (run_get h e.nameRow idColumn)]
  cases hcell : T.cell? e.nameRow idColumn with
  | none => exact ⟨none, rfl, fun id => by simp [NumberedAs, hcell]⟩
  | some cell =>
      obtain ⟨id, rfl, -⟩ := hn.record e cell hcell
      refine ⟨some id, by simp [readId_ofUInt32, Except.map], ?_⟩
      intro id'
      rw [NumberedAs, hcell]
      constructor
      · rintro ⟨⟩
        rfl
      · intro hid
        rw [Bytes.ofUInt32_injective (Option.some.inj hid)]

theorem inRange_iff {n : Nat} (h : n < 2 ^ 64) :
    (decide (0 ≤ Int64.ofNat n) && decide (Int64.ofNat n ≤ 4294967295)) = true ↔
      n ≤ 4294967295 := by
  have hn : (Int64.ofNat n).toInt = (n : Int).bmod (2 ^ 64) := Int64.toInt_ofNat
  have hmax : (4294967295 : Int64).toInt = 4294967295 := rfl
  simp only [Bool.and_eq_true, decide_eq_true_eq, Int64.le_iff_toInt_le, hn, hmax,
    Int64.toInt_zero, Int.bmod_def]
  omega

theorem allocate_run_exhausted (h : s.Holds t.table T) (hn : Numbered T count)
    (hcount : 4294967295 ≤ count e.kind) (hbound : count e.kind + 1 < 2 ^ 63) :
    (t.allocate e).run answer s = (.error (exhausted e.kind),
      s.update t.table (T.setCell (counterRow e.kind) counterColumn
        (some (Bytes.ofInt64 (Int64.ofNat (count e.kind + 1)))))) := by
  simp only [allocate, Program.bind_eq]
  rw [Program.run_bind_of_ok (run_incrementAndGet h (hn.add_counter e.kind)), if_neg]
  · rfl
  · rw [inRange_iff (by omega)]
    omega

theorem allocate_run (h : s.Holds t.table T) (hn : Numbered T count)
    (hcount : count e.kind < 4294967295) (hfree : T.cell? e.nameRow idColumn = none) :
    ∃ id s' T', (t.allocate e).run answer s = (.ok id, s') ∧ s'.Holds t.table T' ∧
      Numbered T' (fun kind => if kind = e.kind then count e.kind + 1 else count kind) ∧
      NumberedAs T' e id ∧ (∀ e' id', NumberedAs T e' id' → NumberedAs T' e' id') ∧
      (∀ other U, other ≠ t.table → s.Holds other U → s'.Holds other U) ∧
      s'.caches = s.caches := by
  let id := UInt32.ofNat (count e.kind + 1)
  let counter := Bytes.ofInt64 (Int64.ofNat (count e.kind + 1))
  let T₁ := T.setCell (counterRow e.kind) counterColumn (some counter)
  let T₂ := T₁.setCell (numberRow e.kind id) nameColumn (some (Utf8.encode e.name))
  let T₃ := T₂.setCell e.nameRow idColumn (some (Bytes.ofUInt32 id))
  let count' := fun kind => if kind = e.kind then count e.kind + 1 else count kind
  have hid : id.toNat = count e.kind + 1 := UInt32.toNat_ofNat_of_lt' (by
    simp only [UInt32.size]; omega)
  have hcells : ∀ e' : Entity, T₂.cell? e'.nameRow idColumn = T.cell? e'.nameRow idColumn := by
    intro e'
    simp [T₂, T₁, Table.cell?_setCell]
  have hn₁ : Numbered T₁ count' := hn.counted e.kind
  -- the number is beyond all that were given out before
  have hnew : ∀ e' : Entity, e'.kind = e.kind → ¬ NumberedAs T₁ e' id := by
    intro e' hkind hid'
    have hid₀ : NumberedAs T e' id := by
      simpa [T₁, numberedAs_setCell] using hid'
    have hle := (hn.recorded hid₀).2.1
    rw [hkind, hid] at hle
    omega
  have hn₂ : Numbered T₂ count' := hn₁.setRecord hnew _
  have hn₃ : Numbered T₃ count' :=
    hn₂.claim (by omega) (by simp [count', hid]) (by simp [T₂, Table.cell?_setCell])
  have h₁ := h.update_self T₁
  have h₂ := h₁.update_self T₂
  have h₃ := h₂.update_self T₃
  refine ⟨id, _, T₃, ?_, h₃, hn₃, by simp [NumberedAs, T₃, Table.cell?_setCell], ?_, ?_, rfl⟩
  · simp only [allocate, Program.bind_eq]
    rw [Program.run_bind_of_ok (run_incrementAndGet h (hn.add_counter e.kind)),
      if_pos ((inRange_iff (by omega)).mpr (by omega))]
    simp only [Int64.toUInt64_ofNat', UInt64.toUInt32_ofNat']
    rw [Program.run_bind_of_ok (run_put h₁ (numberRow e.kind id) nameColumn _),
      Program.run_bind_of_ok (run_swap h₂ ((hcells e).trans hfree))]
    rfl
  · intro e' id' hid'
    have hne : e' ≠ e := by
      rintro rfl
      rw [NumberedAs, hfree] at hid'
      cases hid'
    have hrow : e'.nameRow ≠ e.nameRow := fun h => hne (nameRow_injective h)
    simpa [NumberedAs, T₃, Table.cell?_setCell, hrow, hcells] using hid'
  · intro other U hne hU
    rwa [holds_update_ne hne, holds_update_ne hne, holds_update_ne hne]

theorem legible_noted (h : t.Legible s) (hid : NumberedAs (s.contents t.table) e id) :
    t.Legible (s.noted t.cache e id) := by
  refine ⟨h.table, ?_⟩
  intro e' id' hmemory
  rw [memory_noted] at hmemory
  split at hmemory
  · next heq =>
    obtain ⟨-, rfl⟩ := heq
    cases hmemory
    exact hid
  · exact h.memory e' id' hmemory

theorem ready_noted (h : t.Ready s) (hid : NumberedAs (s.contents t.table) e id) :
    t.Ready (s.noted t.cache e id) :=
  (legible_noted h.legible hid).ready h rfl

theorem lookup_run (h : t.Legible s) (e : Entity) :
    ∃ found s', (t.lookup e).run answer s = (.ok found, s') ∧ s'.catalog = s.catalog ∧
      t.Legible s' ∧ ∀ id, found = some id ↔ NumberedAs (s.contents t.table) e id := by
  simp only [lookup, Program.bind_eq]
  rw [Program.run_bind_of_ok (run_known s t.cache e)]
  cases hmemory : s.memory t.cache e with
  | some id =>
      have hid := h.memory e id hmemory
      refine ⟨some id, s, rfl, rfl, h, fun id' => ?_⟩
      constructor
      · rintro ⟨⟩
        exact hid
      · intro hid'
        rw [hid.unique hid']
  | none =>
      obtain ⟨T, count, hT, hn⟩ := h.table
      obtain ⟨found, hread, hfound⟩ := read_run hT hn e
      rw [← hT.contents_eq] at hfound
      dsimp only
      rw [Program.run_bind_of_ok hread]
      cases found with
      | none => exact ⟨none, s, rfl, rfl, h, hfound⟩
      | some id =>
          have hid := (hfound id).mp rfl
          exact ⟨some id, s.noted t.cache e id, rfl, rfl, legible_noted h hid, hfound⟩

theorem resolve_run_of_numbered (h : t.Ready s) (hid : NumberedAs (s.contents t.table) e id) :
    ∃ s', (t.resolve e).run answer s = (.ok id, s') ∧ s'.catalog = s.catalog ∧ t.Ready s' := by
  simp only [resolve, Program.bind_eq]
  rw [Program.run_bind_of_ok (run_known s t.cache e)]
  cases hmemory : s.memory t.cache e with
  | some id' =>
      obtain rfl := hid.unique (h.memory e id' hmemory)
      exact ⟨s, rfl, rfl, h⟩
  | none =>
      obtain ⟨T, count, hT, hn, -⟩ := h.table
      obtain ⟨found, hread, hfound⟩ := read_run hT hn e
      obtain rfl := (hfound id).mpr (hT.contents_eq ▸ hid)
      dsimp only
      simp only [readOrAllocate, Program.bind_eq, Program.bind_assoc]
      rw [Program.run_bind_of_ok hread]
      exact ⟨s.noted t.cache e id, rfl, rfl, ready_noted h hid⟩

theorem resolve_run_of_free (hT : s.Holds t.table T) (hn : Numbered T count)
    (hmemory : ∀ e id, s.memory t.cache e = some id → NumberedAs T e id)
    (hfree : T.cell? e.nameRow idColumn = none) :
    (count e.kind < 4294967295 → ∃ id s' T', (t.resolve e).run answer s = (.ok id, s') ∧
      s'.Holds t.table T' ∧
      Numbered T' (fun kind => if kind = e.kind then count e.kind + 1 else count kind) ∧
      (∀ e id, s'.memory t.cache e = some id → NumberedAs T' e id) ∧
      NumberedAs T' e id ∧ t.Grows s s') ∧
    (count e.kind = 4294967295 →
      ∃ s', (t.resolve e).run answer s = (.error (exhausted e.kind), s')) := by
  have hunknown : s.memory t.cache e = none := by
    cases hknown : s.memory t.cache e with
    | none => rfl
    | some id =>
        have hid := hmemory e id hknown
        rw [NumberedAs, hfree] at hid
        cases hid
  obtain ⟨found, hread, hfound⟩ := read_run hT hn e
  have hnone : found = none := by
    cases found with
    | none => rfl
    | some id =>
        have hid := (hfound id).mp rfl
        rw [NumberedAs, hfree] at hid
        cases hid
  subst hnone
  simp only [resolve, readOrAllocate, Program.bind_eq, Program.bind_assoc]
  rw [Program.run_bind_of_ok (run_known s t.cache e)]
  simp only [hunknown]
  rw [Program.run_bind_of_ok hread]
  dsimp only
  constructor
  · intro hcount
    obtain ⟨id, s', T', hrun, hT', hn', hid, hkept, hothers, hcaches⟩ :=
      allocate_run hT hn hcount hfree
    refine ⟨id, s'.noted t.cache e id, T', ?_, hT', hn', ?_, hid, ?_, hothers⟩
    · rw [Program.run_bind_of_ok hrun]
      rfl
    · intro e' id' hknown
      rw [memory_noted] at hknown
      split at hknown
      · next heq =>
        obtain ⟨-, rfl⟩ := heq
        cases hknown
        exact hid
      · rw [memory, hcaches] at hknown
        exact hkept e' id' (hmemory e' id' hknown)
    · intro e' id' hid'
      rw [contents_noted, hT'.contents_eq]
      exact hkept e' id' (hT.contents_eq ▸ hid')
  · intro hcount
    exact ⟨_, Program.run_bind_of_error
      (allocate_run_exhausted hT hn (by omega) (by omega))⟩

theorem cell?_nameRow (hn : Numbered T count) (e : Entity) :
    T.cell? e.nameRow idColumn = none ∨ ∃ id, NumberedAs T e id := by
  cases hcell : T.cell? e.nameRow idColumn with
  | none => exact .inl rfl
  | some cell =>
      obtain ⟨id, rfl, -⟩ := hn.record e cell hcell
      exact .inr ⟨id, hcell⟩

theorem resolve_run (h : t.Ready s) (e : Entity) :
    (∃ id s', (t.resolve e).run answer s = (.ok id, s') ∧ t.Ready s' ∧ t.Grows s s' ∧
      NumberedAs (s'.contents t.table) e id) ∨
    ∃ s', (t.resolve e).run answer s = (.error (exhausted e.kind), s') := by
  obtain ⟨T, count, hT, hn, hcount⟩ := h.table
  have hle := hcount e.kind
  have hcontents := hT.contents_eq
  rcases cell?_nameRow hn e with hfree | ⟨id, hid⟩
  · obtain ⟨hnew, hfull⟩ := resolve_run_of_free hT hn (hcontents ▸ h.memory) hfree
    by_cases hlt : count e.kind < 4294967295
    · obtain ⟨id, s', T', hrun, hT', hn', hmemory, hid, hgrows⟩ := hnew hlt
      rw [← hT'.contents_eq] at hmemory hid
      refine .inl ⟨id, s', hrun, ⟨⟨T', _, hT', hn', fun kind => ?_⟩, hmemory⟩, hgrows, hid⟩
      have := hcount kind
      split <;> omega
    · exact .inr (hfull (by omega))
  · rw [← hcontents] at hid
    obtain ⟨s', hrun, hcatalog, hready⟩ := resolve_run_of_numbered h hid
    have hcontents' : s'.contents t.table = s.contents t.table := by
      simp only [contents, hcatalog]
    exact .inl ⟨id, s', hrun, hready, .of_catalog_eq hcatalog, by rwa [hcontents']⟩

/-- A string that was resolved has the number it was resolved to. -/
theorem of_resolve_run_ok (h : t.Ready s) (hrun : (t.resolve e).run answer s = (.ok id, s')) :
    t.Ready s' ∧ t.Grows s s' ∧ NumberedAs (s'.contents t.table) e id := by
  rcases resolve_run h e with ⟨id', s'', hrun', hready, hgrows, hid⟩ | ⟨s'', hrun'⟩
  · rw [hrun] at hrun'
    cases hrun'
    exact ⟨hready, hgrows, hid⟩
  · rw [hrun] at hrun'
    cases hrun'

end EntityTable

end Rollup
