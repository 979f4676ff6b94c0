import Rollup.Proofs.Opening

namespace Rollup

open Storage

namespace Catalog

variable {new : TableId → Prop} {c c' c'' : Catalog} {id : TableId}

/-- Missing tables have been created, and all others are as they were. -/
def Extends (new : TableId → Prop) (c c' : Catalog) : Prop :=
  ∀ id, c'.find? id = c.find? id ∨
    new id ∧ c.find? id = none ∧ ∃ properties, c'.find? id = some { properties }

theorem Extends.refl (new : TableId → Prop) (c : Catalog) : c.Extends new c := fun _ => .inl rfl

theorem Extends.trans (h : c.Extends new c') (h' : c'.Extends new c'') : c.Extends new c'' := by
  intro id
  rcases h' id with heq | ⟨hnew, hnone, hcreated⟩
  · rw [heq]
    exact h id
  · rcases h id with heq | ⟨-, -, properties, hthere⟩
    · exact .inr ⟨hnew, heq ▸ hnone, hcreated⟩
    · rw [hnone] at hthere
      cases hthere

theorem extends_create (new : TableId → Prop) (hnew : new id) (c : Catalog) (properties : TableProperties) :
    c.Extends new (c.create id properties) := by
  intro id'
  cases hid : c.find? id with
  | some stored =>
      left
      simp only [create, hid]
  | none =>
      simp only [create, hid, find?_put]
      split
      · next heq =>
        subst heq
        exact .inr ⟨hnew, hid, properties, rfl⟩
      · exact .inl rfl

theorem isSome_create (c : Catalog) (id : TableId) (properties : TableProperties) :
    ((c.create id properties).find? id).isSome := by
  cases hid : c.find? id with
  | some stored => simp [create, hid]
  | none => simp [create, hid, find?_put]

theorem Extends.mono {new' : TableId → Prop} (hnew : ∀ id, new id → new' id)
    (h : c.Extends new c') : c.Extends new' c' :=
  fun id => (h id).imp_right fun hcreated => ⟨hnew id hcreated.1, hcreated.2⟩

theorem Extends.isSome (h : c.Extends new c') (hid : (c.find? id).isSome) :
    (c'.find? id).isSome := by
  rcases h id with heq | ⟨-, -, properties, hthere⟩
  · rwa [heq]
  · rw [hthere]
    rfl

theorem Extends.find?_eq (h : c.Extends new c') (hid : ¬ new id) : c'.find? id = c.find? id :=
  (h id).resolve_right fun hcreated => hid hcreated.1

end Catalog

namespace Datasets

variable {d : Datasets} {c : Catalog} {r : Resolution}

/-- The tables that opening creates where they are missing. -/
def Owns (d : Datasets) (id : TableId) : Prop :=
  id = d.entityTable.table ∨ ∃ r, id = (d.currentTable r).table

theorem extends_findTable (d : Datasets) (r : Resolution) (c : Catalog) :
    c.Extends (fun id => id = d.entityTable.table ∨ id = (d.currentTable r).table)
      (d.findTable r c).2 :=
  (Catalog.extends_create _ (.inl rfl) c _).trans (Catalog.extends_create _ (.inr rfl) _ _)

theorem extends_openTables (d : Datasets) (c : Catalog) (rs : List Resolution) :
    c.Extends d.Owns (d.openTables c rs).2 := by
  induction rs generalizing d c with
  | nil => exact .refl _ c
  | cons r rs ih =>
      simp only [openTables, openTable]
      split
      · exact ih d c
      · -- what is open does not matter for the names of the tables
        have hfirst : c.Extends d.Owns (d.findTable r c).2 :=
          (d.extends_findTable r c).mono fun id => Or.imp_right fun h => ⟨r, h⟩
        exact hfirst.trans (ih { d with opened := _ } _)

theorem extends_openStore (d : Datasets) (c : Catalog) : c.Extends d.Owns (d.openStore c).2.2 :=
  d.extends_openTables c Resolution.all

theorem legacyTable_ne {r' : Resolution} (h : r' ≠ r) :
    (d.legacyTable r').table ≠ (d.currentTable r).table := by
  intro heq
  simp only [legacyTable, currentTable, FactTable.legacy, FactTable.current, TableId.system,
    TableId.mk.injEq, true_and] at heq
  exact h (Resolution.tableName_injective heq).1

/-- Every table that is open was found without a legacy one and is there, and there is no
legacy table of the resolutions that are not open yet. -/
structure Unbridged (d : Datasets) (c : Catalog) : Prop where
  opened : ∀ r table, d.opened.get? r = some table → table = .direct (d.currentTable r) ∧
    (c.find? d.entityTable.table).isSome ∧ (c.find? (d.currentTable r).table).isSome
  unopened : ∀ r, d.opened.get? r = none → c.find? (d.legacyTable r).table = none

namespace Unbridged

variable (hstrings : ∀ r, d.entityTable.table ≠ (d.legacyTable r).table)
include hstrings

theorem find (h : d.Unbridged c) (hr : d.opened.get? r = none) :
    (d.findTable r c).1 = .direct (d.currentTable r) := by
  have hcreate : c.Extends (· = d.entityTable.table) (c.create d.entityTable.table {}) :=
    Catalog.extends_create (· = d.entityTable.table) rfl c {}
  have hlegacy : (c.create d.entityTable.table {}).find?
      (.system (r.tableName d.config.legacyFactStem)) = none :=
    (hcreate.find?_eq (Ne.symm (hstrings r))).trans (h.unopened r hr)
  simp only [findTable, openEntities, hlegacy]
  rfl

theorem opens (h : d.Unbridged c) (hr : d.opened.get? r = none) :
    { d with opened := d.opened.insert r (d.findTable r c).1 }.Unbridged (d.findTable r c).2 := by
  have hextends := d.extends_findTable r c
  have hentities : ((d.findTable r c).2.find? d.entityTable.table).isSome := by
    have hcurrent : (c.create d.entityTable.table {}).Extends (fun _ => True)
        (d.findTable r c).2 := Catalog.extends_create _ trivial _ _
    exact hcurrent.isSome (Catalog.isSome_create c _ {})
  refine ⟨fun r' table hget => ?_, fun r' hget => ?_⟩
  all_goals
    rw [SortedMap.get?_insert] at hget
    split at hget
  · next heq =>
    cases hget
    subst heq
    exact ⟨h.find hstrings hr, hentities, Catalog.isSome_create _ _ _⟩
  · obtain ⟨hdirect, -, hcurrent⟩ := h.opened r' table hget
    exact ⟨hdirect, hentities, hextends.isSome hcurrent⟩
  · cases hget
  · next hne =>
    refine (hextends.find?_eq ?_).trans (h.unopened r' hget)
    exact not_or.mpr ⟨Ne.symm (hstrings r'), legacyTable_ne hne⟩

theorem openTables (h : d.Unbridged c) (rs : List Resolution) :
    (d.openTables c rs).1.Unbridged (d.openTables c rs).2 := by
  induction rs generalizing d c with
  | nil => exact h
  | cons r rs ih =>
      simp only [Datasets.openTables, openTable]
      cases hr : d.opened.get? r with
      | some table => exact ih hstrings h
      | none => exact ih hstrings (h.opens hstrings hr)

end Unbridged

theorem get?_openTables (d : Datasets) (c : Catalog) {rs : List Resolution}
    (h : r ∈ rs ∨ (d.opened.get? r).isSome) :
    ((d.openTables c rs).1.opened.get? r).isSome := by
  induction rs generalizing d c with
  | nil => exact h.resolve_left List.not_mem_nil
  | cons r' rs ih =>
      simp only [openTables, openTable]
      cases hr' : d.opened.get? r' with
      | some table =>
          refine ih d c ?_
          rcases h with h | h
          · rcases List.mem_cons.mp h with rfl | h
            · exact .inr (by rw [hr']; rfl)
            · exact .inl h
          · exact .inr h
      | none =>
          refine ih _ _ ?_
          rw [SortedMap.get?_insert]
          split
          · exact .inr rfl
          · next hne =>
            exact h.imp_left fun h => (List.mem_cons.mp h).resolve_left hne

theorem direct_openStore (hstrings : ∀ r, d.entityTable.table ≠ (d.legacyTable r).table)
    (hopened : d.opened = .empty) (hlegacy : ∀ r, c.find? (d.legacyTable r).table = none)
    (r : Resolution) :
    (d.openStore c).1.table r = .direct (d.currentTable r) ∧
      ((d.openStore c).2.2.find? d.entityTable.table).isSome ∧
      ((d.openStore c).2.2.find? (d.currentTable r).table).isSome := by
  have hstart : d.Unbridged c :=
    ⟨fun r table hget => by simp [hopened] at hget, fun r _ => hlegacy r⟩
  have hend := hstart.openTables hstrings Resolution.all
  obtain ⟨table, htable⟩ := Option.isSome_iff_exists.mp
    (d.get?_openTables c (.inl (Resolution.mem_all r)))
  obtain ⟨-, hnames⟩ := sound_openTables (d := d) (fun r table hget => by simp [hopened] at hget) c
    Resolution.all
  have hcurrent := (hnames r).1
  have hentities : (d.openTables c Resolution.all).1.entityTable = d.entityTable :=
    congrArg FactTable.entities hcurrent
  obtain ⟨hdirect, hthere, hthere'⟩ := hend.opened r table htable
  rw [hcurrent] at hdirect hthere'
  rw [hentities] at hthere
  refine ⟨?_, hthere, hthere'⟩
  simp only [openStore, htable, Option.getD_some, hdirect]

theorem bridged_findTable (hlegacy : (c.find? (d.legacyTable r).table).isSome) :
    (d.findTable r c).1 = .bridged (d.legacyTable r) (d.currentTable r) := by
  have hcreate : c.Extends (fun _ => True) (c.create d.entityTable.table {}) :=
    Catalog.extends_create _ trivial c {}
  obtain ⟨stored, hstored⟩ := Option.isSome_iff_exists.mp (hcreate.isSome hlegacy)
  have hfound : (c.create d.entityTable.table {}).find?
      (.system (r.tableName d.config.legacyFactStem)) = some stored := hstored
  simp only [findTable, openEntities, hfound]
  rfl

theorem bridged_openTables (hlegacy : (c.find? (d.legacyTable r).table).isSome)
    (hopened : ∀ table, d.opened.get? r = some table →
      table = .bridged (d.legacyTable r) (d.currentTable r)) (rs : List Resolution) :
    ∀ table, (d.openTables c rs).1.opened.get? r = some table →
      table = .bridged (d.legacyTable r) (d.currentTable r) := by
  induction rs generalizing d c with
  | nil => exact hopened
  | cons r' rs ih =>
      simp only [openTables, openTable]
      cases hr' : d.opened.get? r' with
      | some table => exact ih hlegacy hopened
      | none =>
          refine ih (d := { d with opened := _ }) ((d.extends_findTable r' c).isSome hlegacy) ?_
          intro table hget
          rw [SortedMap.get?_insert] at hget
          split at hget
          · next heq =>
            cases hget
            subst heq
            exact bridged_findTable hlegacy
          · exact hopened table hget

theorem bridged_openStore (hopened : d.opened = .empty)
    (hlegacy : (c.find? (d.legacyTable r).table).isSome) :
    (d.openStore c).1.table r = .bridged (d.legacyTable r) (d.currentTable r) := by
  obtain ⟨table, htable⟩ := Option.isSome_iff_exists.mp
    (d.get?_openTables c (.inl (Resolution.mem_all r)))
  have hbridged := bridged_openTables hlegacy (fun _ hget => by simp [hopened] at hget) _ table
    htable
  simp only [openStore, htable, Option.getD_some, hbridged]

end Datasets

end Rollup
