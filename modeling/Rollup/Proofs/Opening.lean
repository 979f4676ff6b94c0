import Mathlib.Data.UInt
import Rollup.Datasets
import Rollup.Proofs.Fact.Contents

namespace Rollup

namespace Resolution

theorem toList_tableName (r : Resolution) (stem : String) :
    (r.tableName stem).toList =
      stem.toList ++ ('.' :: 't' :: 's' :: '.' :: (toString r.width.toInt).toList) := by
  simp [tableName, toString, String.toList_append]

theorem take_reverse_tableName (r : Resolution) (stem : String) :
    (r.tableName stem).toList.reverse.take 2 = match r with
      | second => ['1', '.']
      | minute => ['0', '6']
      | hour => ['0', '0']
      | total => ['7', '4'] := by
  have hwidth : (toString r.width.toInt).toList = match r with
      | second => ['1']
      | minute => ['6', '0']
      | hour => ['3', '6', '0', '0']
      | total => ['2', '1', '4', '7', '4', '8', '3', '6', '4', '7'] := by
    cases r <;> decide
  rw [toList_tableName, hwidth]
  cases r <;> simp

theorem tableName_injective {r r' : Resolution} {stem stem' : String}
    (h : r.tableName stem = r'.tableName stem') : r = r' ∧ stem = stem' := by
  have hr : r = r' := by
    have htail := take_reverse_tableName r stem
    rw [h, take_reverse_tableName] at htail
    cases r <;> cases r' <;> first | rfl | simp at htail
  subst hr
  refine ⟨rfl, ?_⟩
  have hlist := congrArg String.toList h
  rw [toList_tableName, toList_tableName] at hlist
  exact String.toList_injective (List.append_cancel_right hlist)

end Resolution

namespace MetricTable

def generations : MetricTable → List FactTable
  | direct current => [current]
  | bridged legacy current => [legacy, current]

end MetricTable

namespace MetricStore

/-- No table is in use as the legacy and the current table of a resolution at once. -/
def Separate (store : MetricStore) : Prop :=
  ∀ r legacy current, store.table r = .bridged legacy current → legacy.table ≠ current.table

end MetricStore

namespace Datasets

variable {d : Datasets} {r r' : Resolution} {t t' : FactTable} {store : MetricStore}

def usual (config : Config) : Datasets where
  config := config
  salting := ⟨16, Nat.succ_pos 15, Nat.le_of_ble_eq_true rfl⟩
  cache := 0

def currentTable (d : Datasets) (r : Resolution) : FactTable :=
  .current (.system (r.tableName d.config.factStem)) d.entityTable r (d.config.rollFor r) d.salting

def legacyTable (d : Datasets) (r : Resolution) : FactTable :=
  .legacy (.system (r.tableName d.config.legacyFactStem)) d.entityTable r (d.config.rollFor r)

def Named (d : Datasets) (r : Resolution) (table : MetricTable) : Prop :=
  table = .direct (d.currentTable r) ∨ table = .bridged (d.legacyTable r) (d.currentTable r)

theorem named_findTable (d : Datasets) (r : Resolution) (c : Catalog) :
    d.Named r (d.findTable r c).1 := by
  simp only [findTable, openEntities]
  cases (c.create d.entityTable.table {}).find?
      (TableId.system (r.tableName d.config.legacyFactStem)) with
  | none => exact .inl rfl
  | some stored => exact .inr rfl

def Sound (d : Datasets) : Prop := ∀ r table, d.opened.get? r = some table → d.Named r table

theorem sound_openTables (hd : d.Sound) (c : Catalog) (rs : List Resolution) :
    (d.openTables c rs).1.Sound ∧ ∀ r, (d.openTables c rs).1.currentTable r = d.currentTable r ∧
      (d.openTables c rs).1.legacyTable r = d.legacyTable r := by
  induction rs generalizing d c with
  | nil => exact ⟨hd, fun r => ⟨rfl, rfl⟩⟩
  | cons r rs ih =>
      simp only [openTables, openTable]
      split
      · exact ih hd c
      · refine ih (d := { d with opened := d.opened.insert r (d.findTable r c).1 }) ?_ _
        intro r' table hget
        rw [SortedMap.get?_insert] at hget
        split at hget
        · next heq =>
          cases hget
          subst heq
          exact named_findTable d r' c
        · exact hd r' table hget

theorem named_openStore (hd : d.Sound) (c : Catalog) (r : Resolution) :
    d.Named r ((d.openStore c).1.table r) := by
  obtain ⟨hsound, htables⟩ := sound_openTables hd c Resolution.all
  have hnamed : ∀ table, (d.openTables c Resolution.all).1.Named r table → d.Named r table := by
    intro table h
    rwa [Named, (htables r).1, (htables r).2] at h
  refine hnamed _ ?_
  simp only [openStore]
  cases hget : (d.openTables c Resolution.all).1.opened.get? r with
  | none => exact named_findTable _ r _
  | some table => exact hsound r table hget

theorem sound_ofConfig {config : Config} {cache : Nat} (h : ofConfig config cache = .ok d) :
    d.Sound ∧ d.config = config := by
  simp only [ofConfig, bind, Except.bind, pure, Except.pure] at h
  split at h
  · cases h
  · split at h
    · cases h
    · cases h
      exact ⟨fun r table hget => by simp at hget, rfl⟩

theorem separate_of_stem_ne (hstems : d.config.legacyFactStem ≠ d.config.factStem)
    (hnamed : ∀ r, d.Named r (store.table r)) : store.Separate := by
  intro r legacy current htable heq
  rcases hnamed r with hdirect | hbridged
  · rw [hdirect] at htable
    cases htable
  · rw [hbridged] at htable
    cases htable
    simp only [legacyTable, currentTable, FactTable.legacy, FactTable.current, TableId.system,
      TableId.mk.injEq, true_and] at heq
    exact hstems (Resolution.tableName_injective heq).2

theorem Named.generations {table : MetricTable} (h : d.Named r table)
    (ht : t ∈ table.generations) : t = d.currentTable r ∨ t = d.legacyTable r := by
  rcases h with rfl | rfl
  · exact .inl (List.mem_singleton.mp ht)
  · simp only [MetricTable.generations, List.mem_cons, List.not_mem_nil, or_false] at ht
    exact ht.symm

theorem Named.resolution {table : MetricTable} (h : d.Named r table)
    (ht : t ∈ table.generations) : t.resolution = r := by
  rcases h.generations ht with rfl | rfl <;> rfl

theorem Named.entities {table : MetricTable} (h : d.Named r table) :
    table.current.entities = d.entityTable := by
  rcases h with rfl | rfl <;> rfl

theorem Named.current {table : MetricTable} (h : d.Named r table) :
    table.current = d.currentTable r := by
  rcases h with rfl | rfl <;> rfl

theorem entities_openStore (hd : d.Sound) (c : Catalog) (r : Resolution) :
    ((d.openStore c).1.table r).current.entities = d.entityTable :=
  (named_openStore hd c r).entities

theorem Named.rolled {table : MetricTable} (h : d.Named r table) (ht : t ∈ table.generations) :
    t.Rolled := by
  rcases h.generations ht with rfl | rfl <;> exact ⟨Place.roll_pos .., Place.roll_le ..⟩

theorem eq_of_table_eq (hnamed : ∀ r, d.Named r (store.table r)) (hseparate : store.Separate)
    (h : t ∈ (store.table r).generations) (h' : t' ∈ (store.table r').generations)
    (heq : t.table = t'.table) : r = r' ∧ t = t' := by
  have hname : ∀ stem stem', TableId.system (r.tableName stem) =
      TableId.system (r'.tableName stem') → r = r' := by
    intro stem stem' h
    simp only [TableId.system, TableId.mk.injEq, true_and] at h
    exact (Resolution.tableName_injective h).1
  obtain rfl : r = r' := by
    rcases (hnamed r).generations h with rfl | rfl <;>
      rcases (hnamed r').generations h' with rfl | rfl <;> exact hname _ _ heq
  refine ⟨rfl, ?_⟩
  cases htable : store.table r with
  | direct current =>
      simp only [htable, MetricTable.generations, List.mem_singleton] at h h'
      rw [h, h']
  | bridged legacy current =>
      have hne := hseparate r legacy current htable
      simp only [htable, MetricTable.generations, List.mem_cons, List.not_mem_nil, or_false] at h h'
      rcases h with rfl | rfl <;> rcases h' with rfl | rfl
      · rfl
      · exact absurd heq hne
      · exact absurd heq.symm hne
      · rfl

end Datasets

end Rollup
