import Rollup.Config.Basic
import Rollup.MetricStore
import Rollup.Progress.Table

namespace Rollup

/-- The tables of one configuration. All who use them share a memory of numbers. -/
structure Datasets where
  config : Config
  salting : Salting
  cache : Nat
  opened : SortedMap Resolution MetricTable := .empty

namespace Datasets

/-- The name under which a fact table records into how many regions it was split. -/
def splitsProperty : String := "metrics.table.splits"

def ofConfig (config : Config) (cache : Nat) : Except Error Datasets := do
  config.validate
  let salting ← Salting.ofBuckets config.buckets
  return { config, salting, cache }

def entityTable (d : Datasets) : EntityTable := ⟨.system d.config.entityTable, d.cache⟩

def openEntities (d : Datasets) (c : Catalog) : EntityTable × Catalog :=
  (d.entityTable, c.create d.entityTable.table {})

def factProperties (d : Datasets) (r : Resolution) : TableProperties where
  ttlSeconds := (d.config.retentionFor r).map Duration.seconds
  readlessIncrement := true
  splits := d.salting.splitKeys d.config.splits
  splitPolicy := some d.config.splitPolicy
  extra := SortedMap.singleton splitsProperty (toString d.config.splits)

/-- The fact tables of a resolution as they are found, with the current one created if
need be. -/
def findTable (d : Datasets) (r : Resolution) (c : Catalog) : MetricTable × Catalog :=
  let roll := d.config.rollFor r
  let (entities, c) := d.openEntities c
  let legacyId := TableId.system (r.tableName d.config.legacyFactStem)
  let legacy := (c.find? legacyId).map fun _ => FactTable.legacy legacyId entities r roll
  let currentId := TableId.system (r.tableName d.config.factStem)
  let c := c.create currentId (d.factProperties r)
  (.choose legacy (.current currentId entities r roll d.salting), c)

def openTable (d : Datasets) (r : Resolution) (c : Catalog) : MetricTable × Datasets × Catalog :=
  match d.opened.get? r with
  | some table => (table, d, c)
  | none =>
    let (table, c) := d.findTable r c
    (table, { d with opened := d.opened.insert r table }, c)

def openTables (d : Datasets) (c : Catalog) : List Resolution → Datasets × Catalog
  | [] => (d, c)
  | r :: rs =>
    let (_, d, c) := d.openTable r c
    d.openTables c rs

def openStore (d : Datasets) (c : Catalog) : MetricStore × Datasets × Catalog :=
  let (d, c) := d.openTables c Resolution.all
  let table := fun r => ((d.opened.get? r).getD (d.findTable r c).1)
  ({ table, nativeTtl := c.nativeTtl }, d, c)

def openProgress (d : Datasets) (c : Catalog) : ProgressTable × Catalog :=
  let id := TableId.system d.config.progressTable
  (⟨id⟩, c.create id {})

def setUp (d : Datasets) (c : Catalog) : Datasets × Catalog :=
  let (_, c) := d.openEntities c
  let (d, c) := d.openTables c Resolution.all
  let (_, c) := d.openProgress c
  (d, c)

end Datasets

end Rollup
