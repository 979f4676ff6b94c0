import Rollup.Service.Lifecycle

namespace Rollup

structure Deployment where
  datasets : Datasets
  host : Host
  store : Option MetricStore := none
  progress : Option ProgressTable := none
  intake : Option Intake := none
  cleaning : Option Cleaning := none
  service : Option Service := none

namespace Deployment

def aggregator : Nat := 0

def new (config : Config) (clock : Clock) (catalog : Catalog) : Except Error Deployment := do
  let cache := aggregator + 1
  let datasets ← Datasets.ofConfig config cache
  return { datasets, host := { site := { clock, storage := { catalog } }, fresh := cache + 1 } }

def site (d : Deployment) : Site := d.host.site

def catalog (d : Deployment) : Catalog := d.site.storage.catalog

def setSite (d : Deployment) (site : Site) : Deployment :=
  { d with host := { d.host with site } }

def setCatalog (d : Deployment) (catalog : Catalog) : Deployment :=
  d.setSite { d.site with storage := { d.site.storage with catalog } }

def setBus (d : Deployment) (bus : Bus) : Deployment := d.setSite { d.site with bus }

def setClock (d : Deployment) (clock : Clock) : Deployment := d.setSite { d.site with clock }

def settle (d : Deployment) : Deployment := { d with host := d.host.settle }

def advance (d : Deployment) (span : Duration) : Deployment :=
  { d with host := d.host.advance span }

def perform {α : Type} (d : Deployment) (work : Storage.Work α) : Except Error α × Deployment :=
  let (outcome, site) := d.site.perform work
  (outcome, d.setSite site)

/-- Looks at the same tables anew, with nothing open and nothing remembered. -/
def reopen (d : Deployment) : Deployment :=
  let (cache, host) := d.host.number
  { d with datasets := { d.datasets with cache, opened := .empty }, host }

def setUp (d : Deployment) : Deployment :=
  let (datasets, catalog) := d.datasets.setUp d.catalog
  { d.setCatalog catalog with datasets }

def openTable (d : Deployment) (r : Resolution) : MetricTable × Deployment :=
  let (table, datasets, catalog) := d.datasets.openTable r d.catalog
  (table, { d.setCatalog catalog with datasets })

def openEntities (d : Deployment) : EntityTable × Deployment :=
  let (entities, catalog) := d.datasets.openEntities d.catalog
  (entities, d.setCatalog catalog)

/-- Writes values to the legacy table of a resolution, which is created if need be. -/
def writeLegacy (d : Deployment) (r : Resolution) (batch : List Metric) :
    Except Error Unit × Deployment :=
  let (entities, d) := d.openEntities
  let id := TableId.system (r.tableName d.datasets.config.legacyFactStem)
  let table := FactTable.legacy id entities r (d.datasets.config.rollFor r)
  (d.setCatalog (d.catalog.create id {})).perform (table.writeAll batch)

def openStore (d : Deployment) : MetricStore × Deployment :=
  let (store, datasets, catalog) := d.datasets.openStore d.catalog
  (store, { d.setCatalog catalog with datasets, store := some store })

def openProgress (d : Deployment) : ProgressTable × Deployment :=
  let (progress, catalog) := d.datasets.openProgress d.catalog
  (progress, { d.setCatalog catalog with progress := some progress })

def setCleaning (d : Deployment) (store : MetricStore) : Cleaning × Deployment :=
  let (cleaning, host) := Cleaning.new d.datasets.config store d.host
  (cleaning, { d with cleaning := some cleaning, host := d.cleaning.elim host (·.drop host) })

def startCleaning (d : Deployment) (cleaning : Cleaning) : Deployment :=
  let (cleaning, host) := cleaning.start d.host
  { d with cleaning := some cleaning, host }

def stopCleaning (d : Deployment) (cleaning : Cleaning) : Deployment :=
  let (cleaning, host) := cleaning.stop d.host
  { d with cleaning := some cleaning, host }

def dropCleaning (d : Deployment) : Deployment :=
  { d with cleaning := none, host := d.cleaning.elim d.host (·.drop d.host) }

def clean (d : Deployment) (cleaning : Cleaning) : Except Error Nat × Deployment :=
  let (outcome, site) := d.site.clean cleaning.janitor
  (outcome, d.setSite site)

def messaging (d : Deployment) : MessagingConfig := d.datasets.config.messaging.getD {}

def setIntake (d : Deployment) (store : MetricStore) (source : Ingestion.Source)
    (partitions : List Nat) (context : Context) : Intake × Deployment :=
  let (id, host) := d.host.number
  let processor : Ingestion.Processor :=
    { store, progress := source.progress, config := source.config, worker := source.worker
      partitions, context }
  let intake : Intake := { worker := { id, processor, aggregator } }
  (intake, { d with intake := some intake, host })

def startIntake (d : Deployment) (intake : Intake) : Except Error Unit × Deployment :=
  let (outcome, intake, host) := intake.start d.host
  (outcome, { d with intake := some intake, host })

def stopIntake (d : Deployment) (intake : Intake) : Except Error Unit × Deployment :=
  let (outcome, intake, host) := intake.stop d.host
  (outcome, { d with intake := some intake, host })

def restore (d : Deployment) (intake : Intake) : Except Error Unit × Deployment :=
  let (outcome, site) := d.site.restore intake.worker
  (outcome, d.setSite site)

def processOnce (d : Deployment) (intake : Intake) (partition : Nat) :
    Except Error Nat × Deployment :=
  let (outcome, site) := d.site.processOnce intake.worker partition
  (outcome, d.setSite site)

def committed (d : Deployment) (intake : Intake) (partition : Nat) : Option Nat :=
  (d.site.offsets intake.worker).get? partition

/-- Sets up a service with a store of its own, which takes batches from the bus under the
name of a worker if one is given. -/
def setService (d : Deployment) (worker : Option String) : Service × Deployment :=
  let (store, d) := d.openStore
  let (source, d) : Option Ingestion.Source × Deployment :=
    match worker with
    | none => (none, d)
    | some worker =>
      let (progress, d) := d.openProgress
      (some { progress, config := d.messaging, worker }, d)
  let (service, host) := Service.new d.datasets.config store source d.host
  (service, { d with service := some service, host := d.service.elim host (·.drop host) })

def publish (d : Deployment) (service : Service) (batch : List Metric) :
    Except Error Unit × Deployment :=
  let (outcome, host) := service.publish batch d.host
  (outcome, { d with host })

def flush (d : Deployment) (service : Service) : Except Error Nat × Deployment :=
  let (outcome, host) := service.flush d.host
  (outcome, { d with host })

def startUp (d : Deployment) (service : Service) : Except Error Unit × Deployment :=
  let (outcome, service, host) := service.startUp d.host
  (outcome, { d with service := some service, host })

def shutDown (d : Deployment) (service : Service) : Except Error Unit × Deployment :=
  let (outcome, service, host) := service.shutDown d.host
  (outcome, { d with service := some service, host })

end Deployment

end Rollup
