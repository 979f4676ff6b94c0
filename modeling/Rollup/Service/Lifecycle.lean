import Rollup.Datasets
import Rollup.Service.Host

namespace Rollup

structure Ingestion.Source where
  progress : ProgressTable
  config : MessagingConfig
  worker : String := Ingestion.standalone

structure Service where
  config : Config
  store : MetricStore
  aggregator : Nat
  source : Option Ingestion.Source := none
  intake : Option Intake := none
  cleaning : Option Cleaning := none
  flushTask : Option Nat := none
  /-- Whether the service has been shut down; from then on its flushing ends at once. -/
  closing : Bool := false

namespace Service

def new (config : Config) (store : MetricStore) (source : Option Ingestion.Source) (h : Host) :
    Service × Host :=
  let (aggregator, h) := h.number
  ({ config, store, aggregator, source }, h)

def publish (s : Service) (batch : List Metric) (h : Host) : Except Error Unit × Host :=
  h.atSite (·.perform (s.store.addAll batch))

def flush (s : Service) (h : Host) : Except Error Nat × Host :=
  h.atSite (·.flush s.aggregator s.store)

def schedulePhase (s : Service) (h : Host) : Option Retention.Phase :=
  s.cleaning.map (·.phase h)

def startFlushing (s : Service) (h : Host) : Service × Host :=
  match s.flushTask with
  | some _ => (s, h)
  | none =>
    let job := if s.closing then Job.lastFlush s.aggregator s.store
      else Job.flush s.aggregator s.store s.config.flushInterval
    let (task, h) := h.start .zero job
    ({ s with flushTask := some task }, h)

def workerContext : Context :=
  Context.root.child
    (.ofList [("namespace", TableId.systemSpace), ("component", "metrics.processor")])

/-- Starts a new worker on all partitions, which takes the place of the last one. -/
def startIntake (s : Service) (h : Host) : Except Error Unit × Service × Host :=
  match s.source with
  | none => (.ok (), s, h)
  | some source =>
    let (id, h) := h.number
    let processor : Ingestion.Processor :=
      { store := s.store
        progress := source.progress
        config := source.config
        worker := source.worker
        partitions := List.range source.config.partitions
        context := workerContext }
    match Intake.start { worker := { id, processor, aggregator := s.aggregator } } h with
    | (.error e, _, h) => (.error e, s, h)
    | (.ok (), intake, h) => (.ok (), { s with intake := some intake }, h)

/-- Starts a new schedule in place of the last one, unless the engine itself drops what
has expired. -/
def startCleaning (s : Service) (h : Host) : Service × Host :=
  if s.store.nativeTtl then (s, h)
  else
    let (cleaning, h) := Cleaning.new s.config s.store h
    let (cleaning, h) := cleaning.start h
    ({ s with cleaning := some cleaning }, s.cleaning.elim h (·.drop h))

/-- Starts flushing, intake and cleaning in this order. If the intake cannot start, what
was started before goes on. -/
def startUp (s : Service) (h : Host) : Except Error Unit × Service × Host :=
  let (s, h) := s.startFlushing h
  match s.startIntake h with
  | (.error e, s, h) => (.error e, s, h)
  | (.ok (), s, h) =>
    let (s, h) := s.startCleaning h
    (.ok (), s, h)

def stopCleaning (s : Service) (h : Host) : Service × Host :=
  match s.cleaning with
  | none => (s, h)
  | some cleaning => ({ s with cleaning := none }, (cleaning.stop h).2)

def stopIntake (s : Service) (h : Host) : Except Error Unit × Service × Host :=
  match s.intake with
  | none => (.ok (), s, h)
  | some intake =>
    let (outcome, _, h) := intake.stop h
    (outcome, { s with intake := none }, h)

/-- Ends the flushing with a last flush and tells how that went. A task that has made its
last flush before tells how that one went. -/
def stopFlushing (s : Service) (h : Host) : Except Error Unit × Service × Host :=
  match s.flushTask with
  | none => (.ok (), s, h)
  | some task =>
    let s := { s with flushTask := none }
    if h.timeline.alive task then
      let (outcome, h) := s.flush (h.cancel task)
      (outcome.map fun _ => (), s, h)
    else
      let (outcome, h) := h.join task
      (outcome, s, h)

/-- Stops the schedule, the intake and the flushing, each whatever became of the others.
The first failure is reported with the second attached. -/
def shutDown (s : Service) (h : Host) : Except Error Unit × Service × Host :=
  let (s, h) := s.stopCleaning h
  let (ingested, s, h) := s.stopIntake h
  let (flushed, s, h) := { s with closing := true }.stopFlushing h
  (Error.gather [ingested, flushed], s, h)

/-- Gives a service up without shutting it down. Its schedule ends; its other tasks go
on. -/
def drop (s : Service) (h : Host) : Host := s.cleaning.elim h (·.drop h)

end Service

end Rollup
