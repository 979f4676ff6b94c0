import Rollup.Aggregation.Flush
import Rollup.Ingestion.Processor
import Rollup.Retention.Run
import Rollup.Retention.Scheduler
import Rollup.Timeline

namespace Rollup

/-- What all work acts on. Aggregators, workers and janitors are told apart by number. -/
structure Site where
  clock : Clock
  storage : Storage := {}
  bus : Bus := {}
  /-- What each aggregator has gathered. -/
  gathered : SortedMap Nat Pending := .empty
  /-- The offsets that each worker has committed. -/
  committed : SortedMap Nat (SortedMap Nat Nat) := .empty
  /-- How each janitor's schedule stands. -/
  schedules : SortedMap Nat Retention.Scheduler := .empty
  deriving Inhabited

structure Worker where
  id : Nat
  processor : Ingestion.Processor
  /-- The aggregator that gathers the worker's own metrics. -/
  aggregator : Nat

/-- One who removes what has expired, at first after a delay and then after every
interval. -/
structure Janitor extends Retention.Rhythm where
  id : Nat
  store : MetricStore
  windows : List (Resolution × Duration)

namespace Site

def perform {α : Type} (s : Site) (work : Storage.Work α) : Except Error α × Site :=
  let (outcome, storage) := work.run Storage.answer s.storage
  (outcome, { s with storage })

def pending (s : Site) (aggregator : Nat) : Pending := (s.gathered.get? aggregator).getD {}

def setPending (s : Site) (aggregator : Nat) (pending : Pending) : Site :=
  { s with gathered := s.gathered.insert aggregator pending }

def increment (s : Site) (aggregator : Nat) (series : Series) (delta : Int64) : Site :=
  s.setPending aggregator ((s.pending aggregator).increment series delta)

def gauge (s : Site) (aggregator : Nat) (series : Series) (value : Int64) : Site :=
  s.setPending aggregator ((s.pending aggregator).gauge series value)

def drain (s : Site) (aggregator : Nat) : List Metric × Site :=
  let (batch, pending) := (s.pending aggregator).drain s.clock.now
  (Metric.listing batch, s.setPending aggregator pending)

def flush (s : Site) (aggregator : Nat) (store : MetricStore) : Except Error Nat × Site :=
  let (outcome, pending, storage) := store.flush s.clock.now (s.pending aggregator) s.storage
  (outcome, { s.setPending aggregator pending with storage })

def offsets (s : Site) (w : Worker) : SortedMap Nat Nat := (s.committed.get? w.id).getD .empty

def ingest {α : Type} (s : Site) (w : Worker) (work : Ingestion.Work α) :
    Except Error α × Site :=
  let (outcome, state) := work.run (Ingestion.answer w.processor.context)
    ⟨s.storage, s.bus, s.offsets w, s.pending w.aggregator⟩
  (outcome,
    { s.setPending w.aggregator state.pending with
      storage := state.storage
      bus := state.bus
      committed := s.committed.insert w.id state.offsets })

def restore (s : Site) (w : Worker) : Except Error Unit × Site :=
  s.ingest w w.processor.restore

def processOnce (s : Site) (w : Worker) (partition : Nat) : Except Error Nat × Site :=
  s.ingest w (w.processor.processOnce partition)

/-- Takes batches from a partition until there is nothing left or one fails. A partition
whose topic has gone ends its task; after any other failure it is tried again. The count
of batches is limited, since each of them moves the committed offset on. -/
def consume (w : Worker) (partition : Nat) : Nat → Site → Next (Except Error Unit) × Site
  | 0, s => (.wait w.processor.config.pollInterval, s)
  | batches + 1, s =>
    match s.processOnce w partition with
    | (.error (.topicNotFound topic), s) => (.finish (.error (.topicNotFound topic)), s)
    | (.ok (_ + 1), s) => consume w partition batches s
    | (_, s) => (.wait w.processor.config.pollInterval, s)

def schedule (s : Site) (j : Janitor) : Retention.Scheduler := (s.schedules.get? j.id).getD {}

def stepSchedule (s : Site) (j : Janitor) (e : Retention.Scheduler.Event) : Site :=
  { s with schedules := s.schedules.insert j.id ((s.schedule j).step j.toRhythm e) }

def clean (s : Site) (j : Janitor) : Except Error Nat × Site :=
  s.perform (Retention.run j.store s.clock j.windows)

end Site

/-- What a background task does. -/
inductive Job where
  | flush (aggregator : Nat) (store : MetricStore) (interval : Duration)
  /-- One flush, whose outcome is that of the task. -/
  | lastFlush (aggregator : Nat) (store : MetricStore)
  | consume (worker : Worker) (partition : Nat)
  /-- The runs of a task of a janitor's schedule. -/
  | clean (janitor : Janitor) (task : Nat)

/-- One piece of work of a task. Failures of a flush or of a retention run are made good
by the next one. -/
def Job.work : Job → Site → Next (Except Error Unit) × Site
  | .flush aggregator store interval, s => (.wait interval, (s.flush aggregator store).2)
  | .lastFlush aggregator store, s =>
    let (outcome, s) := s.flush aggregator store
    (.finish (outcome.map fun _ => ()), s)
  | .consume w partition, s => Site.consume w partition (s.bus.size + 1) s
  | .clean j task, s =>
    let (outcome, s) := (s.stepSchedule j (.timer task)).clean j
    (.wait j.interval, s.stepSchedule j (.finished task outcome))

end Rollup
