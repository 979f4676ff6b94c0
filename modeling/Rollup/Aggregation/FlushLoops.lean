import Rollup.Aggregation.Flush
import Rollup.Timeline

namespace Rollup

/-- Gathered metrics with a clock to stamp them and an outbox to publish them to. -/
structure Aggregator where
  now : Int64
  pending : Pending := {}
  outbox : Outbox := {}
  deriving Inhabited

namespace Aggregator

def increment (a : Aggregator) (s : Series) (delta : Int64) : Aggregator :=
  { a with pending := a.pending.increment s delta }

def gauge (a : Aggregator) (s : Series) (value : Int64) : Aggregator :=
  { a with pending := a.pending.gauge s value }

def drain (a : Aggregator) : List Metric × Aggregator :=
  let (batch, pending) := a.pending.drain a.now
  (Metric.listing batch, { a with pending })

def requeue (a : Aggregator) (batch : List Metric) : Aggregator :=
  { a with pending := a.pending.requeue batch }

def flush (a : Aggregator) : Except Error Nat × Aggregator :=
  let (outcome, pending, outbox) := a.outbox.flush a.now a.pending
  (outcome, { a with pending, outbox })

def takePublished (a : Aggregator) : List Metric × Aggregator :=
  (Metric.listing a.outbox.accepted, { a with outbox := { a.outbox with accepted := [] } })

def setRefusing (a : Aggregator) (refusing : Bool) : Aggregator :=
  { a with outbox := { a.outbox with refusing } }

/-- One turn of a loop with the given interval. A flush that fails is made good by the
next one. -/
def turn (interval : Duration) (a : Aggregator) : Next Unit × Aggregator :=
  (.wait interval, a.flush.2)

end Aggregator

/-- An aggregator with its loops. One stop ends them all, and it is final: a loop that
is started after it makes its last flush at once. -/
structure FlushLoops where
  aggregator : Aggregator
  timeline : Timeline Duration Unit := {}
  stopped : Bool := false
  /-- How the last flush went of the loop that was started last after the stop, until
  somebody asks. -/
  ended : Except Error Unit := .ok ()
  deriving Inhabited

namespace FlushLoops

def lastFlush (l : FlushLoops) : Except Error Unit × FlushLoops :=
  let (outcome, aggregator) := l.aggregator.flush
  (outcome.map fun _ => (), { l with aggregator })

def run (l : FlushLoops) (interval : Duration) : FlushLoops :=
  if l.stopped then
    let (ended, l) := l.lastFlush
    { l with ended }
  else
    let timeline := (l.timeline.start .zero interval).2
    let (timeline, aggregator) := timeline.settle Aggregator.turn l.aggregator
    { l with aggregator, timeline }

def advance (l : FlushLoops) (span : Duration) : FlushLoops :=
  let (timeline, aggregator) := l.timeline.advance Aggregator.turn span l.aggregator
  { l with aggregator, timeline }

/-- Ends the loops and tells how the loop started last ended. Loops that end together
need one last flush: what it could not publish, no other could, and it leaves nothing to
publish otherwise. -/
def stop (l : FlushLoops) : Except Error Unit × FlushLoops :=
  if l.stopped then (l.ended, { l with ended := .ok () })
  else if l.timeline.idle then (.ok (), { l with stopped := true })
  else
    let (outcome, l) := l.lastFlush
    (outcome, { l with timeline := l.timeline.cancelAll, stopped := true })

end FlushLoops

end Rollup
