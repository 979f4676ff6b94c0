import Rollup.Metric

namespace Rollup

/-- A metric name under a set of tags. -/
structure Series where
  name : String
  tags : Tags
  deriving DecidableEq, Repr

instance : KeyOrder Series :=
  KeyOrder.ofInjective (fun s => (s.name, s.tags)) fun a b h => by
    cases a
    cases b
    simp_all

def Metric.series (m : Metric) : Series := ⟨m.name, m.tags⟩

abbrev Context := Tags

namespace Context

def root : Context := .empty

/-- More tags; on conflict the new value stays. -/
def child (context : Context) (tags : Tags) : Context := context.union tags

end Context

structure Pending where
  counters : SortedMap Series Int64 := .empty
  gauges : SortedMap Series Int64 := .empty
  deriving DecidableEq, Repr, Inhabited

namespace Pending

def isEmpty (p : Pending) : Bool := p.counters.isEmpty && p.gauges.isEmpty

def increment (p : Pending) (s : Series) (delta : Int64) : Pending :=
  { p with counters := p.counters.insert s ((p.counters.get? s).getD 0 + delta) }

def gauge (p : Pending) (s : Series) (value : Int64) : Pending :=
  { p with gauges := p.gauges.insert s value }

/-- The values gathered so far with a time put on them: counters before gauges, each in
the order of their series. -/
def metrics (p : Pending) (now : Int64) : List Metric :=
  p.counters.entries.map (fun e => ⟨.counter, e.1.name, now, e.2, e.1.tags⟩) ++
    p.gauges.entries.map fun e => ⟨.gauge, e.1.name, now, e.2, e.1.tags⟩

def drain (p : Pending) (now : Int64) : List Metric × Pending := (p.metrics now, {})

/-- Puts one value back. A counter is added again; a gauge set since is newer and
stays. -/
def requeueOne (p : Pending) (m : Metric) : Pending :=
  match m.kind with
  | .counter => p.increment m.series m.value
  | .gauge => if p.gauges.contains m.series then p else p.gauge m.series m.value

def requeue (p : Pending) (ms : List Metric) : Pending := ms.foldl requeueOne p

end Pending

end Rollup
