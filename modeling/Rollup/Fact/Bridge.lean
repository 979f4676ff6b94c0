import Rollup.Fact.Table

/-!
The buckets of one resolution while they move from one generation of tables to the next. Writes
reach only the current table. Reads see both, and the current one counts where both hold a cell.
-/

namespace Rollup

open Storage

inductive MetricTable where
  | direct (current : FactTable)
  | bridged (legacy current : FactTable)
  deriving DecidableEq, Repr

namespace MetricTable

def choose (legacy : Option FactTable) (current : FactTable) : MetricTable :=
  match legacy with
  | some legacy => bridged legacy current
  | none => direct current

def current : MetricTable → FactTable
  | direct current => current
  | bridged _ current => current

def resolution (t : MetricTable) : Resolution := t.current.resolution

def isBridged : MetricTable → Bool
  | direct _ => false
  | bridged .. => true

def write (t : MetricTable) (m : Metric) : Work Unit := t.current.write m

def writeAll (t : MetricTable) (ms : List Metric) : Work Unit := t.current.writeAll ms

def seriesPoints (t : MetricTable) (filter : Tags) (metric : String) (range : TimeRange) :
    Work SeriesPoints :=
  match t with
  | direct current => current.seriesPoints filter metric range
  | bridged legacy current => do
    let old ← legacy.seriesPoints filter metric range
    let new ← current.seriesPoints filter metric range
    return old.union new

def query (t : MetricTable) (filter : Tags) (metric : String) (range : TimeRange) :
    Work (List Point) := do
  let points ← t.seriesPoints filter metric range
  return points.sum

def deleteBefore (t : MetricTable) (cutoff : Int64) : Work Nat :=
  match t with
  | direct current => current.deleteBefore cutoff
  | bridged legacy current => do
    let old ← legacy.deleteBefore cutoff
    let new ← current.deleteBefore cutoff
    return old + new

end MetricTable

end Rollup
