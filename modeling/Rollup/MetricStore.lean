import Rollup.Fact.Bridge

namespace Rollup

open Storage

structure MetricStore where
  table : Resolution → MetricTable
  /-- Whether the engine itself drops expired cells. -/
  nativeTtl : Bool

namespace MetricStore

def writeTo (s : MetricStore) (m : Metric) : List Resolution → Work Unit
  | [] => return ()
  | r :: rs => do
    (s.table r).write m
    s.writeTo m rs

def add (s : MetricStore) (m : Metric) : Work Unit := do
  .result m.validate
  s.writeTo m Resolution.all

def validateAll : List Metric → Except Error Unit
  | [] => .ok ()
  | m :: ms => do
    m.validate
    validateAll ms

def writeAllTo (s : MetricStore) (ms : List Metric) : List Resolution → Work Unit
  | [] => return ()
  | r :: rs => do
    (s.table r).writeAll ms
    s.writeAllTo ms rs

/-- Writes a batch at every resolution. Nothing is written unless every value is valid;
what is written before a table fails stays. -/
def addAll (s : MetricStore) (ms : List Metric) : Work Unit := do
  .result (validateAll ms)
  s.writeAllTo ms Resolution.all

def query (s : MetricStore) (resolution : Resolution) (filter : Tags) (metric : String)
    (range : TimeRange) : Work (List Point) :=
  (s.table resolution).query filter metric range

def deleteBefore (s : MetricStore) (resolution : Resolution) (cutoff : Int64) : Work Nat :=
  (s.table resolution).deleteBefore cutoff

end MetricStore

end Rollup
