import Rollup.Error
import Rollup.SortedMap
import Rollup.Text.Utf8

namespace Rollup

/-- Tag names and values, ordered by name so that equal sets have one form. -/
abbrev Tags := SortedMap String String

/-- A counter adds its value to a bucket; a gauge replaces what the bucket held. -/
inductive MetricKind where
  | counter
  | gauge
  deriving DecidableEq, Repr, Inhabited

namespace MetricKind

def name : MetricKind → String
  | counter => "counter"
  | gauge => "gauge"

def code : MetricKind → UInt8
  | counter => 0
  | gauge => 1

def ofCode? (code : UInt8) : Option MetricKind :=
  if code == 0 then some counter else if code == 1 then some gauge else none

theorem ofCode?_code (kind : MetricKind) : ofCode? kind.code = some kind := by
  cases kind <;> rfl

theorem code_of_ofCode? {c : UInt8} {kind : MetricKind} (h : ofCode? c = some kind) :
    kind.code = c := by
  simp only [ofCode?, beq_iff_eq] at h
  split at h
  · next hc => simp [← Option.some.inj h, code, hc]
  · split at h
    · next hc => simp [← Option.some.inj h, code, hc]
    · simp at h

instance : KeyOrder MetricKind :=
  KeyOrder.ofInjective code fun a b h => by cases a <;> cases b <;> simp [code] at h ⊢

end MetricKind

/-- One measurement. Timestamps are in seconds. -/
structure Metric where
  kind : MetricKind
  name : String
  timestamp : Int64
  value : Int64
  tags : Tags
  deriving DecidableEq, Repr

inductive MetricDefect where
  | emptyName
  | negativeTimestamp (name : String) (timestamp : Int64)
  | negativeDelta (name : String) (delta : Int64)
  deriving DecidableEq, Repr

namespace MetricDefect

def message : MetricDefect → String
  | emptyName => "metric name is empty"
  | negativeTimestamp name timestamp =>
    s!"metric {name} has negative timestamp {timestamp.toInt}"
  | negativeDelta name delta => s!"counter {name} has negative delta {delta.toInt}"

end MetricDefect

namespace Metric

def defect? (m : Metric) : Option MetricDefect :=
  if m.name.isEmpty then some .emptyName
  else if m.timestamp < 0 then some (.negativeTimestamp m.name m.timestamp)
  else if m.kind == .counter && m.value < 0 then some (.negativeDelta m.name m.value)
  else none

def validate (m : Metric) : Except Error Unit :=
  match m.defect? with
  | none => .ok ()
  | some defect => .error (.invalidMetric defect.message)

instance : KeyOrder Metric :=
  KeyOrder.ofInjective
    (fun m => (m.kind, m.name, m.tags, m.timestamp, m.value)) fun a b h => by
      cases a
      cases b
      simp_all

def listing (ms : List Metric) : List Metric :=
  ms.mergeSort fun a b => !KeyOrder.before b a

end Metric

/-- A span of seconds with both ends included. -/
structure TimeRange where
  first : Int64
  last : Int64
  deriving DecidableEq, Repr

namespace TimeRange

def contains (range : TimeRange) (timestamp : Int64) : Bool :=
  range.first ≤ timestamp && timestamp ≤ range.last

end TimeRange

/-- The value of a bucket, named by the start of the bucket. -/
structure Point where
  timestamp : Int64
  value : Int64
  deriving DecidableEq, Repr

end Rollup
