import Rollup.Bus
import Rollup.Fact.Place
import Rollup.SortedMap
import Rollup.Text.Integer

namespace Rollup

inductive ConfigFault where
  | badNumber (name text : String) (fault : Text.IntegerFault)
  | buckets (n : Nat)
  | noSplits
  | roll (resolution : Resolution) (n : Nat)
  | retention (resolution : Resolution)
  | zeroInterval
  | noPartitions
  | noFetchLimit
  | unknownBackend (name value : String)
  deriving DecidableEq, Repr

namespace ConfigFault

def message : ConfigFault → String
  | badNumber name text fault => s!"{name} has invalid value '{text}': {fault.message}"
  | buckets n => s!"row_key_buckets must be in 1..=256, got {n}"
  | noSplits => "splits must be at least 1"
  | roll resolution n => s!"roll time for {resolution.name} must be in 1..=65536, got {n}"
  | retention resolution => s!"retention for {resolution.name} must be at least one second"
  | zeroInterval => "flush and retention intervals must be non-zero"
  | noPartitions => "messaging partitions must be at least 1"
  | noFetchLimit => "messaging fetch_limit must be at least 1"
  | unknownBackend name value => s!"Unknown {name}: {value}. Use 'memory'"

def toError (fault : ConfigFault) : Error := .config fault.message

end ConfigFault

structure MessagingConfig where
  /-- The topic of a partition is this text followed by the partition's number. -/
  topicStem : String := "metrics"
  partitions : Nat := 10
  fetchLimit : Nat := 100
  /-- The pause of a partition that has nothing to do or has failed. -/
  pollInterval : Duration := .ofSeconds 1
  deriving DecidableEq, Repr, Inhabited

namespace MessagingConfig

def topic (c : MessagingConfig) (partition : Nat) : Topic :=
  .system s!"{c.topicStem}{partition}"

def fault? (c : MessagingConfig) : Option ConfigFault :=
  if c.partitions == 0 then some .noPartitions
  else if c.fetchLimit == 0 then some .noFetchLimit
  else none

end MessagingConfig

structure Config where
  entityTable : String := "metrics.entity"
  /-- The names of the current fact tables start with this text. -/
  factStem : String := "metrics.v3.table"
  /-- The names of the legacy fact tables start with this text. -/
  legacyFactStem : String := "metrics.table"
  progressTable : String := "metrics.messaging.meta"
  retention : SortedMap Resolution Duration :=
    .ofList (Resolution.all.filterMap fun r => r.defaultRetention.map fun d => (r, d))
  defaultRoll : Nat := 3600
  roll : SortedMap Resolution Nat := .empty
  buckets : Nat := 16
  splits : Nat := 16
  splitPolicy : String := "DisabledRegionSplitPolicy"
  flushInterval : Duration := .ofSeconds 1
  retentionDelay : Duration := .ofSeconds 1
  retentionInterval : Duration := .ofSeconds 3600
  entityCacheCapacity : Nat := 100000
  /-- Without it no batches are taken from the bus. -/
  messaging : Option MessagingConfig := none
  deriving Inhabited

namespace Config

def retentionFor (c : Config) (r : Resolution) : Option Duration :=
  if r.expires then c.retention.get? r else none

def rollFor (c : Config) (r : Resolution) : Nat :=
  match r with
  | .total => 1
  | _ => (c.roll.get? r).getD c.defaultRoll

def rollFault? (c : Config) : Option ConfigFault :=
  Resolution.all.findSome? fun r =>
    let n := c.rollFor r
    if n == 0 || Place.maxRoll < n then some (.roll r n) else none

def retentionFault? (c : Config) : Option ConfigFault :=
  Resolution.all.findSome? fun r =>
    match c.retentionFor r with
    | some window => if window.seconds == 0 then some (.retention r) else none
    | none => none

def fault? (c : Config) : Option ConfigFault :=
  if c.buckets == 0 || 256 < c.buckets then some (.buckets c.buckets)
  else if c.splits == 0 then some .noSplits
  else
    c.rollFault?.or <|
    c.retentionFault?.or <|
    if c.flushInterval.isZero || c.retentionInterval.isZero then some .zeroInterval
    else c.messaging.bind MessagingConfig.fault?

def validate (c : Config) : Except Error Unit :=
  match c.fault? with
  | none => .ok ()
  | some fault => .error fault.toError

end Config

end Rollup
