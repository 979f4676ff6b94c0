import Rollup.Config.Basic
import Rollup.Text.Blank

namespace Rollup

abbrev Environment := SortedMap String String

namespace Environment

/-- A number in a variable; white space around it does not count. -/
def number? (env : Environment) (limit : Nat) (name : String) :
    Except ConfigFault (Option Nat) :=
  match env.get? name with
  | none => .ok none
  | some text =>
    match Text.readUnsigned limit (Text.trim text) with
    | .ok n => .ok (some n)
    | .error fault => .error (.badNumber name text fault)

def limit32 : Nat := 4294967295

def limit64 : Nat := 18446744073709551615

end Environment

namespace Config

def override (c : Config) (value : Option Nat) (change : Config → Nat → Config) : Config :=
  match value with
  | some n => change c n
  | none => c

def variablePart : Resolution → String
  | .second => "SECOND"
  | .minute => "MINUTE"
  | .hour => "HOUR"
  | .total => "TOTAL"

/-- The variables of single resolutions, for each first its retention and then its roll. -/
def readResolutions (env : Environment) : List Resolution → Config → Except ConfigFault Config
  | [], c => .ok c
  | r :: rs, c => do
    let seconds ← env.number? Environment.limit64 s!"METRICS_RETENTION_{variablePart r}_SECS"
    let c := c.override seconds fun c n =>
      { c with retention := c.retention.insert r (.ofSeconds n) }
    let roll ← env.number? Environment.limit32 s!"METRICS_ROLL_TIME_{variablePart r}"
    let c := c.override roll fun c n => { c with roll := c.roll.insert r n }
    readResolutions env rs c

/-- The bus settings. Naming a number of partitions is what switches the bus on. -/
def readMessaging (env : Environment) : Except ConfigFault (Option MessagingConfig) := do
  match ← env.number? Environment.limit32 "METRICS_MESSAGING_PARTITIONS" with
  | none => return none
  | some partitions =>
    let stem := match env.get? "METRICS_MESSAGING_TOPIC_PREFIX" with
      | some text => Text.trim text
      | none => ({} : MessagingConfig).topicStem
    return some { partitions, topicStem := stem }

def readVariables (env : Environment) : Except ConfigFault Config := do
  let c ← readResolutions env [.second, .minute, .hour] {}
  let roll ← env.number? Environment.limit32 "METRICS_ROLL_TIME"
  let c := c.override roll fun c n => { c with defaultRoll := n }
  let buckets ← env.number? Environment.limit64 "METRICS_ROW_KEY_BUCKETS"
  let c := c.override buckets fun c n => { c with buckets := n }
  let splits ← env.number? Environment.limit64 "METRICS_SPLITS"
  let c := c.override splits fun c n => { c with splits := n }
  let flush ← env.number? Environment.limit64 "METRICS_FLUSH_INTERVAL_SECS"
  let c := c.override flush fun c n => { c with flushInterval := .ofSeconds n }
  let interval ← env.number? Environment.limit64 "METRICS_RETENTION_INTERVAL_SECS"
  let c := c.override interval fun c n => { c with retentionInterval := .ofSeconds n }
  let capacity ← env.number? Environment.limit64 "METRICS_ENTITY_CACHE_CAPACITY"
  let c := c.override capacity fun c n => { c with entityCacheCapacity := n }
  let stem := Text.trim ((env.get? "METRICS_TABLE_PREFIX").getD "")
  let c := if stem.isEmpty then c else { c with factStem := stem }
  let messaging ← readMessaging env
  return { c with messaging }

def ofEnvironment (env : Environment) : Except Error Config :=
  match readVariables env with
  | .error fault => .error fault.toError
  | .ok c => do
    c.validate
    return c

end Config

namespace Environment

/-- Checks that a variable names the backend that there is, which is also the default. -/
def checkBackend (env : Environment) (name : String) : Except Error Unit :=
  let value := (env.get? name).getD "memory"
  if value == "memory" then .ok () else .error (ConfigFault.unknownBackend name value).toError

def openCatalog (env : Environment) : Except Error Catalog := do
  env.checkBackend "TABLE_BACKEND"
  return {}

def openBus (env : Environment) (c : MessagingConfig) : Except Error Bus := do
  env.checkBackend "MESSAGING_BACKEND"
  return (List.range c.partitions).foldl (fun bus partition => bus.create (c.topic partition)) {}

end Environment

end Rollup
