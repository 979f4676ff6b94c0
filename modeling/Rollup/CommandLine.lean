import Rollup.Deployment
import Rollup.Reporting

namespace Rollup

structure Options where
  flushInterval : Option Duration := none
  partitions : Option Nat := none
  setUpOnly : Bool := false
  logLevel : String := "info"
  deriving DecidableEq, Repr, Inhabited

inductive OptionFault where
  | unexpected (word : String)
  | noValue (name : String)
  | badNumber (name text : String) (fault : Text.IntegerFault)
  deriving DecidableEq, Repr

namespace OptionFault

def message : OptionFault → String
  | unexpected word => s!"unexpected argument '{word}' found"
  | noValue name => s!"a value is required for '{name}' but none was supplied"
  | badNumber name text fault => s!"invalid value '{text}' for '{name}': {fault.message}"

end OptionFault

namespace Options

def split (word : String) : List String :=
  let cs := word.toList
  match cs.dropWhile (· != '=') with
  | [] => [word]
  | _ :: value =>
    if word.startsWith "--" then [String.ofList (cs.takeWhile (· != '=')), String.ofList value]
    else [word]

def number (limit : Nat) (name text : String) : Except OptionFault Nat :=
  match Text.readUnsigned limit text with
  | .ok n => .ok n
  | .error fault => .error (.badNumber name text fault)

def set (o : Options) (name value : String) : Except OptionFault Options :=
  match name with
  | "--flush-interval-secs" => do
    let seconds ← number Environment.limit64 name value
    return { o with flushInterval := some (.ofSeconds seconds) }
  | "--messaging-partitions" => do
    return { o with partitions := some (← number Environment.limit32 name value) }
  | "--log-level" => .ok { o with logLevel := value }
  | _ => .error (.unexpected name)

def take (o : Options) : List String → Except OptionFault Options
  | [] => .ok o
  | "--setup-only" :: rest => { o with setUpOnly := true }.take rest
  | [name] => do
    let _ ← o.set name "1"
    throw (.noValue name)
  | name :: value :: rest => do
    let o ← o.set name value
    o.take rest

def ofArguments (words : List String) : Except OptionFault Options :=
  ({} : Options).take (words.flatMap split)

def apply (o : Options) (c : Config) : Config :=
  let c := match o.flushInterval with
    | some flushInterval => { c with flushInterval }
    | none => c
  match o.partitions with
  | some partitions => { c with messaging := some { c.messaging.getD {} with partitions } }
  | none => c

end Options

namespace Environment

def names : List String :=
  ["SECOND", "MINUTE", "HOUR"].flatMap (fun part =>
    [s!"METRICS_RETENTION_{part}_SECS", s!"METRICS_ROLL_TIME_{part}"]) ++
  ["METRICS_ROLL_TIME", "METRICS_ROW_KEY_BUCKETS", "METRICS_SPLITS",
    "METRICS_FLUSH_INTERVAL_SECS", "METRICS_RETENTION_INTERVAL_SECS",
    "METRICS_ENTITY_CACHE_CAPACITY", "METRICS_TABLE_PREFIX", "METRICS_MESSAGING_PARTITIONS",
    "METRICS_MESSAGING_TOPIC_PREFIX", "TABLE_BACKEND", "MESSAGING_BACKEND",
    "METRICSTORE_TELEMETRY_ENABLED", "METRICSTORE_TELEMETRY_RUN_ID", "METRICSTORE_TRACE_RATIO",
    "OTEL_SERVICE_NAME", "OTEL_RESOURCE_ATTRIBUTES"]

end Environment

namespace Deployment

/-- The name under which a process reports and saves offsets. -/
def component : String := "metricstore"

def launchService (d : Deployment) (env : Environment) : Except Error Deployment := do
  let (service, d) ← match d.datasets.config.messaging with
    | none => pure (d.setService none)
    | some c => do
      let bus ← env.openBus c
      pure ((d.setBus bus).setService (some component))
  let (outcome, d) := d.startUp service
  outcome
  return d.settle

/-- The deployment of a process: its tables, created and nothing more if that is what
the options ask for, and otherwise with a running service. -/
def launch (o : Options) (env : Environment) (clock : Clock) : Except Error Deployment := do
  let _ ← Reporting.start component o.logLevel env
  let config := o.apply (← Config.ofEnvironment env)
  config.validate
  let d ← Deployment.new config clock (← env.openCatalog)
  if o.setUpOnly then return d.setUp else d.launchService env

def close (d : Deployment) : Except Error Unit :=
  match d.service with
  | none => .ok ()
  | some service => (d.shutDown service).1

end Deployment

end Rollup
