import Rollup.Config.Environment
import Rollup.Decimal.Literal

namespace Rollup

inductive ReportingFault where
  | notBoolean (text : String)
  | notNumber (fault : Decimal.LiteralFault)
  | ratioOutOfRange (ratio : Binary64)
  | badAttribute (pair : String)
  | badLogLevel (text : String)
  deriving DecidableEq, Repr

namespace ReportingFault

def message : ReportingFault → String
  | notBoolean text => s!"METRICSTORE_TELEMETRY_ENABLED must be a boolean, got '{text}'"
  | notNumber fault => s!"METRICSTORE_TRACE_RATIO is not a number: {fault.message}"
  | ratioOutOfRange ratio => s!"METRICSTORE_TRACE_RATIO must be in [0,1], got {ratio.text}"
  | badAttribute pair => s!"OTEL_RESOURCE_ATTRIBUTES entry '{pair}' must be key=value"
  | badLogLevel text => s!"invalid log level '{text}'"

def toError (fault : ReportingFault) : Error := .config fault.message

end ReportingFault

structure Reporting where
  enabled : Bool
  serviceName : String
  /-- Marks every exported measurement of one run of a deployment. -/
  runId : Option String
  /-- The share of traces that is sampled; all of them when there is none. -/
  sampled : Option Binary64
  attributes : SortedMap String String
  deriving DecidableEq, Repr

namespace Reporting

/-- A variable without the white space around it; one that is empty then is not set. -/
def text? (env : Environment) (name : String) : Option String :=
  match env.get? name with
  | none => none
  | some text =>
    let text := Text.trim text
    if text.isEmpty then none else some text

def lower (s : String) : String := s.map Char.toLower

def readBoolean (text : String) : Except ReportingFault Bool :=
  let word := lower text
  if ["1", "true", "yes", "on"].contains word then .ok true
  else if ["0", "false", "no", "off"].contains word then .ok false
  else .error (.notBoolean text)

def readRatio (text : String) : Except ReportingFault Binary64 :=
  match Decimal.read text with
  | .error fault => .error (.notNumber fault)
  | .ok ratio => if ratio.inUnitInterval then .ok ratio else .error (.ratioOutOfRange ratio)

def readAttribute (pair : String) : Except ReportingFault (String × String) :=
  let cs := pair.toList
  match cs.dropWhile (· != '=') with
  | [] => .error (.badAttribute pair)
  | _ :: value =>
    let name := Text.trim (String.ofList (cs.takeWhile (· != '=')))
    if name.isEmpty then .error (.badAttribute pair)
    else .ok (name, Text.trim (String.ofList value))

def splitCommas : List Char → List (List Char)
  | [] => [[]]
  | c :: cs =>
    if c == ',' then [] :: splitCommas cs
    else
      match splitCommas cs with
      | [] => [[c]]
      | part :: parts => (c :: part) :: parts

/-- Attributes with commas between them. Empty ones are passed over, and of two with one
name the later counts. -/
def readAttributes (text : String) : Except ReportingFault (SortedMap String String) := do
  let parts := (splitCommas text.toList).map fun part => Text.trim (String.ofList part)
  let attributes ← (parts.filter fun part => !part.isEmpty).mapM readAttribute
  return .ofList attributes

/-- The attributes that are always there: the service's name, its namespace unless one is
given, and the run if it is marked. -/
def complete (attributes : SortedMap String String) (serviceName : String)
    (runId : Option String) : SortedMap String String :=
  let attributes := attributes.insert "service.name" serviceName
  let attributes :=
    if attributes.contains "service.namespace" then attributes
    else attributes.insert "service.namespace" "metricstore"
  match runId with
  | some id => attributes.insert "metricstore.run_id" id
  | none => attributes

def readVariables (component : String) (env : Environment) :
    Except ReportingFault Reporting := do
  let enabled ← match text? env "METRICSTORE_TELEMETRY_ENABLED" with
    | some text => readBoolean text
    | none => .ok false
  let serviceName := (text? env "OTEL_SERVICE_NAME").getD component
  let runId := text? env "METRICSTORE_TELEMETRY_RUN_ID"
  let sampled ← match text? env "METRICSTORE_TRACE_RATIO" with
    | some text => (readRatio text).map some
    | none => .ok none
  let attributes ← match text? env "OTEL_RESOURCE_ATTRIBUTES" with
    | some text => readAttributes text
    | none => .ok .empty
  return {
    enabled, serviceName, runId, sampled, attributes := complete attributes serviceName runId }

def ofEnvironment (component : String) (env : Environment) : Except Error Reporting :=
  match readVariables component env with
  | .ok reporting => .ok reporting
  | .error fault => .error fault.toError

end Reporting

inductive LogLevel where
  | error
  | warn
  | info
  | debug
  | trace
  deriving DecidableEq, Repr

namespace LogLevel

def numbered : List LogLevel := [error, warn, info, debug, trace]

def name : LogLevel → String
  | error => "error"
  | warn => "warn"
  | info => "info"
  | debug => "debug"
  | trace => "trace"

/-- A level by its number or, in any case, by its name. -/
def ofText? (text : String) : Option LogLevel :=
  match Text.readUnsigned Environment.limit64 text with
  | .ok n => if n == 0 then none else numbered[n - 1]?
  | .error _ =>
    let word := Reporting.lower text
    numbered.find? fun level => level.name == word

def read (text : String) : Except Error LogLevel :=
  match ofText? (Text.trim text) with
  | some level => .ok level
  | none => .error (ReportingFault.badLogLevel text).toError

end LogLevel

/-- What a process needs to know before it reports: its settings and its log level. The
settings are read first. -/
def Reporting.start (component logLevel : String) (env : Environment) :
    Except Error (Reporting × LogLevel) := do
  let reporting ← Reporting.ofEnvironment component env
  let level ← LogLevel.read logLevel
  return (reporting, level)

end Rollup
