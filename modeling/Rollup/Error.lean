namespace Rollup

inductive Error where
  | storageUnavailable (detail : String)
  | topicNotFound (topic : String)
  | schedulingFailure (cause : Error)
  | shutdownAggregate (primary : Error) (suppressed : List Error)
  | decode (detail : String)
  | invalidMetric (detail : String)
  | config (detail : String)
  | serialization (detail : String)
  | internal (detail : String)
  deriving Repr, Inhabited

namespace Error

mutual

def message : Error → String
  | storageUnavailable detail => "Storage unavailable: " ++ detail
  | topicNotFound topic => "Topic not found: " ++ topic
  | schedulingFailure cause => "Retention run failed: " ++ cause.message
  | shutdownAggregate primary suppressed =>
    "Shutdown failed: " ++ primary.message ++ suppressedMessages suppressed
  | decode detail => "Decode error: " ++ detail
  | invalidMetric detail => "Invalid metric: " ++ detail
  | config detail => "Configuration error: " ++ detail
  | serialization detail => "Serialization error: " ++ detail
  | internal detail => "Internal error: " ++ detail

def suppressedMessages : List Error → String
  | [] => ""
  | e :: es => "; suppressed: " ++ e.message ++ suppressedMessages es

end

/-- Attaches a later failure. The first one stays the reported one, and no later one
is dropped. -/
def withSuppressed : Error → Error → Error
  | shutdownAggregate primary suppressed, other =>
    shutdownAggregate primary (suppressed ++ [other])
  | first, other => shutdownAggregate first [other]

def suppressed : Error → List Error
  | shutdownAggregate _ suppressed => suppressed
  | _ => []

def primary : Error → Error
  | shutdownAggregate first _ => first.primary
  | e => e

def sources : Error → List String
  | schedulingFailure cause => cause.message :: cause.sources
  | shutdownAggregate first _ => first.message :: first.sources
  | _ => []

mutual

/-- All single failures that a failure stands for, in the order of their report. -/
def flatten : Error → List Error
  | shutdownAggregate first suppressed => first.flatten ++ flattenAll suppressed
  | e => [e]

def flattenAll : List Error → List Error
  | [] => []
  | e :: es => e.flatten ++ flattenAll es

end

theorem flattenAll_append (as bs : List Error) :
    flattenAll (as ++ bs) = flattenAll as ++ flattenAll bs := by
  induction as with
  | nil => simp [flattenAll]
  | cons a as ih => simp [flattenAll, ih]

theorem flatten_withSuppressed (a b : Error) :
    (a.withSuppressed b).flatten = a.flatten ++ b.flatten := by
  cases a <;> simp [withSuppressed, flatten, flattenAll, flattenAll_append]

def combine (failure : Option Error) : Except Error Unit → Option Error
  | .ok () => failure
  | .error e =>
    match failure with
    | none => some e
    | some first => some (first.withSuppressed e)

def gather (outcomes : List (Except Error Unit)) : Except Error Unit :=
  match outcomes.foldl combine none with
  | none => .ok ()
  | some e => .error e

end Error

end Rollup
