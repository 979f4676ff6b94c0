import Rollup.Error
import Rollup.Text.Utf8

namespace Rollup.Batch

/-- Why a batch has no encoded form: some count does not fit its field. -/
inductive EncodingFault where
  | tooManyRecords (count : Nat)
  | tooManyTags (metric : String)
  | textTooLong (length : Nat)
  deriving DecidableEq, Repr

namespace EncodingFault

def message : EncodingFault → String
  | tooManyRecords count => s!"record count {count} exceeds u32"
  | tooManyTags metric => s!"{metric} has too many tags"
  | textTooLong length => s!"string length {length} exceeds u32"

def toError (fault : EncodingFault) : Error := .serialization fault.message

end EncodingFault

inductive Fault where
  | tooShort (length : Nat)
  | checksumMismatch
  | badMagic
  | unsupportedVersion (version : UInt8)
  | truncated (needed available : Nat)
  | unknownKind (code : UInt8)
  | badText (fault : Utf8.Fault)
  | repeatedTag (metric earlier : String)
  | trailing (length : Nat)
  deriving DecidableEq, Repr

namespace Fault

def message : Fault → String
  | tooShort length => s!"payload too short: {length} bytes"
  | checksumMismatch => "checksum mismatch"
  | badMagic => "bad magic"
  | unsupportedVersion version => s!"unsupported version {version.toNat}"
  | truncated needed available => s!"truncated record: need {needed} bytes, have {available}"
  | unknownKind code => s!"unknown metric kind {code.toNat}"
  | badText fault => "invalid UTF-8: " ++ fault.message
  | repeatedTag metric earlier => s!"metric {metric} repeats a tag (earlier value '{earlier}')"
  | trailing length => s!"{length} trailing bytes"

def toError (fault : Fault) : Error := .decode fault.message

end Fault

end Rollup.Batch
