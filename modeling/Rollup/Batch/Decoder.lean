import Rollup.Batch.Encoder

namespace Rollup.Batch

def take (n : Nat) (bytes : Bytes) : Except Fault (Bytes × Bytes) :=
  match Bytes.splitAt? n bytes with
  | some parts => .ok parts
  | none => .error (.truncated n bytes.length)

def decodeText (bytes : Bytes) : Except Fault (String × Bytes) := do
  let (length, bytes) ← take 4 bytes
  let (text, rest) ← take (Bytes.value length) bytes
  match Utf8.decode text with
  | .ok s => return (s, rest)
  | .error fault => throw (.badText fault)

/-- Reads tags and adds them to those already read of the metric called `metric`. -/
def decodeTags (metric : String) : Nat → Tags → Bytes → Except Fault (Tags × Bytes)
  | 0, tags, bytes => .ok (tags, bytes)
  | n + 1, tags, bytes => do
    let (name, bytes) ← decodeText bytes
    let (value, bytes) ← decodeText bytes
    match tags.get? name with
    | some earlier => throw (.repeatedTag metric earlier)
    | none => decodeTags metric n (tags.insert name value) bytes

def decodeRecord (bytes : Bytes) : Except Fault (Metric × Bytes) := do
  let (fixed, bytes) ← take 17 bytes
  let code := fixed.headD 0
  match MetricKind.ofCode? code with
  | none => throw (.unknownKind code)
  | some kind =>
    let timestamp := Bytes.toInt64 ((fixed.drop 1).take 8)
    let value := Bytes.toInt64 (fixed.drop 9)
    let (name, bytes) ← decodeText bytes
    let (count, bytes) ← take 2 bytes
    let (tags, bytes) ← decodeTags name (Bytes.value count) .empty bytes
    return ({ kind, name, timestamp, value, tags }, bytes)

def decodeRecords : Nat → Bytes → Except Fault (List Metric × Bytes)
  | 0, bytes => .ok ([], bytes)
  | n + 1, bytes => do
    let (m, bytes) ← decodeRecord bytes
    let (ms, bytes) ← decodeRecords n bytes
    return (m :: ms, bytes)

def decodeBody (body : Bytes) : Except Fault (List Metric) :=
  match body with
  | m :: v :: version' :: rest =>
    if [m, v] != magic then .error .badMagic
    else if version' != version then .error (.unsupportedVersion version')
    else do
      let (count, records) ← take 4 rest
      let (ms, rest) ← decodeRecords (Bytes.value count) records
      if rest.isEmpty then return ms else throw (.trailing rest.length)
  | _ => .error (.tooShort body.length)

def decode (payload : Bytes) : Except Fault (List Metric) :=
  let length := payload.length
  if length < 11 then .error (.tooShort length)
  else
    let (body, crc) := payload.splitAt (length - 4)
    if Checksum.crc32 body != Bytes.toUInt32 crc then .error .checksumMismatch
    else decodeBody body

end Rollup.Batch
