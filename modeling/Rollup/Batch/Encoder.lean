import Rollup.Batch.Fault
import Rollup.Checksum
import Rollup.Metric

/-!
The encoded form of a batch: two magic bytes, a version, the number of records, the records, and
the checksum of all that precedes it. Numbers are big-endian; a text is its length in bytes and
its UTF-8 form.
-/

namespace Rollup.Batch

def magic : Bytes := [0x4D, 0x56]

def version : UInt8 := 1

def encodeText (s : String) : Except EncodingFault Bytes :=
  let bytes := Utf8.encode s
  let length := bytes.length
  if length < Bytes.capacity 4 then .ok (Bytes.ofUInt32 (UInt32.ofNat length) ++ bytes)
  else .error (.textTooLong length)

def encodeTag (tag : String × String) : Except EncodingFault Bytes := do
  let name ← encodeText tag.1
  let value ← encodeText tag.2
  return name ++ value

/-- A record: kind, timestamp, value, name, number of tags, and the tags in the order
of their names. -/
def encodeRecord (m : Metric) : Except EncodingFault Bytes := do
  let name ← encodeText m.name
  let count := m.tags.size
  if count < Bytes.capacity 2 then
    let tags ← m.tags.entries.mapM encodeTag
    return m.kind.code :: (Bytes.ofInt64 m.timestamp ++ (Bytes.ofInt64 m.value ++
      (name ++ (Bytes.ofUInt16 (UInt16.ofNat count) ++ tags.flatten))))
  else throw (.tooManyTags m.name)

def encodeRecords (ms : List Metric) : Except EncodingFault Bytes := do
  let records ← ms.mapM encodeRecord
  return records.flatten

def withChecksum (body : Bytes) : Bytes := body ++ Bytes.ofUInt32 (Checksum.crc32 body)

def encode (ms : List Metric) : Except EncodingFault Bytes := do
  let count := ms.length
  if count < Bytes.capacity 4 then
    let records ← encodeRecords ms
    return withChecksum (magic ++ version :: (Bytes.ofUInt32 (UInt32.ofNat count) ++ records))
  else throw (.tooManyRecords count)

end Rollup.Batch
