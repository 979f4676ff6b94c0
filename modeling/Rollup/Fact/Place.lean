import Rollup.Error
import Rollup.Bytes
import Rollup.Resolution

namespace Rollup

structure Place where
  base : UInt64
  offset : UInt16
  deriving DecidableEq, Repr

namespace Place

def floorDiv (a b : Int64) : Int64 := Int64.ofInt (a.toInt / b.toInt)

def floorMod (a b : Int64) : Int64 := Int64.ofInt (a.toInt % b.toInt)

/-- The most buckets that a row can hold. -/
def maxRoll : Nat := 65536

/-- The number of buckets in a row: as asked for, as far as a column can count. All time
is one bucket. -/
def roll (resolution : Resolution) (asked : Nat) : Int64 :=
  match resolution with
  | .total => 1
  | _ => Int64.ofNat (max 1 (min asked maxRoll))

def ofTimestamp (resolution : Resolution) (roll : Int64) (timestamp : Int64) : Place :=
  match resolution with
  | .total => ⟨0, 0⟩
  | _ =>
    let bucket := floorDiv timestamp resolution.width
    let offset := floorMod bucket roll
    ⟨((bucket - offset) * resolution.width).toUInt64, offset.toUInt64.toUInt16⟩

def timestamp (resolution : Resolution) (place : Place) : Int64 :=
  place.base.toInt64 + place.offset.toUInt64.toInt64 * resolution.width

def encodeOffset (offset : UInt16) : Bytes := Bytes.ofUInt16 offset

def decodeOffset (column : Bytes) : Except Error UInt16 :=
  if column.length = 2 then .ok (Bytes.toUInt16 column)
  else .error (.decode s!"fact column must be 2 bytes, got {column.length}")

theorem decodeOffset_encodeOffset (offset : UInt16) :
    decodeOffset (encodeOffset offset) = .ok offset := by
  simp [decodeOffset, encodeOffset]

end Place

end Rollup
