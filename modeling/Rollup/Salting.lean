import Rollup.Error
import Rollup.KeyRange

/-!
Spreading of row keys over buckets. A salted key is the logical key behind one byte that a hash
of the key determines. A range of logical keys becomes one range in each bucket.
-/

namespace Rollup

structure Salting where
  buckets : Nat
  buckets_pos : 0 < buckets
  buckets_le : buckets ≤ 256
  deriving DecidableEq, Repr

namespace Salting

def ofBuckets (n : Nat) : Except Error Salting :=
  if h : 0 < n ∧ n ≤ 256 then .ok ⟨n, h.1, h.2⟩
  else .error (.config s!"row key buckets must be in 1..=256, got {n}")

/-- The hash of a key, in wrapping 32-bit arithmetic over signed bytes. -/
def hash (key : Bytes) : Int32 :=
  key.foldl (fun h b => h * 31 + b.toInt8.toInt32) 1

def bucketOf (s : Salting) (key : Bytes) : UInt8 :=
  UInt8.ofNat ((hash key).toInt.tmod s.buckets).natAbs

def distribute (s : Salting) (key : Bytes) : Bytes := s.bucketOf key :: key

def unsalted (salted : Bytes) : Bytes := salted.drop 1

def allBuckets (s : Salting) : List UInt8 := (List.range s.buckets).map UInt8.ofNat

/-- The part of one bucket that a logical range covers. A range without an end stops
where the next bucket starts. -/
def rangeIn (bucket : UInt8) (range : KeyRange) : KeyRange where
  start := bucket :: range.start
  stop :=
    match range.stop with
    | some stop => some (bucket :: stop)
    | none => if bucket = 255 then none else some [bucket + 1]

def ranges (s : Salting) (range : KeyRange) : List KeyRange :=
  s.allBuckets.map fun bucket => rangeIn bucket range

/-- Evenly spaced boundaries that split a table into at most `splits` regions, and into
no more than there are buckets. -/
def splitKeys (s : Salting) (splits : Nat) : List Bytes :=
  let regions := max 1 (min splits s.buckets)
  (List.range (regions - 1)).map fun i => [UInt8.ofNat ((i + 1) * s.buckets / regions)]

@[simp] theorem unsalted_distribute (s : Salting) (key : Bytes) :
    unsalted (s.distribute key) = key := rfl

end Salting

end Rollup
