import Rollup.Duration
import Rollup.KeyOrder

namespace Rollup

inductive Resolution where
  | second
  | minute
  | hour
  /-- One bucket for all time. -/
  | total
  deriving DecidableEq, Repr, Inhabited

namespace Resolution

/-- From the finest to the coarsest, the order of all work on several resolutions. -/
def all : List Resolution := [second, minute, hour, total]

theorem mem_all (r : Resolution) : r ∈ all := by
  cases r <;> simp [all]

def width : Resolution → Int64
  | second => 1
  | minute => 60
  | hour => 3600
  | total => 2147483647

def expires : Resolution → Bool
  | total => false
  | _ => true

def defaultRetention : Resolution → Option Duration
  | second => some (.ofSeconds 7200)
  | minute => some (.ofSeconds 2592000)
  | hour => some (.ofSeconds 2592000)
  | total => none

def name : Resolution → String
  | second => "second"
  | minute => "minute"
  | hour => "hour"
  | total => "total"

def rank : Resolution → Nat
  | second => 0
  | minute => 1
  | hour => 2
  | total => 3

instance : KeyOrder Resolution :=
  KeyOrder.ofInjective rank fun a b h => by cases a <;> cases b <;> simp [rank] at h ⊢

/-- The table that holds the buckets of a resolution, among tables of one stem. -/
def tableName (r : Resolution) (stem : String) : String :=
  s!"{stem}.ts.{r.width.toInt}"

end Resolution

end Rollup
