import Rollup.Progress.Cell
import Rollup.Storage

namespace Rollup

open Storage

structure Partition where
  topic : String
  number : Nat
  deriving DecidableEq, Repr

namespace Partition

def display (p : Partition) : String := s!"{p.topic}:{p.number}"

def row (p : Partition) : Bytes := Utf8.encode p.display

end Partition

structure ProgressTable where
  table : TableId
  deriving DecidableEq, Repr

namespace ProgressTable

/-- The only column, `o`. -/
def column : Bytes := [0x6F]

def save (t : ProgressTable) (p : Partition) (progress : Progress) : Work Unit :=
  put t.table p.row column progress.encode

def read (t : ProgressTable) (p : Partition) : Work (Option Progress) := do
  match ← get t.table p.row column with
  | none => return none
  | some cell =>
    match Progress.decode? cell with
    | some progress => return some progress
    | none => .fail (.decode s!"consumer offset for {p.display}")

def readOffset (t : ProgressTable) (p : Partition) : Work (Option Nat) := do
  let progress ← t.read p
  return progress.map (·.offset)

end ProgressTable

end Rollup
