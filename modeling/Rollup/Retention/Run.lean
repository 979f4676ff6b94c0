import Rollup.Clock
import Rollup.Config.Basic
import Rollup.MetricStore

namespace Rollup.Retention

open Storage

/-- The resolutions to be cleaned and how long their buckets stay. -/
def windows (c : Config) : List (Resolution × Duration) :=
  Resolution.all.filterMap fun r => (c.retentionFor r).map fun window => (r, window)

def deleteExpired (store : MetricStore) (clock : Clock)
    (windows : List (Resolution × Duration)) : Work Nat := do
  let removed ← windows.mapM fun w => store.deleteBefore w.1 (clock.cutoff w.2)
  return removed.foldr (· + ·) 0

def run (store : MetricStore) (clock : Clock) (windows : List (Resolution × Duration)) :
    Work Nat := do
  match ← (deleteExpired store clock windows).attempt with
  | .ok removed => return removed
  | .error cause => .fail (.schedulingFailure cause)

/-- A run in flight: what is left of the deletion it is at, the windows that come after that
one, and how many rows have gone before. -/
structure Pass where
  rest : Work Nat
  later : List (Resolution × Duration)
  removed : Nat := 0

namespace Pass

def begin (windows : List (Resolution × Duration)) : Pass := { rest := pure 0, later := windows }

/-- A step of a run: a request of its deletion, the next deletion with the cutoff of that
moment, or the end. -/
def step (store : MetricStore) (clock : Clock) (s : Storage) :
    Pass → (Pass ⊕ Except Error Nat) × Storage
  | ⟨.call q resume, later, removed⟩ =>
    let (answer, s) := Storage.answer q s
    (.inl ⟨resume answer, later, removed⟩, s)
  | ⟨.result (.ok n), (r, window) :: later, removed⟩ =>
    (.inl ⟨store.deleteBefore r (clock.cutoff window), later, removed + n⟩, s)
  | ⟨.result (.ok n), [], removed⟩ => (.inr (.ok (removed + n)), s)
  | ⟨.result (.error cause), _, _⟩ => (.inr (.error (.schedulingFailure cause)), s)

end Pass

end Rollup.Retention
