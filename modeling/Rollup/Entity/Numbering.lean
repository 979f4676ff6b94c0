import Rollup.Storage

/-!
Numbering of strings. A number is reserved by counting up, its string is recorded, and then the
string's row is claimed with a swap. Whoever loses the claim takes the record back and uses the
number of the winner.
-/

namespace Rollup

open Storage

/-- A reader of an entity table with a memory of its own. -/
structure EntityTable where
  table : TableId
  cache : Nat
  deriving DecidableEq, Repr, Inhabited

namespace EntityTable

def read (t : EntityTable) (e : Entity) : Work (Option UInt32) := do
  match ← get t.table e.nameRow Entity.idColumn with
  | none => return none
  | some cell => .result ((Entity.readId cell).map some)

/-- After a lost claim: takes back the reserved number's record, whether or not that
succeeds, and reads the number of the winner. -/
def yieldClaim (t : EntityTable) (e : Entity) (reserved : UInt32) : Work UInt32 := do
  let _ ← (swap t.table (Entity.numberRow e.kind reserved) Entity.nameColumn
    (some (Utf8.encode e.name)) none).attempt
  match ← get t.table e.nameRow Entity.idColumn with
  | some cell => .result (Entity.readId cell)
  | none => .fail (.internal
      s!"{e.kind.name} '{e.name}' lost its id claim but no winner is recorded")

/-- Reserves a number for a string and claims the string's row with it. The record of
the number is written first, so that a claimed number always has one. -/
def allocate (t : EntityTable) (e : Entity) : Work UInt32 := do
  let next ← incrementAndGet t.table (Entity.counterRow e.kind) Entity.counterColumn 1
  if 0 ≤ next && next ≤ 4294967295 then
    let id := next.toUInt64.toUInt32
    put t.table (Entity.numberRow e.kind id) Entity.nameColumn (Utf8.encode e.name)
    if ← swap t.table e.nameRow Entity.idColumn none (some (Bytes.ofUInt32 id)) then
      return id
    else
      t.yieldClaim e id
  else .fail (.internal s!"{e.kind.name} id space exhausted")

def readOrAllocate (t : EntityTable) (e : Entity) : Work UInt32 := do
  match ← t.read e with
  | some id => return id
  | none => t.allocate e

/-- The number of a string, given out at its first use. Only success is remembered. -/
def resolve (t : EntityTable) (e : Entity) : Work UInt32 := do
  match ← known t.cache e with
  | some id => return id
  | none =>
    let id ← t.readOrAllocate e
    remember t.cache e id
    return id

def lookup (t : EntityTable) (e : Entity) : Work (Option UInt32) := do
  match ← known t.cache e with
  | some id => return some id
  | none =>
    match ← t.read e with
    | none => return none
    | some id =>
      remember t.cache e id
      return some id

def nameOf (t : EntityTable) (kind : EntityKind) (id : UInt32) : Work (Option String) := do
  match ← get t.table (Entity.numberRow kind id) Entity.nameColumn with
  | none => return none
  | some cell => .result ((Entity.readName id cell).map some)

end EntityTable

end Rollup
