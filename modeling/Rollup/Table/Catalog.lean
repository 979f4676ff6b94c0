import Rollup.Table.Basic
import Rollup.Text.Utf8

namespace Rollup

structure TableId where
  space : String
  name : String
  deriving DecidableEq, Repr, Inhabited

namespace TableId

/-- The namespace of the store's own tables and topics. -/
def systemSpace : String := "system"

def system (name : String) : TableId := ⟨systemSpace, name⟩

def display (id : TableId) : String := s!"{id.space}:{id.name}"

instance : KeyOrder TableId :=
  KeyOrder.ofInjective (fun id => (id.space, id.name)) fun a b h => by
    cases a
    cases b
    simp_all

end TableId

structure TableProperties where
  ttlSeconds : Option Nat := none
  readlessIncrement : Bool := false
  splits : List Bytes := []
  splitPolicy : Option String := none
  extra : SortedMap String String := .empty
  deriving DecidableEq, Repr, Inhabited

structure StoredTable where
  properties : TableProperties := {}
  contents : Table := .empty
  available : Bool := true
  deriving Inhabited

structure Catalog where
  tables : SortedMap TableId StoredTable := .empty
  /-- Whether the engine itself drops cells whose time is up. -/
  nativeTtl : Bool := false
  deriving Inhabited

namespace Catalog

def find? (c : Catalog) (id : TableId) : Option StoredTable := c.tables.get? id

def table (c : Catalog) (id : TableId) : StoredTable := (c.find? id).getD {}

def put (c : Catalog) (id : TableId) (stored : StoredTable) : Catalog :=
  { c with tables := c.tables.insert id stored }

def create (c : Catalog) (id : TableId) (properties : TableProperties) : Catalog :=
  match c.find? id with
  | some _ => c
  | none => c.put id { properties }

def ids (c : Catalog) : List TableId := c.tables.keys

def setAvailable (c : Catalog) (id : TableId) (available : Bool) : Catalog :=
  c.put id { c.table id with available }

def perform (c : Catalog) (id : TableId) (op : TableOp) : Except Error op.Answer × Catalog :=
  let stored := c.table id
  if stored.available then
    match stored.contents.perform op with
    | .ok (answer, contents) => (.ok answer, c.put id { stored with contents })
    | .error e => (.error e, c)
  else (.error (.storageUnavailable s!"table {id.display} is unavailable"), c)

theorem table_put (c : Catalog) (id : TableId) (stored : StoredTable) (id' : TableId) :
    (c.put id stored).table id' = if id' = id then stored else c.table id' := by
  simp only [table, find?, put, SortedMap.get?_insert]
  split <;> rfl

theorem table_create (c : Catalog) (id : TableId) (properties : TableProperties)
    (id' : TableId) :
    (c.create id properties).table id' =
      if id' = id ∧ c.find? id = none then { properties } else c.table id' := by
  unfold create
  cases h : c.find? id with
  | none => simp [table_put]
  | some stored => simp

end Catalog

end Rollup
