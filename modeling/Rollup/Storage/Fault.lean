import Rollup.Storage

namespace Rollup

inductive TableMethod where
  | get
  | put
  | swap
  | increment
  | incrementAndGet
  | delete
  | deleteRange
  | scan
  deriving DecidableEq, Repr

namespace TableMethod

def all : List TableMethod :=
  [get, put, swap, increment, incrementAndGet, delete, deleteRange, scan]

def name : TableMethod → String
  | get => "get"
  | put => "put"
  | swap => "swap"
  | increment => "increment"
  | incrementAndGet => "increment_and_get"
  | delete => "delete"
  | deleteRange => "delete_range"
  | scan => "scan"

end TableMethod

namespace TableOp

def method : TableOp → TableMethod
  | get .. => .get
  | put .. => .put
  | swap .. => .swap
  | increment .. => .increment
  | incrementAndGet .. => .incrementAndGet
  | delete .. => .delete
  | deleteRange .. => .deleteRange
  | scan .. => .scan

def subject : TableOp → Bytes
  | get row _ | put row _ _ | swap row _ _ _ | increment row _ _ | incrementAndGet row _ _
  | delete row _ => row
  | deleteRange range | scan range => range.start

end TableOp

/-- What happens to the operation that a fault meets. -/
inductive FaultMode where
  /-- It fails and does nothing. -/
  | refuse
  /-- A swap reports that the cell was not as expected, and does nothing. -/
  | denySwap
  /-- Before a swap, another writer puts a value into the cell. -/
  | putFirst (value : Bytes)
  deriving DecidableEq, Repr

/-- A fault lies in wait for operations of one kind on rows that begin with `row`, and
lets the first `skip` of them pass. -/
structure Fault where
  table : TableId
  method : TableMethod
  row : Bytes
  mode : FaultMode
  skip : Nat
  deriving DecidableEq, Repr

namespace Fault

def matchesOp (f : Fault) (id : TableId) (op : TableOp) : Bool :=
  f.table == id && f.method == op.method && f.row.isPrefixOf op.subject

/-- Asks the first fault that matches an operation. It either lets the operation pass
once more or is used up. -/
def consult (id : TableId) (op : TableOp) : List Fault → Option FaultMode × List Fault
  | [] => (none, [])
  | f :: fs =>
    if f.matchesOp id op then
      match f.skip with
      | 0 => (some f.mode, fs)
      | n + 1 => (none, { f with skip := n } :: fs)
    else
      let (mode, fs) := consult id op fs
      (mode, f :: fs)

end Fault

structure FaultyStorage where
  storage : Storage := {}
  faults : List Fault := []
  deriving Inhabited

namespace FaultyStorage

def spoil (id : TableId) (s : Storage) : FaultMode → (op : TableOp) →
    Except Error op.Answer × Storage
  | .refuse, _ => (.error (.storageUnavailable "injected"), s)
  | .denySwap, .swap .. => (.ok false, s)
  | .putFirst value, .swap row column expected new =>
    let (_, s) := Storage.answer (.table id (.put row column value)) s
    Storage.answer (.table id (.swap row column expected new)) s
  | _, op => Storage.answer (.table id op) s

def answer : Handler Storage.interface FaultyStorage
  | .table id op, st =>
    let (mode, faults) := Fault.consult id op st.faults
    let (answer, storage) :=
      match mode with
      | none => Storage.answer (.table id op) st.storage
      | some mode => spoil id st.storage mode op
    (answer, { storage, faults })
  | q, st =>
    let (answer, storage) := Storage.answer q st.storage
    (answer, { st with storage })

end FaultyStorage

end Rollup
