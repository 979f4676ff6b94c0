import Rollup.Entity.Basic
import Rollup.Program

/-!
The requests of everything that reads and writes tables: one atomic operation on a table, or a
look into the memory of numbers that a reader of the entity table keeps.
-/

namespace Rollup

abbrev EntityCache := SortedMap Entity UInt32

/-- The tables of a store and the memories of those who use it. The memories are told
apart by number. -/
structure Storage where
  catalog : Catalog := {}
  caches : SortedMap Nat EntityCache := .empty
  deriving Inhabited

namespace Storage

inductive Request where
  | table (id : TableId) (op : TableOp)
  | known (cache : Nat) (entity : Entity)
  | remember (cache : Nat) (entity : Entity) (id : UInt32)

@[reducible] def Request.Answer : Request → Type
  | .table _ op => op.Answer
  | .known .. => Option UInt32
  | .remember .. => Unit

@[reducible] def interface : Interface := ⟨Request, Request.Answer⟩

def memory (s : Storage) (cache : Nat) (e : Entity) : Option UInt32 :=
  (s.caches.get? cache).bind (·.get? e)

def answer : Handler interface Storage
  | .table id op, s =>
    let (answer, catalog) := s.catalog.perform id op
    (answer, { s with catalog })
  | .known cache e, s => (.ok (s.memory cache e), s)
  | .remember cache e id, s =>
    let numbers := ((s.caches.get? cache).getD .empty).insert e id
    (.ok (), { s with caches := s.caches.insert cache numbers })

abbrev Work := Program interface

def perform (id : TableId) (op : TableOp) : Work op.Answer :=
  Program.request (I := interface) (.table id op)

def get (id : TableId) (row column : Bytes) : Work (Option Bytes) :=
  perform id (.get row column)

def put (id : TableId) (row column value : Bytes) : Work Unit :=
  perform id (.put row column value)

def swap (id : TableId) (row column : Bytes) (expected new : Option Bytes) : Work Bool :=
  perform id (.swap row column expected new)

def increment (id : TableId) (row column : Bytes) (delta : Int64) : Work Unit :=
  perform id (.increment row column delta)

def incrementAndGet (id : TableId) (row column : Bytes) (delta : Int64) : Work Int64 :=
  perform id (.incrementAndGet row column delta)

def delete (id : TableId) (row : Bytes) (columns : List Bytes) : Work Unit :=
  perform id (.delete row columns)

def deleteRange (id : TableId) (range : KeyRange) : Work Nat :=
  perform id (.deleteRange range)

def scan (id : TableId) (range : KeyRange) : Work (List Row) :=
  perform id (.scan range)

def known (cache : Nat) (e : Entity) : Work (Option UInt32) :=
  Program.request (I := interface) (.known cache e)

def remember (cache : Nat) (e : Entity) (id : UInt32) : Work Unit :=
  Program.request (I := interface) (.remember cache e id)

end Storage

end Rollup
