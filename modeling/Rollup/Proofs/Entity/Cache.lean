import Rollup.Proofs.Entity.Room
import Rollup.Proofs.Storage.Outage

/-!
Memories of numbers make no difference, because every number in a memory is in the table
(`Remembers`), where it never changes.
-/

namespace Rollup

open Storage Entity

namespace EntityTable

variable {t : EntityTable} {table : TableId} {T T' : Table} {e : Entity} {id : UInt32}
  {u u' v : Unsteady} {s : Storage}

theorem Step.numberedAs {op : TableOp} {a : op.Answer} (h : Step op)
    (hperform : T.perform op = .ok (a, T')) (hid : NumberedAs T e id) : NumberedAs T' e id := by
  rw [NumberedAs] at hid ⊢
  cases h with
  | read row =>
      cases hperform
      exact hid
  | count kind =>
      obtain ⟨-, rfl⟩ := Table.of_add_ok hperform
      simp [Table.cell?_setCell, hid]
  | record kind' id name =>
      cases hperform
      simp [Table.cell?_setCell, hid]
  | claim e' id' =>
      simp only [Table.perform] at hperform
      split at hperform <;> cases hperform
      · rename_i hfree
        have hrow : e.nameRow ≠ e'.nameRow := by
          intro hrow
          rw [hrow, hfree] at hid
          cases hid
        simp [Table.cell?_setCell, hrow, hid]
      · exact hid
  | retract kind' id name =>
      simp only [Table.perform] at hperform
      split at hperform <;> cases hperform
      · simp [Table.cell?_setCell, hid]
      · exact hid

def Remembers (table : TableId) (s : Storage) : Prop :=
  ∀ cache e id, s.memory cache e = some id → NumberedAs (s.contents table) e id

theorem Remembers.evicted (h : Remembers table u.storage) : Remembers table u.evicted := by
  intro cache e id hid
  rw [Unsteady.contents_evicted]
  exact h cache e id (Unsteady.memory_of_evicted hid)

/-- An operation on the table that changes the number of no string. -/
def Preserving (table : TableId) (q : Request) : Prop :=
  ∃ op, q = .table table op ∧ ∀ T T' a e id, T.perform op = .ok (a, T') →
    NumberedAs T e id → NumberedAs T' e id

theorem Numbers.preserving {q : Request} (h : t.Numbers q) : Preserving t.table q := by
  obtain ⟨op, rfl, hop⟩ := h
  exact ⟨op, rfl, fun T T' a e id hperform hid => hop.numberedAs hperform hid⟩

theorem Remembers.answer {q : Request} (hq : Preserving table q)
    (h : Remembers table u.storage) : Remembers table (Unsteady.answer q u).2.storage := by
  obtain ⟨op, rfl, hop⟩ := hq
  rcases Unsteady.answer_table u table op with ⟨err, heq⟩ | ⟨a, T, hperform, heq⟩
  · rw [heq]
    exact h.evicted
  · rw [heq]
    intro cache e id hid
    have hkept := h.evicted cache e id hid
    rw [Unsteady.contents_evicted] at hkept
    rw [contents_update, if_pos rfl]
    exact hop _ _ a e id hperform hkept

theorem Remembers.answer_table {id : TableId} {op : TableOp} (h : Remembers table u.storage)
    (hkept : ∀ e number, NumberedAs (u.storage.contents table) e number →
      NumberedAs ((Unsteady.answer (.table id op) u).2.storage.contents table) e number) :
    Remembers table (Unsteady.answer (.table id op) u).2.storage := by
  intro cache e number hmemory
  refine hkept e number (h cache e number (Unsteady.memory_of_evicted ?_))
  rcases u.answer_table id op with ⟨err, heq⟩ | ⟨a, T, -, heq⟩ <;> rw [heq] at hmemory <;>
    exact hmemory

theorem Remembers.noted (h : Remembers table s) {cache : Nat}
    (hid : NumberedAs (s.contents table) e id) : Remembers table (s.noted cache e id) := by
  intro cache' e' id' hmemory
  rw [memory_noted] at hmemory
  rw [contents_noted]
  split at hmemory
  · rename_i heq
    obtain ⟨-, rfl⟩ := heq
    cases hmemory
    exact hid
  · exact h cache' e' id' hmemory

def Tells (T : Table) (e : Entity) (found : Option UInt32) : Prop :=
  T.cell? e.nameRow idColumn = found.map Bytes.ofUInt32

theorem run_table_ok {id : TableId} {op : TableOp} {a : op.Answer}
    (h : (perform id op).run Unsteady.answer u = (.ok a, u')) :
    (u.storage.contents id).perform op = .ok (a, u'.storage.contents id) := by
  have hanswer : Unsteady.answer (.table id op) u = (.ok a, u') := h
  rcases Unsteady.answer_table u id op with ⟨e, heq⟩ | ⟨a', T, hperform, heq⟩
  · cases heq.symm.trans hanswer
  · cases heq.symm.trans hanswer
    rw [contents_update, if_pos rfl]
    exact hperform

theorem run_get_ok {id : TableId} {row column : Bytes} {cell : Option Bytes}
    (h : (get id row column).run Unsteady.answer u = (.ok cell, u')) :
    (u'.storage.contents id).cell? row column = cell := by
  have hperform := run_table_ok h
  simp only [Table.perform, Except.ok.injEq, Prod.mk.injEq] at hperform
  rw [← hperform.2, hperform.1]

theorem run_swap_ok {id : TableId} {row column value : Bytes} {expected : Option Bytes}
    (h : (swap id row column expected (some value)).run Unsteady.answer u = (.ok true, u')) :
    (u'.storage.contents id).cell? row column = some value := by
  have hperform := run_table_ok h
  simp only [Table.perform] at hperform
  split at hperform
  · simp only [Except.ok.injEq, Prod.mk.injEq, true_and] at hperform
    rw [← hperform, Table.cell?_setCell]
    simp
  · simp at hperform

theorem read_run_ok {found : Option UInt32}
    (h : (t.read e).run Unsteady.answer u = (.ok found, u')) :
    Tells (u'.storage.contents t.table) e found := by
  obtain ⟨cell, u₁, hget, hcell⟩ := Program.run_bind_ok h
  have hstored := run_get_ok hget
  cases cell with
  | none =>
      cases hcell
      exact hstored
  | some cell =>
      cases hread : readId cell with
      | error err => simp [hread, Except.map] at hcell
      | ok id =>
          rw [readId_eq_ok_iff] at hread
          simp only [hread, readId_ofUInt32, Except.map, Program.run_result] at hcell
          cases hcell
          rw [hread] at hstored
          exact hstored

theorem yieldClaim_run_ok {reserved : UInt32}
    (h : (t.yieldClaim e reserved).run Unsteady.answer u = (.ok id, u')) :
    NumberedAs (u'.storage.contents t.table) e id := by
  obtain ⟨_, u₁, -, h⟩ := Program.run_bind_ok h
  obtain ⟨cell, u₂, hget, hcell⟩ := Program.run_bind_ok h
  have hstored := run_get_ok hget
  cases cell with
  | none => cases hcell
  | some cell =>
      obtain ⟨hread, rfl⟩ := Prod.mk.inj hcell
      rw [readId_eq_ok_iff] at hread
      rw [NumberedAs, hstored, hread]

theorem allocate_run_ok (h : (t.allocate e).run Unsteady.answer u = (.ok id, u')) :
    NumberedAs (u'.storage.contents t.table) e id := by
  obtain ⟨next, u₁, -, h⟩ := Program.run_bind_ok h
  split at h
  · obtain ⟨_, u₂, -, h⟩ := Program.run_bind_ok h
    obtain ⟨claimed, u₃, hswap, h⟩ := Program.run_bind_ok h
    cases claimed with
    | true =>
        cases h
        exact run_swap_ok hswap
    | false => exact yieldClaim_run_ok h
  · cases h

theorem readOrAllocate_run_ok (h : (t.readOrAllocate e).run Unsteady.answer u = (.ok id, u')) :
    NumberedAs (u'.storage.contents t.table) e id := by
  obtain ⟨found, u₁, hread, h⟩ := Program.run_bind_ok h
  cases found with
  | some id =>
      cases h
      exact read_run_ok hread
  | none => exact allocate_run_ok h

theorem catalog_update_contents {id : TableId} (h : s.contents id ≠ .empty) :
    (s.update id (s.contents id)).catalog = s.catalog := by
  cases hfind : s.catalog.find? id with
  | none => simp [contents, Catalog.table, hfind] at h
  | some stored => exact Catalog.put_self (by simp [contents, Catalog.table, hfind])

theorem get_run_cases {id : TableId} (row column : Bytes) (h : u.storage.contents id ≠ .empty) :
    ∃ u', u'.storage.catalog = u.storage.catalog ∧
      ((∃ err, (get id row column).run Unsteady.answer u = (.error err, u')) ∨
        (get id row column).run Unsteady.answer u =
          (.ok ((u.storage.contents id).cell? row column), u')) := by
  rcases Unsteady.answer_table u id (.get row column) with ⟨err, heq⟩ | ⟨cell, T, hperform, heq⟩
  · refine ⟨_, ?_, .inl ⟨err, heq⟩⟩
    exact u.catalog_evicted
  · simp only [Table.perform, Except.ok.injEq, Prod.mk.injEq] at hperform
    obtain ⟨rfl, rfl⟩ := hperform
    rw [← Unsteady.contents_evicted] at h heq ⊢
    refine ⟨_, ?_, .inr heq⟩
    exact (catalog_update_contents h).trans u.catalog_evicted

theorem read_run_of_numbered (hid : NumberedAs (u.storage.contents t.table) e id) :
    ∃ u', u'.storage.catalog = u.storage.catalog ∧
      ((∃ err, (t.read e).run Unsteady.answer u = (.error err, u')) ∨
        (t.read e).run Unsteady.answer u = (.ok (some id), u')) := by
  have hne : u.storage.contents t.table ≠ .empty := by
    intro hempty
    rw [NumberedAs, hempty] at hid
    cases hid
  obtain ⟨u', hcatalog, ⟨err, hget⟩ | hget⟩ := get_run_cases e.nameRow idColumn hne
  · exact ⟨u', hcatalog, .inl ⟨err, Program.run_bind_of_error hget⟩⟩
  · rw [hid] at hget
    refine ⟨u', hcatalog, .inr ((Program.run_bind_of_ok hget).trans ?_)⟩
    simp only [readId_ofUInt32]
    rfl

/-- Looks into the memory before it goes to the table, and notes the number that it finds
there. -/
def throughMemory (t : EntityTable) (e : Entity) {α : Type} (found : UInt32 → α)
    (number? : α → Option UInt32) (direct : Work α) : Work α :=
  (known t.cache e).bind fun
    | some id => .result (.ok (found id))
    | none => direct.bind fun a =>
      match number? a with
      | some id => (remember t.cache e id).bind fun _ => .result (.ok a)
      | none => .result (.ok a)

theorem resolve_eq (t : EntityTable) (e : Entity) :
    t.resolve e = t.throughMemory e (fun id => id) some (t.readOrAllocate e) := by
  show (known t.cache e).bind _ = (known t.cache e).bind _
  refine congrArg _ (funext fun known => ?_)
  cases known <;> rfl

theorem lookup_eq (t : EntityTable) (e : Entity) :
    t.lookup e = t.throughMemory e some (fun found => found) (t.read e) := by
  show (known t.cache e).bind _ = (known t.cache e).bind _
  refine congrArg _ (funext fun known => ?_)
  cases known with
  | some id => rfl
  | none =>
      show (t.read e).bind _ = (t.read e).bind _
      refine congrArg _ (funext fun found => ?_)
      cases found <;> rfl

/-- What a call through a memory has come to, beside the same call without one: the tables
are the same, the value of the one is the value of the other, and it is as the table says. -/
structure Transparent {α : Type} (table : TableId) (fits : Table → α → Prop)
    (met met' : Except Error α × Unsteady) : Prop where
  catalog : met.2.storage.catalog = met'.2.storage.catalog
  remembers : Remembers table met.2.storage
  same : ∀ a, met'.1 = .ok a → met.1 = .ok a
  fits : ∀ a, met.1 = .ok a → fits (met.2.storage.contents table) a

theorem direct_run {α : Type} {fits : Table → α → Prop} {p : Work α}
    (hp : p.Only (Preserving table))
    (hfits : ∀ u a u', p.run Unsteady.answer u = (.ok a, u') → fits (u'.storage.contents table) a)
    (halike : u.Alike v) (hu : Remembers table u.storage) :
    Transparent table fits (p.run Unsteady.answer u) (p.run Unsteady.answer v) := by
  have hrun := Unsteady.run_alike
    (Program.only_mono (fun q ⟨op, hq, _⟩ => ⟨table, op, hq⟩) hp) halike
  exact ⟨hrun.2.1, hp.run (fun u : Unsteady => Remembers table u.storage)
    (fun q u hq hu => hu.answer hq) hu, fun a ha => hrun.1.trans ha,
    fun a ha => hfits u a _ (Prod.ext ha rfl)⟩

theorem throughMemory_run {α : Type} {found : UInt32 → α} {number? : α → Option UInt32}
    {direct : Work α} (hdirect : direct.Only t.Numbers) (hfound : ∀ id, number? (found id) = some id)
    (hread : ∀ u id, NumberedAs (u.storage.contents t.table) e id →
      ∃ u', u'.storage.catalog = u.storage.catalog ∧
        ((∃ err, direct.run Unsteady.answer u = (.error err, u')) ∨
          direct.run Unsteady.answer u = (.ok (found id), u')))
    (htells : ∀ u a u', direct.run Unsteady.answer u = (.ok a, u') →
      Tells (u'.storage.contents t.table) e (number? a))
    (halike : u.Alike v) (hu : Remembers t.table u.storage) :
    Transparent t.table (fun T a => Tells T e (number? a))
      ((t.throughMemory e found number? direct).run Unsteady.answer u)
      (direct.run Unsteady.answer v) := by
  have hknown : (known t.cache e).run Unsteady.answer u =
      (.ok (u.evicted.memory t.cache e), ⟨u.evicted, u.outages, u.evictions.tail⟩) := rfl
  have halike' : Unsteady.Alike ⟨u.evicted, u.outages, u.evictions.tail⟩ v :=
    ⟨u.catalog_evicted.trans halike.1, halike.2⟩
  rw [throughMemory, Program.run_bind_of_ok hknown]
  cases hmemory : u.evicted.memory t.cache e with
  | some id =>
      have hid := hu.evicted t.cache e id hmemory
      have hid' : NumberedAs (v.storage.contents t.table) e id := by
        rwa [contents, ← halike'.1]
      obtain ⟨v', hcatalog, hrun⟩ := hread v id hid'
      refine ⟨?_, hu.evicted, fun a ha => ?_, fun a ha => ?_⟩
      · rcases hrun with ⟨err, hrun⟩ | hrun <;> rw [hrun] <;> exact halike'.1.trans hcatalog.symm
      · rcases hrun with ⟨err, hrun⟩ | hrun <;> rw [hrun] at ha <;> cases ha
        rfl
      · cases ha
        rw [Tells, hfound]
        exact hid
  | none =>
      have hmet : Transparent t.table (fun T a => Tells T e (number? a))
          (direct.run Unsteady.answer ⟨u.evicted, u.outages, u.evictions.tail⟩)
          (direct.run Unsteady.answer v) :=
        direct_run (Program.only_mono (fun _ h => h.preserving) hdirect) htells halike' hu.evicted
      rcases hdone : direct.run Unsteady.answer ⟨u.evicted, u.outages, u.evictions.tail⟩ with
        ⟨_ | a, u'⟩
      · rw [Program.run_bind_of_error hdone, ← hdone]
        exact hmet
      · rw [hdone] at hmet
        rw [Program.run_bind_of_ok hdone]
        cases hnumber : number? a with
        | none => exact hmet
        | some id =>
            have hid := hmet.fits a rfl
            rw [hnumber, Tells, ← u'.contents_evicted] at hid
            have hnoted : (remember t.cache e id).run Unsteady.answer u' =
              (.ok (), ⟨u'.evicted.noted t.cache e id, u'.outages, u'.evictions.tail⟩) := rfl
            rw [Program.run_bind_of_ok hnoted]
            refine ⟨u'.catalog_evicted.trans hmet.catalog, hmet.remembers.evicted.noted hid,
              hmet.same, fun a' ha => ?_⟩
            cases ha
            rw [hnumber]
            exact hid

inductive Question where
  | resolve (e : Entity)
  | lookup (e : Entity)
  | nameOf (kind : EntityKind) (id : UInt32)

namespace Question

@[reducible] def Answer : Question → Type
  | resolve _ => UInt32
  | lookup _ => Option UInt32
  | nameOf .. => Option String

def ask (t : EntityTable) : (q : Question) → Work q.Answer
  | resolve e => t.resolve e
  | lookup e => t.lookup e
  | nameOf kind id => t.nameOf kind id

def read (t : EntityTable) : (q : Question) → Work q.Answer
  | resolve e => t.readOrAllocate e
  | lookup e => t.read e
  | nameOf kind id => t.nameOf kind id

def Answered (T : Table) : (q : Question) → q.Answer → Prop
  | resolve e, id => NumberedAs T e id
  | lookup e, found => Tells T e found
  | nameOf kind id, name =>
    (T.cell? (numberRow kind id) nameColumn).map (readName id) = name.map .ok

theorem nameOf_preserving (t : EntityTable) (kind : EntityKind) (id : UInt32) :
    (t.nameOf kind id).Only (Preserving t.table) := by
  refine Program.only_bind (Program.only_request ⟨_, rfl, ?_⟩) fun cell => ?_
  · rintro T T' a e id ⟨⟩ hid
    exact hid
  · cases cell <;> exact Program.only_result _

theorem nameOf_run_ok {kind : EntityKind} {name : Option String}
    (h : (t.nameOf kind id).run Unsteady.answer u = (.ok name, u')) :
    (nameOf kind id).Answered (u'.storage.contents t.table) name := by
  obtain ⟨cell, u₁, hget, hcell⟩ := Program.run_bind_ok h
  have hstored := run_get_ok hget
  cases cell with
  | none =>
      cases hcell
      exact congrArg (Option.map (readName id)) hstored
  | some cell =>
      obtain ⟨hread, rfl⟩ := Prod.mk.inj hcell
      cases hname : readName id cell with
      | error err => simp [hname, Except.map] at hread
      | ok text =>
          rw [hname] at hread
          cases hread
          exact (congrArg (Option.map (readName id)) hstored).trans (congrArg some hname)

theorem readOrAllocate_run_of_numbered (hid : NumberedAs (u.storage.contents t.table) e id) :
    ∃ u', u'.storage.catalog = u.storage.catalog ∧
      ((∃ err, (t.readOrAllocate e).run Unsteady.answer u = (.error err, u')) ∨
        (t.readOrAllocate e).run Unsteady.answer u = (.ok id, u')) := by
  obtain ⟨u', hcatalog, ⟨err, hread⟩ | hread⟩ := read_run_of_numbered hid
  · exact ⟨u', hcatalog, .inl ⟨err, Program.run_bind_of_error hread⟩⟩
  · exact ⟨u', hcatalog, .inr (Program.run_bind_of_ok hread)⟩

theorem ask_transparent (q : Question) (halike : u.Alike v) (hu : Remembers t.table u.storage) :
    Transparent t.table q.Answered ((q.ask t).run Unsteady.answer u)
      ((q.read t).run Unsteady.answer v) := by
  cases q with
  | resolve e =>
      rw [ask, resolve_eq]
      exact throughMemory_run (t.readOrAllocate_numbers e) (fun _ => rfl)
        (fun u id hid => readOrAllocate_run_of_numbered hid)
        (fun u id u' hrun => readOrAllocate_run_ok hrun) halike hu
  | lookup e =>
      rw [ask, lookup_eq]
      exact throughMemory_run (Program.only_mono (fun _ h => h.1) (t.read_numbers e))
        (fun _ => rfl) (fun u id hid => read_run_of_numbered hid)
        (fun u found u' hrun => read_run_ok hrun) halike hu
  | nameOf kind id =>
      exact direct_run (nameOf_preserving t kind id) (fun u name u' hrun => nameOf_run_ok hrun)
        halike hu

end Question

/-- A question put through one of the memories, with the outages that its table operations
meet and what is dropped from memories meanwhile. -/
structure Call where
  memory : Nat
  question : Question
  outages : List (Option Error) := []
  evictions : List (List (Nat × Entity)) := []

namespace Call

def handle (c : Call) (table : TableId) : EntityTable := ⟨table, c.memory⟩

def through (c : Call) (table : TableId) (s : Storage) :
    Except Error c.question.Answer × Storage :=
  let met := (c.question.ask (c.handle table)).run Unsteady.answer ⟨s, c.outages, c.evictions⟩
  (met.1, met.2.storage)

def without (c : Call) (table : TableId) (catalog : Catalog) :
    Except Error c.question.Answer × Catalog :=
  let met := (c.question.read (c.handle table)).run Unsteady.answer ⟨{ catalog }, c.outages, []⟩
  (met.1, met.2.storage.catalog)

end Call

theorem Call.transparent {catalog : Catalog} (c : Call) (hs : s.catalog = catalog)
    (hmemory : Remembers table s) :
    (c.through table s).2.catalog = (c.without table catalog).2 ∧
      Remembers table (c.through table s).2 ∧
      (∀ a, (c.without table catalog).1 = .ok a → (c.through table s).1 = .ok a) ∧
      ∀ a, (c.through table s).1 = .ok a →
        c.question.Answered ((c.through table s).2.contents table) a := by
  obtain ⟨hcatalog, hremembers, hsame, hfits⟩ := c.question.ask_transparent
    (t := c.handle table) (u := ⟨s, c.outages, c.evictions⟩) (v := ⟨{ catalog }, c.outages, []⟩)
    ⟨hs, rfl⟩ hmemory
  exact ⟨hcatalog, hremembers, hsame, hfits⟩

theorem calls_transparent {catalog : Catalog} (calls : List Call) (hs : s.catalog = catalog)
    (hmemory : Remembers table s) :
    (calls.foldl (fun s c => (c.through table s).2) s).catalog =
        calls.foldl (fun d c => (c.without table d).2) catalog ∧
      Remembers table (calls.foldl (fun s c => (c.through table s).2) s) := by
  induction calls generalizing s catalog with
  | nil => exact ⟨hs, hmemory⟩
  | cons c calls ih =>
      obtain ⟨hcatalog, hremembers, -⟩ := c.transparent hs hmemory
      exact ih hcatalog hremembers

/-- Memories make no difference, whatever calls have been made before: the tables are the
same as without them, and so is every value. A value that is answered while the table is out
of reach is the one in the table. -/
theorem memories_transparent (table : TableId) (catalog : Catalog) (calls : List Call) (c : Call) :
    let s := calls.foldl (fun s c => (c.through table s).2) { catalog }
    let d := calls.foldl (fun d c => (c.without table d).2) catalog
    (c.through table s).2.catalog = (c.without table d).2 ∧
      (∀ a, (c.without table d).1 = .ok a → (c.through table s).1 = .ok a) ∧
      ∀ a, (c.through table s).1 = .ok a →
        c.question.Answered ((c.through table s).2.contents table) a := by
  intro s d
  have hempty : Remembers table { catalog } := fun _ _ _ h => by cases h
  obtain ⟨hcatalog, hremembers⟩ := calls_transparent calls rfl hempty
  obtain ⟨hsame, -, hvalues⟩ := c.transparent hcatalog hremembers
  exact ⟨hsame, hvalues⟩

/-- The memory that has numbered a string answers when the table cannot; the other one does
not. -/
example :
    let table : TableId := ⟨"s", "e"⟩
    let s := (Call.through { memory := 0, question := .resolve ⟨.metric, "m"⟩ } table {}).2
    let lookUp (memory : Nat) : Call :=
      { memory, question := .lookup ⟨.metric, "m"⟩, outages := [some (.storageUnavailable "down")] }
    ((lookUp 0).through table s).1 = .ok (some 1) ∧
      ((lookUp 1).through table s).1 = .error (.storageUnavailable "down") :=
  ⟨rfl, rfl⟩

end EntityTable

end Rollup
