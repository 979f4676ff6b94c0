import Rollup.Ingestion.Processor
import Rollup.Proofs.Fact.Writing
import Rollup.Proofs.Progress.Table
import Rollup.Proofs.Program.Ensures

/-!
What ingestion keeps. The steps of a processor are entered into a journal, and each value of a
message up to a saved offset has a step there that applied it.
-/

namespace Rollup

open Storage Entity

def Bus.Holds (bus : Bus) (t : Topic) (message : Message) : Prop :=
  ∃ log, bus.log t = .ok log ∧ log[message.offset]? = some message.payload

def Bus.Bounded (bus : Bus) : Prop :=
  ∀ t log, bus.log t = .ok log → log.length ≤ Progress.maxOffset + 1

theorem Bus.bounded_iff {bus : Bus} :
    bus.Bounded ↔ ∀ e ∈ bus.topics.entries, e.2.length ≤ Progress.maxOffset + 1 := by
  have hlog : ∀ t log, bus.log t = .ok log ↔ (t, log) ∈ bus.topics.entries := by
    intro t log
    rw [SortedMap.mem_entries, Bus.log]
    cases bus.topics.get? t <;> simp
  constructor
  · exact fun h e he => h e.1 e.2 ((hlog _ _).mpr he)
  · exact fun h t log ht => h (t, log) ((hlog _ _).mp ht)

instance (bus : Bus) : Decidable bus.Bounded := decidable_of_iff _ Bus.bounded_iff.symm

def Bus.Extends (bus bus' : Bus) : Prop :=
  ∀ t log, bus.log t = .ok log → ∃ more, bus'.log t = .ok (log ++ more)

theorem Bus.Extends.refl (bus : Bus) : bus.Extends bus :=
  fun t log hlog => ⟨[], by rw [List.append_nil]; exact hlog⟩

theorem Bus.Extends.trans {bus bus' bus'' : Bus} (h : bus.Extends bus')
    (h' : bus'.Extends bus'') : bus.Extends bus'' := by
  intro t log hlog
  obtain ⟨more, hmore⟩ := h t log hlog
  obtain ⟨more', hmore'⟩ := h' t _ hmore
  exact ⟨more ++ more', by rw [← List.append_assoc]; exact hmore'⟩

theorem Bus.Extends.bounded {bus bus' : Bus} (h : bus.Extends bus') (hbounded : bus'.Bounded) :
    bus.Bounded := by
  intro t log hlog
  obtain ⟨more, hmore⟩ := h t log hlog
  have hle := hbounded t _ hmore
  rw [List.length_append] at hle
  omega

def Bus.next (after : Option Nat) : Nat :=
  match after with
  | some offset => offset + 1
  | none => 0

/-- A step applies a value to a fact table: it adds a counter to the cell of its series and
bucket, or puts a gauge there, under the numbers that the strings of the series have. -/
def FactTable.Applies (t : FactTable) (m : Metric) (s s' : Storage) : Prop :=
  ∃ k, SeriesNumbered (s.contents t.entities.table) m.series k ∧
    s' = s.update t.table ((s.contents t.table).setCell (t.rowOf k m.timestamp)
      (t.columnOf m.timestamp) (some (Bytes.ofInt64 (m.applied
        (((s.contents t.table).cell? (t.rowOf k m.timestamp) (t.columnOf m.timestamp)).map
          Bytes.toInt64)))))

namespace Ingestion

/-- A step of a processor, taken by its call for a partition unless offsets are taken up. -/
structure Step where
  call : Option Nat
  before : State
  after : State

structure Journaled where
  state : State
  journal : List Step := []

namespace Journaled

def next (x : Journaled) (call : Option Nat) (s : State) : Journaled :=
  ⟨s, x.journal ++ [⟨call, x.state, s⟩]⟩

end Journaled

def enter (context : Context) (call : Option Nat) : Handler interface Journaled
  | q, x => ((answer context q x.state).1, x.next call (answer context q x.state).2)

def enterStorage (call : Option Nat) : Handler Storage.interface Journaled
  | q, x => ((Storage.answer q x.state.storage).1,
      x.next call { x.state with storage := (Storage.answer q x.state.storage).2 })

def fallible : Request → Bool
  | .storage q => Storage.fallible q
  | _ => false

namespace Processor

def saved? (p : Processor) (s : State) (partition : Nat) : Option Nat :=
  p.progress.held? s.storage (p.saved partition)

def settled (p : Processor) (s : State) (partition : Nat) : List Message :=
  match s.bus.log (p.config.topic partition) with
  | .ok log => Bus.messagesFrom 0 (log.take (Bus.next (p.saved? s partition)))
  | .error _ => []

end Processor

/-- One of the values of a message, to be applied at one resolution. Equal values of a message
differ in their place. -/
structure Occurrence where
  partition : Nat
  message : Message
  resolution : Resolution
  place : Nat
  deriving DecidableEq

namespace Occurrence

def value? (o : Occurrence) : Option Metric :=
  match Batch.decode o.message.payload with
  | .ok batch => batch[o.place]?
  | .error _ => none

def first (n partition : Nat) (message : Message) (r : Resolution) : List Occurrence :=
  (List.range n).map fun place => ⟨partition, message, r, place⟩

/-- All values of a message, at each resolution in turn. A message that is no batch has none. -/
def all (partition : Nat) (message : Message) : List Occurrence :=
  match Batch.decode message.payload with
  | .ok batch => Resolution.all.flatMap (first batch.length partition message)
  | .error _ => []

theorem mem_all {partition : Nat} {message : Message} {o : Occurrence} {m : Metric}
    (hvalue : o.value? = some m) :
    o ∈ all partition message ↔ o.partition = partition ∧ o.message = message := by
  obtain ⟨partition', message', r, place⟩ := o
  simp only [value?] at hvalue
  constructor
  · intro hmem
    unfold all at hmem
    split at hmem
    · simp only [first, List.mem_flatMap, List.mem_map] at hmem
      obtain ⟨_, -, _, -, heq⟩ := hmem
      cases heq
      exact ⟨rfl, rfl⟩
    · cases hmem
  · rintro ⟨rfl, rfl⟩
    unfold all
    cases hbatch : Batch.decode message'.payload with
    | error e =>
        rw [hbatch] at hvalue
        cases hvalue
    | ok batch =>
        rw [hbatch] at hvalue
        obtain ⟨hlt, -⟩ := List.getElem?_eq_some_iff.mp hvalue
        exact List.mem_flatMap.mpr ⟨r, Resolution.mem_all r,
          List.mem_map.mpr ⟨place, List.mem_range.mpr hlt, rfl⟩⟩

end Occurrence

namespace Processor

/-- The call for the partition applies a value in this step, when its message is in the log. -/
def Enters (p : Processor) (o : Occurrence) (step : Step) : Prop :=
  step.call = some o.partition ∧
    step.before.bus.Holds (p.config.topic o.partition) o.message ∧
    ∃ m, o.value? = some m ∧
      (p.store.table o.resolution).current.Applies m step.before.storage step.after.storage

/-- The values are applied in their order, each by a step of its own. -/
def Entered (p : Processor) (os : List Occurrence) (journal : List Step) : Prop :=
  os.SublistForall₂ p.Enters journal

theorem Entered.mono {p : Processor} {os : List Occurrence} {journal journal' : List Step}
    (h : p.Entered os journal) (hjournal : journal.Sublist journal') : p.Entered os journal' := by
  obtain ⟨steps, hsteps, hsub⟩ := List.sublistForall₂_iff.mp h
  exact List.sublistForall₂_iff.mpr ⟨steps, hsteps, hsub.trans hjournal⟩

theorem Entered.of_sublist {p : Processor} {os os' : List Occurrence} {journal : List Step}
    (h : p.Entered os journal) (hos : os'.Sublist os) : p.Entered os' journal := by
  induction h generalizing os' with
  | nil =>
      obtain rfl := List.sublist_nil.mp hos
      exact .nil
  | cons henters _ ih =>
      cases hos with
      | cons _ hos => exact (ih hos).cons_right
      | cons_cons _ hos => exact .cons henters (ih hos)
  | cons_right _ ih => exact (ih hos).cons_right

theorem Entered.concat {p : Processor} {os : List Occurrence} {journal : List Step}
    {o : Occurrence} {step : Step} (h : p.Entered os journal) (hstep : p.Enters o step) :
    p.Entered (os ++ [o]) (journal ++ [step]) := by
  obtain ⟨steps, hsteps, hsub⟩ := List.sublistForall₂_iff.mp h
  exact List.sublistForall₂_iff.mpr ⟨steps ++ [step], List.rel_append hsteps (.cons hstep .nil),
    hsub.append (.refl _)⟩

end Processor

/-- What one step or many may change: logs, the journal and the numbers of strings are added
to, and saved offsets move on. -/
structure Grown (p : Processor) (x y : Journaled) : Prop where
  logs : x.state.bus.Extends y.state.bus
  journal : x.journal.Sublist y.journal
  numbers : ∀ id row cell, (x.state.storage.contents id).cell? row idColumn = some cell →
    (y.state.storage.contents id).cell? row idColumn = some cell
  saved : ∀ partition offset, p.saved? x.state partition = some offset →
    ∃ offset', p.saved? y.state partition = some offset' ∧ offset ≤ offset'

def Same (p : Processor) (partition : Nat) (x y : Journaled) : Prop :=
  p.saved? y.state partition = p.saved? x.state partition ∧
    y.state.offsets.get? partition = x.state.offsets.get? partition

/-- Saved offsets vouch for the messages up to them, and the offsets of the processor are
not ahead of them. For the partitions that it serves they are not far behind either: the
next batch reaches the saved offset. -/
structure Kept (p : Processor) (entities : EntityTable) (served : List Nat) (x : Journaled) :
    Prop where
  remembered : ∀ e id, x.state.storage.memory entities.cache e = some id →
    NumberedAs (x.state.storage.contents entities.table) e id
  held : ∀ partition offset, p.saved? x.state partition = some offset →
    ∃ log, x.state.bus.log (p.config.topic partition) = .ok log ∧ offset < log.length
  taken : ∀ partition,
    p.Entered ((p.settled x.state partition).flatMap (Occurrence.all partition)) x.journal
  behind : ∀ partition offset, x.state.offsets.get? partition = some offset →
    ∃ offset', p.saved? x.state partition = some offset' ∧ offset ≤ offset'
  near : ∀ partition ∈ served, ∀ offset, p.saved? x.state partition = some offset →
    offset < Bus.next (x.state.offsets.get? partition) + p.config.fetchLimit

variable {p : Processor} {entities : EntityTable} {served : List Nat} {x y z : Journaled}
  {partition : Nat} {message : Message} {m : Metric} {k : Nat}

theorem Grown.refl (p : Processor) (x : Journaled) : Grown p x x where
  logs := .refl _
  journal := .refl _
  numbers _ _ _ h := h
  saved _ offset h := ⟨offset, h, Nat.le_refl _⟩

theorem Grown.trans (h : Grown p x y) (h' : Grown p y z) : Grown p x z where
  logs := h.logs.trans h'.logs
  journal := h.journal.trans h'.journal
  numbers id row cell hcell := h'.numbers id row cell (h.numbers id row cell hcell)
  saved partition offset hsaved := by
    obtain ⟨offset₁, hsaved₁, hle⟩ := h.saved partition offset hsaved
    obtain ⟨offset₂, hsaved₂, hle'⟩ := h'.saved partition offset₁ hsaved₁
    exact ⟨offset₂, hsaved₂, Nat.le_trans hle hle'⟩

theorem Same.refl (p : Processor) (partition : Nat) (x : Journaled) : Same p partition x x :=
  ⟨rfl, rfl⟩

theorem Same.trans (h : Same p partition x y) (h' : Same p partition y z) :
    Same p partition x z :=
  ⟨h'.1.trans h.1, h'.2.trans h.2⟩

theorem Grown.holds (h : Grown p x y) {t : Topic} (hmessage : x.state.bus.Holds t message) :
    y.state.bus.Holds t message := by
  obtain ⟨log, hlog, hpayload⟩ := hmessage
  obtain ⟨more, hmore⟩ := h.logs t log hlog
  obtain ⟨hlt, -⟩ := List.getElem?_eq_some_iff.mp hpayload
  exact ⟨_, hmore, by rw [List.getElem?_append_left hlt, hpayload]⟩

theorem Grown.numberedAs (h : Grown p x y) {id : TableId} {e : Entity} {number : UInt32}
    (hid : NumberedAs (x.state.storage.contents id) e number) :
    NumberedAs (y.state.storage.contents id) e number :=
  h.numbers id e.nameRow _ hid

theorem settled_of_same (hheld : ∀ offset, p.saved? x.state partition = some offset →
      ∃ log, x.state.bus.log (p.config.topic partition) = .ok log ∧ offset < log.length)
    (hlogs : x.state.bus.Extends y.state.bus)
    (hsaved : p.saved? y.state partition = p.saved? x.state partition) :
    p.settled y.state partition = p.settled x.state partition := by
  simp only [Processor.settled, hsaved]
  cases hoffset : p.saved? x.state partition with
  | none =>
      simp only [Bus.next, List.take_zero, Bus.messagesFrom]
      split <;> split <;> rfl
  | some offset =>
      obtain ⟨log, hlog, hlt⟩ := hheld offset hoffset
      obtain ⟨more, hmore⟩ := hlogs _ log hlog
      simp only [hlog, hmore, Bus.next]
      rw [List.take_append_of_le_length hlt]

/-- A step that leaves all offsets alone. -/
structure Calm (p : Processor) (entities : EntityTable) (x y : Journaled) : Prop
    extends Grown p x y where
  same : ∀ partition, Same p partition x y
  remembered : ∀ e id, y.state.storage.memory entities.cache e = some id →
    x.state.storage.memory entities.cache e = some id ∨
      NumberedAs (y.state.storage.contents entities.table) e id

theorem Kept.calm (h : Kept p entities served x) (hcalm : Calm p entities x y) :
    Kept p entities served y where
  remembered e id hmemory := by
    rcases hcalm.remembered e id hmemory with hold | hnew
    · exact hcalm.toGrown.numberedAs (h.remembered e id hold)
    · exact hnew
  held partition offset hsaved := by
    rw [(hcalm.same partition).1] at hsaved
    obtain ⟨log, hlog, hlt⟩ := h.held partition offset hsaved
    obtain ⟨more, hmore⟩ := hcalm.logs _ log hlog
    exact ⟨_, hmore, by rw [List.length_append]; omega⟩
  taken partition := by
    rw [settled_of_same (h.held partition) hcalm.logs (hcalm.same partition).1]
    exact (h.taken partition).mono hcalm.journal
  behind partition offset hoffset := by
    rw [(hcalm.same partition).2] at hoffset
    rw [(hcalm.same partition).1]
    exact h.behind partition offset hoffset
  near partition hserved offset hsaved := by
    rw [(hcalm.same partition).1] at hsaved
    rw [(hcalm.same partition).2]
    exact h.near partition hserved offset hsaved

theorem calm_next {call : Option Nat} {s : State} (hbus : s.bus = x.state.bus) (hstorage : s.storage = x.state.storage)
    (hoffsets : s.offsets = x.state.offsets) : Calm p entities x (x.next call s) where
  logs := by
    simp only [Journaled.next, hbus]
    exact .refl _
  journal := List.sublist_append_left ..
  numbers id row cell h := by
    simp only [Journaled.next, hstorage]
    exact h
  saved partition offset h := by
    refine ⟨offset, ?_, Nat.le_refl _⟩
    simp only [Processor.saved?, Journaled.next, hstorage]
    exact h
  same partition := by
    simp only [Same, Processor.saved?, Journaled.next, hstorage, hoffsets, and_self]
  remembered e id h := by
    simp only [Journaled.next, hstorage] at h
    exact .inl h

/-- The contents of a table change, but neither a saved offset nor the number of a
string. -/
structure Settled (T T' : Table) : Prop where
  offsets : ∀ row, T'.cell? row ProgressTable.column = T.cell? row ProgressTable.column
  numbers : ∀ row cell, T.cell? row idColumn = some cell → T'.cell? row idColumn = some cell

theorem Settled.refl (T : Table) : Settled T T := ⟨fun _ => rfl, fun _ _ h => h⟩

theorem settled_setCell (T : Table) {row column : Bytes} {value : Option Bytes}
    (hoffset : column ≠ ProgressTable.column)
    (hnumber : column = idColumn → T.cell? row column = none) :
    Settled T (T.setCell row column value) where
  offsets row' := by
    rw [Table.cell?_setCell, if_neg fun h => hoffset h.2.symm]
  numbers row' cell h := by
    rw [Table.cell?_setCell]
    split
    · next heq =>
      obtain ⟨rfl, rfl⟩ := heq
      rw [hnumber rfl] at h
      cases h
    · exact h

theorem calm_update {call : Option Nat} {id : TableId} {T : Table}
    (h : Settled (x.state.storage.contents id) T) :
    Calm p entities x (x.next call { x.state with storage := x.state.storage.update id T }) := by
  have hsaved : ∀ partition, p.saved?
      (x.next call { x.state with storage := x.state.storage.update id T }).state partition =
        p.saved? x.state partition := by
    intro partition
    simp only [Processor.saved?, ProgressTable.held?, Journaled.next, contents_update]
    split
    · next heq => rw [h.offsets, heq]
    · rfl
  refine ⟨⟨?_, List.sublist_append_left .., ?_, ?_⟩, fun partition => ⟨hsaved partition, rfl⟩, ?_⟩
  · exact .refl _
  · intro id' row cell hcell
    simp only [Journaled.next, contents_update]
    split
    · next heq => exact h.numbers row cell (heq ▸ hcell)
    · exact hcell
  · intro partition offset hoffset
    exact ⟨offset, (hsaved partition).trans hoffset, Nat.le_refl _⟩
  · exact fun e number hmemory => .inl hmemory

theorem calm_noted {call : Option Nat} {cache : Nat} {e : Entity} {number : UInt32}
    (h : cache = entities.cache → NumberedAs (x.state.storage.contents entities.table) e number) :
    Calm p entities x
      (x.next call { x.state with storage := x.state.storage.noted cache e number }) := by
  refine ⟨⟨?_, List.sublist_append_left .., ?_, ?_⟩, fun partition => ⟨rfl, rfl⟩, ?_⟩
  · exact .refl _
  · exact fun id row cell hcell => hcell
  · exact fun partition offset hoffset => ⟨offset, hoffset, Nat.le_refl _⟩
  · intro e' number' hmemory
    simp only [Journaled.next, memory_noted] at hmemory
    split at hmemory
    · next heq =>
      obtain ⟨rfl, rfl⟩ := heq
      cases hmemory
      exact .inr (h rfl)
    · exact .inl hmemory

end Ingestion

end Rollup
