import Rollup.Aggregation.Pending
import Rollup.Batch.Decoder
import Rollup.MetricStore
import Rollup.Progress.Table
import Rollup.Config.Basic

/-!
Ingestion of batches from the partitions of a message bus. The offset of a message is saved only
after its values were written, so a crash in between repeats work and loses none.
-/

namespace Rollup.Ingestion

/-- Atomic steps: storage, the bus, the offsets that the processor has committed, and
the metrics that it records about itself. -/
inductive Request where
  | storage (q : Storage.Request)
  | topicExists (topic : Topic)
  | fetch (topic : Topic) (after : Option Nat) (limit : Nat)
  | committed (partition : Nat)
  | commit (partition offset : Nat)
  | increment (name : String) (delta : Int64)
  | gauge (name : String) (value : Int64)

@[reducible] def Request.Answer : Request → Type
  | .storage q => q.Answer
  | .topicExists _ => Bool
  | .fetch .. => List Message
  | .committed _ => Option Nat
  | .commit .. => Unit
  | .increment .. => Unit
  | .gauge .. => Unit

@[reducible] def interface : Interface := ⟨Request, Request.Answer⟩

abbrev Work := Program interface

def onStorage {α : Type} (p : Storage.Work α) : Work α :=
  p.expand fun q => Program.request (I := interface) (.storage q)

def topicExists (topic : Topic) : Work Bool :=
  Program.request (I := interface) (.topicExists topic)

def fetch (topic : Topic) (after : Option Nat) (limit : Nat) : Work (List Message) :=
  Program.request (I := interface) (.fetch topic after limit)

def committed (partition : Nat) : Work (Option Nat) :=
  Program.request (I := interface) (.committed partition)

def commit (partition offset : Nat) : Work Unit :=
  Program.request (I := interface) (.commit partition offset)

def increment (name : String) (delta : Int64) : Work Unit :=
  Program.request (I := interface) (.increment name delta)

def gauge (name : String) (value : Int64) : Work Unit :=
  Program.request (I := interface) (.gauge name value)

def standalone : String := "standalone"

structure Processor where
  store : MetricStore
  progress : ProgressTable
  config : MessagingConfig
  /-- Saved with each offset. -/
  worker : String := standalone
  partitions : List Nat
  /-- The tags of the metrics that the processor records about itself. -/
  context : Context

namespace Processor

def saved (p : Processor) (partition : Nat) : Partition :=
  ⟨(p.config.topic partition).name, partition⟩

/-- Checks that the topic of each partition is there and takes up its saved offset. -/
def restoreAll (p : Processor) : List Nat → Work Unit
  | [] => return ()
  | partition :: rest => do
    let topic := p.config.topic partition
    if ← topicExists topic then
      match ← onStorage (p.progress.readOffset (p.saved partition)) with
      | some offset => commit partition offset
      | none => pure ()
      p.restoreAll rest
    else .fail (.topicNotFound topic.display)

def restore (p : Processor) : Work Unit := p.restoreAll p.partitions

/-- Writes the values of a message and counts them. A message that is no batch can never
be written; it is counted and passed over, so that it does not hold up its partition. -/
def apply (p : Processor) (message : Message) : Work Nat := do
  match Batch.decode message.payload with
  | .ok batch =>
    onStorage (p.store.addAll batch)
    return batch.length
  | .error _ =>
    increment "process.skipped" 1
    return 0

def applyAll (p : Processor) (messages : List Message) : Work Nat := do
  let written ← messages.mapM p.apply
  return written.foldr (· + ·) 0

def processOnce (p : Processor) (partition : Nat) : Work Nat := do
  let topic := p.config.topic partition
  let after ← committed partition
  let messages ← fetch topic after p.config.fetchLimit
  match messages.getLast? with
  | none => return 0
  | some last =>
    let written ← p.applyAll messages
    onStorage (p.progress.save (p.saved partition) ⟨last.offset, p.worker⟩)
    commit partition last.offset
    increment "process.count" (Int64.ofNat written)
    gauge "process.offset" (Int64.ofNat last.offset)
    return messages.length

end Processor

structure State where
  storage : Storage
  bus : Bus
  offsets : SortedMap Nat Nat := .empty
  pending : Pending := {}

def answer (context : Context) : Handler interface State
  | .storage q, s =>
    let (answer, storage) := Storage.answer q s.storage
    (answer, { s with storage })
  | .topicExists topic, s => (.ok (s.bus.exists? topic), s)
  | .fetch topic after limit, s => (s.bus.fetch topic after limit, s)
  | .committed partition, s => (.ok (s.offsets.get? partition), s)
  | .commit partition offset, s =>
    (.ok (), { s with offsets := s.offsets.insert partition offset })
  | .increment name delta, s =>
    (.ok (), { s with pending := s.pending.increment ⟨name, context⟩ delta })
  | .gauge name value, s =>
    (.ok (), { s with pending := s.pending.gauge ⟨name, context⟩ value })

end Rollup.Ingestion
