import Rollup.Aggregation.Pending
import Rollup.MetricStore

/-!
Publication of gathered metrics. Taking, publishing and putting back are single steps, so that
metrics may be recorded and other flushes run between them.
-/

namespace Rollup

namespace Flushing

inductive Request where
  | drain
  | publish (batch : List Metric)
  | requeue (batch : List Metric)

@[reducible] def Request.Answer : Request → Type
  | .drain => List Metric
  | .publish _ => Unit
  | .requeue _ => Unit

@[reducible] def interface : Interface := ⟨Request, Request.Answer⟩

abbrev Work := Program interface

def drain : Work (List Metric) := Program.request (I := interface) .drain

def publish (batch : List Metric) : Work Unit :=
  Program.request (I := interface) (.publish batch)

def requeue (batch : List Metric) : Work Unit :=
  Program.request (I := interface) (.requeue batch)

def flush : Work Nat := do
  let batch ← drain
  if batch.isEmpty then return 0
  match ← (publish batch).attempt with
  | .ok () => return batch.length
  | .error e =>
    requeue batch
    .fail e

/-- Answers from gathered metrics and a publisher with a state of its own. -/
def answer {σ : Type} (now : Int64) (send : List Metric → σ → Except Error Unit × σ) :
    Handler interface (Pending × σ)
  | .drain, (pending, s) =>
    let (batch, pending) := pending.drain now
    (.ok batch, (pending, s))
  | .publish batch, (pending, s) =>
    let (outcome, s) := send batch s
    (outcome, (pending, s))
  | .requeue batch, (pending, s) => (.ok (), (pending.requeue batch, s))

end Flushing

namespace MetricStore

def send (store : MetricStore) (batch : List Metric) (s : Storage) :
    Except Error Unit × Storage :=
  (store.addAll batch).run Storage.answer s

def flush (store : MetricStore) (now : Int64) (pending : Pending) (s : Storage) :
    Except Error Nat × Pending × Storage :=
  Flushing.flush.run (Flushing.answer now store.send) (pending, s)

end MetricStore

/-- A publisher that keeps what it accepts, and that can be told to refuse. -/
structure Outbox where
  refusing : Bool := false
  accepted : List Metric := []
  deriving Inhabited

namespace Outbox

def send (batch : List Metric) (o : Outbox) : Except Error Unit × Outbox :=
  if o.refusing then (.error (.storageUnavailable "down"), o)
  else (.ok (), { o with accepted := o.accepted ++ batch })

def flush (now : Int64) (pending : Pending) (o : Outbox) :
    Except Error Nat × Pending × Outbox :=
  Flushing.flush.run (Flushing.answer now send) (pending, o)

end Outbox

end Rollup
