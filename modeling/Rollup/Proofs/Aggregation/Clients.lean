import Rollup.Aggregation.FlushLoops
import Rollup.Proofs.Aggregation.Tally
import Rollup.Proofs.Program.Pool

/-!
Those who flush what others record. A client has at most one batch in hand, which it publishes
or puts back next (`Careful`); a loop is such a client.
-/

namespace Rollup

namespace Context

variable {path path' : List Tags}

def along (path : List Tags) : Context := path.foldl child root

theorem get?_along (path : List Tags) (name : String) :
    (along path).get? name = path.reverse.findSome? (·.get? name) := by
  induction path using List.reverseRecOn with
  | nil => rfl
  | append_singleton path tags ih =>
      rw [along, List.foldl_append, List.foldl_cons, List.foldl_nil, child,
        SortedMap.get?_union, ← along, ih, List.reverse_concat, List.findSome?_cons]
      cases tags.get? name <;> rfl

/-- Chains make one context if and only if they last give every tag the same value. -/
theorem along_eq_iff : along path = along path' ↔ ∀ name,
    path.reverse.findSome? (·.get? name) = path'.reverse.findSome? (·.get? name) := by
  simp only [← get?_along]
  exact ⟨fun h _ => by rw [h], SortedMap.ext_get?⟩

end Context

namespace Flushing

open Program

variable {α β σ : Type} {p : Work α} {f : α → Work β}

def Request.batch : Request → List Metric
  | .drain => []
  | .publish batch => batch
  | .requeue batch => batch

def holding : Work α → List Metric
  | .result _ => []
  | .call q _ => q.batch

def leaves : (q : Request) → Except Error q.Answer → List Metric
  | .drain, .ok batch => batch
  | .drain, .error _ => []
  | .publish _, .ok _ => []
  | .publish batch, .error _ => batch
  | .requeue _, _ => []

/-- The batch that a request leaves in hand is published or put back next. -/
def Careful : Work α → Prop
  | .result _ => True
  | .call q resume => ∀ answer,
      holding (resume answer) = leaves q answer ∧ Careful (resume answer)

theorem holding_bind (hf : ∀ a, holding (f a) = []) : holding (p.bind f) = holding p := by
  cases p with
  | result outcome =>
      cases outcome with
      | ok a => exact hf a
      | error e => rfl
  | call q resume => rfl

theorem holding_attempt (p : Work α) : holding p.attempt = holding p := by
  cases p <;> rfl

theorem careful_bind (hp : Careful p) (hf : ∀ a, Careful (f a) ∧ holding (f a) = []) :
    Careful (p.bind f) := by
  induction p with
  | result outcome =>
      cases outcome with
      | ok a => exact (hf a).1
      | error e => trivial
  | call q resume ih =>
      intro answer
      obtain ⟨hhand, hrest⟩ := hp answer
      exact ⟨(holding_bind fun a => (hf a).2).trans hhand, ih answer hrest⟩

theorem careful_attempt (hp : Careful p) : Careful p.attempt := by
  induction p with
  | result outcome => trivial
  | call q resume ih =>
      intro answer
      obtain ⟨hhand, hrest⟩ := hp answer
      exact ⟨(holding_attempt _).trans hhand, ih answer hrest⟩

theorem careful_flush : Careful flush := by
  intro drained
  cases drained with
  | error e => exact ⟨rfl, trivial⟩
  | ok batch =>
      cases batch with
      | nil => exact ⟨rfl, trivial⟩
      | cons m batch =>
          refine ⟨rfl, fun published => ?_⟩
          cases published with
          | ok => exact ⟨rfl, trivial⟩
          | error e =>
              refine ⟨rfl, fun returned => ?_⟩
              cases returned <;> exact ⟨rfl, trivial⟩

/-- A loop with so many ticks before it is stopped. A flush that fails is made good by the
next one; the last one tells how the loop ends. -/
def loop : Nat → Work Unit
  | 0 => flush.bind fun _ => .result (.ok ())
  | n + 1 => flush.attempt.bind fun _ => loop n

theorem holding_loop (n : Nat) : holding (loop n) = [] := by
  cases n <;> rfl

theorem careful_loop (n : Nat) : Careful (loop n) := by
  induction n with
  | zero => exact careful_bind careful_flush fun _ => ⟨trivial, rfl⟩
  | succ n ih => exact careful_bind (careful_attempt careful_flush) fun _ => ⟨ih, holding_loop n⟩

theorem run_loop (interval : Duration) (n : Nat) (a : Aggregator) :
    let last := ((fun a => (a.turn interval).2)^[n] a).flush
    (loop n).run (answer a.now Outbox.send) (a.pending, a.outbox) =
      (last.1.map fun _ => (), last.2.pending, last.2.outbox) := by
  induction n generalizing a with
  | zero =>
      rw [loop, run_bind]
      simp only [Function.iterate_zero, id, Aggregator.flush, Outbox.flush]
      rcases flush.run (answer a.now Outbox.send) (a.pending, a.outbox) with ⟨_ | _, _⟩ <;> rfl
  | succ n ih =>
      rw [loop, run_bind, run_attempt]
      exact ih (a.turn interval).2

/-- Gathered metrics and the sink that they go to, with books of every delta that was
recorded and of every value that was published. -/
structure Books (σ : Type) where
  now : Int64
  sink : σ
  pending : Pending := {}
  recorded : List Metric := []
  published : List Metric := []

inductive Cause (σ : Type) where
  | increment (path : List Tags) (name : String) (delta : Int64)
  | gauge (path : List Tags) (name : String) (value : Int64)
  | clock (now : Int64)
  | sink (sink : σ)

def Books.after (b : Books σ) : Cause σ → Books σ
  | .increment path name delta =>
      let tags := Context.along path
      { b with
        pending := b.pending.increment ⟨name, tags⟩ delta
        recorded := b.recorded ++ [⟨.counter, name, b.now, delta, tags⟩] }
  | .gauge path name value =>
      { b with pending := b.pending.gauge ⟨name, Context.along path⟩ value }
  | .clock now => { b with now }
  | .sink sink => { b with sink }

def accepted : (q : Request) → Except Error q.Answer → List Metric
  | .publish batch, .ok _ => batch
  | .publish _, .error _ => []
  | .drain, _ => []
  | .requeue _, _ => []

def enter (send : List Metric → σ → Except Error Unit × σ) : Handler interface (Books σ) :=
  fun q b =>
    let met := answer b.now send q (b.pending, b.sink)
    (met.1, { b with
      pending := met.2.1
      sink := met.2.2
      published := b.published ++ accepted q met.1 })

/-- What a task is to do. A flush is a loop that is stopped before its first tick. -/
inductive Duty where
  | loop (ticks : Nat)
  | client (work : Work Unit) (careful : Careful work) (fresh : holding work = [])

namespace Duty

def program : Duty → Work Unit
  | loop ticks => Flushing.loop ticks
  | client work .. => work

theorem careful_program (duty : Duty) : Careful duty.program := by
  cases duty with
  | loop ticks => exact careful_loop ticks
  | client work careful fresh => exact careful

theorem holding_program (duty : Duty) : holding duty.program = [] := by
  cases duty with
  | loop ticks => exact holding_loop ticks
  | client work careful fresh => exact fresh

end Duty

abbrev Clients (σ : Type) := Pool interface Duty (Books σ) Unit

abbrev Event (σ : Type) := Pool.Event Duty (Cause σ)

def works (send : List Metric → σ → Except Error Unit × σ) :
    Pool.Works interface Duty (Cause σ) (Books σ) Unit where
  handle := enter send
  fallible _ := false
  program := Duty.program
  disturb cause b := b.after cause

/-- All that one event can do, as long as no task is given up. -/
theorem step_cases (send : List Metric → σ → Except Error Unit × σ)
    (w : Clients σ) (event : Event σ) (hkept : ∀ i, event ≠ .abandon i) :
    (works send).step w event = w ∨
    (∃ duty, event = .begin duty ∧
      (works send).step w event = { w with tasks := w.tasks ++ [⟨duty, some duty.program⟩] }) ∨
    (∃ i how duty q resume, event = .proceed i how ∧
      w.tasks[i]? = some ⟨duty, some (.call q resume)⟩ ∧
      (works send).step w event = ⟨(enter send q w.state).2,
        w.tasks.set i ⟨duty, some (resume (enter send q w.state).1)⟩⟩) ∨
    ∃ cause, event = .disturb cause ∧
      (works send).step w event = { w with state := w.state.after cause } := by
  cases event with
  | begin duty => exact .inr (.inl ⟨duty, rfl, rfl⟩)
  | join duty leader =>
      refine .inl ?_
      simp only [Pool.Works.step]
      split <;> rfl
  | proceed i how =>
      cases htask : w.tasks[i]? with
      | none => exact .inl (by simp only [Pool.Works.step, htask])
      | some task =>
          obtain ⟨duty, _ | ⟨outcome | ⟨q, resume⟩⟩⟩ := task
          · exact .inl (by simp only [Pool.Works.step, htask])
          · obtain ⟨hlt, hsame⟩ := List.getElem?_eq_some_iff.mp htask
            refine .inl ?_
            simp only [Pool.Works.step, htask, advance]
            rw [← hsame, List.set_getElem_self hlt]
          · refine .inr (.inr (.inl ⟨i, how, duty, q, resume, rfl, htask, ?_⟩))
            have hmet : treat (enter send) (fun _ => false) q w.state how =
                enter send q w.state := by
              cases how <;> rfl
            simp only [Pool.Works.step, htask, advance, works, hmet]
  | abandon i => exact absurd rfl (hkept i)
  | disturb cause => exact .inr (.inr (.inr ⟨cause, rfl, rfl⟩))

theorem event_cases (send : List Metric → σ → Except Error Unit × σ)
    (w : Clients σ) (event : Event σ) :
    (works send).step w event = w ∨
    (∃ duty, event = .begin duty ∧
      (works send).step w event = { w with tasks := w.tasks ++ [⟨duty, some duty.program⟩] }) ∨
    (∃ i how duty q resume, event = .proceed i how ∧
      w.tasks[i]? = some ⟨duty, some (.call q resume)⟩ ∧
      (works send).step w event = ⟨(enter send q w.state).2,
        w.tasks.set i ⟨duty, some (resume (enter send q w.state).1)⟩⟩) ∨
    (∃ cause, event = .disturb cause ∧
      (works send).step w event = { w with state := w.state.after cause }) ∨
    ∃ i duty q resume, event = .abandon i ∧
      w.tasks[i]? = some ⟨duty, some (.call q resume)⟩ ∧
      (works send).step w event = { w with tasks := w.tasks.set i ⟨duty, none⟩ } := by
  by_cases hkept : ∀ i, event ≠ .abandon i
  · rcases step_cases send w event hkept with h | h | h | h
    · exact .inl h
    · exact .inr (.inl h)
    · exact .inr (.inr (.inl h))
    · exact .inr (.inr (.inr (.inl h)))
  · push Not at hkept
    obtain ⟨i, rfl⟩ := hkept
    simp only [Pool.Works.step]
    split
    · next duty q resume htask =>
      exact .inr (.inr (.inr (.inr ⟨i, duty, q, resume, rfl, htask, rfl⟩)))
    · exact .inl rfl

end Flushing

end Rollup
