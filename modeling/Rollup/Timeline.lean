import Rollup.Duration
import Rollup.SortedMap

/-!
Background tasks under a clock that moves only when it is told to. While time passes every pause
lasts at least one tick, so that no span of time holds endless work, and `run` is total.
-/

namespace Rollup

/-- How a task goes on after a piece of work. -/
inductive Next (β : Type) where
  | wait (pause : Duration)
  | finish (outcome : β)

/-- A task that waits for its time, which is counted in ticks. -/
structure BackgroundTask (α : Type) where
  id : Nat
  due : Nat
  job : α
  /-- Whether the task asked for no pause after its last piece of work. -/
  restless : Bool := false

/-- Tasks by what they do (`α`) and how they end (`β`). -/
structure Timeline (α β : Type) where
  time : Nat := 0
  /-- How many tasks have been started. -/
  started : Nat := 0
  tasks : List (BackgroundTask α) := []
  /-- How tasks have ended, until somebody asks. -/
  outcomes : SortedMap Nat β := .empty

instance {α β : Type} : Inhabited (Timeline α β) := ⟨{}⟩

/-- A tick is a millisecond; a part of one counts in full. -/
def Duration.ticks (d : Duration) : Nat := (d.nanoseconds + 999999) / 1000000

namespace BackgroundTask

variable {α : Type}

/-- The task that is due first, of several the one longest in wait, and the others. -/
def first? : List (BackgroundTask α) → Option (BackgroundTask α × List (BackgroundTask α))
  | [] => none
  | t :: ts =>
    match first? ts with
    | none => some (t, [])
    | some (u, rest) => if u.due < t.due then some (u, t :: rest) else some (t, ts)

theorem first?_eq_none {ts : List (BackgroundTask α)} : first? ts = none ↔ ts = [] := by
  cases ts with
  | nil => simp [first?]
  | cons t ts =>
    simp only [first?, reduceCtorEq, iff_false]
    cases first? ts with
    | none => simp
    | some p => by_cases h : p.1.due < t.due <;> simp [h]

def again (t : BackgroundTask α) (pause : Duration) : BackgroundTask α :=
  { t with due := t.due + max 1 pause.ticks, restless := pause.ticks == 0 }

/-- The task made due at a time if it does not rest. -/
def rouse (time : Nat) (t : BackgroundTask α) : BackgroundTask α :=
  if t.restless then { t with due := min t.due time } else t

/-- How many more times tasks can run up to a time. -/
def turns (limit : Nat) : List (BackgroundTask α) → Nat
  | [] => 0
  | t :: ts => limit + 1 - t.due + turns limit ts

theorem turns_append (limit : Nat) (as bs : List (BackgroundTask α)) :
    turns limit (as ++ bs) = turns limit as + turns limit bs := by
  induction as with
  | nil => simp [turns]
  | cons a as ih => simp [turns, ih, Nat.add_assoc]

theorem turns_first? {limit : Nat} {ts rest : List (BackgroundTask α)} {t : BackgroundTask α}
    (h : first? ts = some (t, rest)) :
    turns limit ts = (limit + 1 - t.due) + turns limit rest := by
  induction ts generalizing t rest with
  | nil => simp [first?] at h
  | cons u us ih =>
    simp only [first?] at h
    cases hus : first? us with
    | none =>
      rw [hus] at h
      have := first?_eq_none.mp hus
      simp_all [turns]
    | some p =>
      obtain ⟨v, others⟩ := p
      rw [hus] at h
      by_cases hv : v.due < u.due
      · simp only [hv, if_true, Option.some.injEq, Prod.mk.injEq] at h
        obtain ⟨rfl, rfl⟩ := h
        simp only [turns, ih hus]
        omega
      · simp only [hv, if_false, Option.some.injEq, Prod.mk.injEq] at h
        obtain ⟨rfl, rfl⟩ := h
        rfl

theorem turns_again {limit : Nat} {ts rest : List (BackgroundTask α)} {t : BackgroundTask α}
    (h : first? ts = some (t, rest)) (due : t.due ≤ limit) (pause : Duration) :
    turns limit (rest ++ [t.again pause]) < turns limit ts := by
  rw [turns_first? h, turns_append]
  simp only [turns, again]
  omega

theorem turns_finish {limit : Nat} {ts rest : List (BackgroundTask α)} {t : BackgroundTask α}
    (h : first? ts = some (t, rest)) (due : t.due ≤ limit) :
    turns limit rest < turns limit ts := by
  rw [turns_first? h]
  omega

end BackgroundTask

namespace Timeline

open BackgroundTask

variable {α β σ : Type}

def start (t : Timeline α β) (delay : Duration) (job : α) : Nat × Timeline α β :=
  (t.started,
    { t with
      started := t.started + 1
      tasks := t.tasks ++ [{ id := t.started, due := t.time + delay.ticks, job }] })

def startAll (t : Timeline α β) (delay : Duration) : List α → List Nat × Timeline α β
  | [] => ([], t)
  | job :: jobs =>
    let (first, t) := t.start delay job
    let (others, t) := t.startAll delay jobs
    (first :: others, t)

def alive (t : Timeline α β) (id : Nat) : Bool := t.tasks.any (·.id == id)

def find? (t : Timeline α β) (id : Nat) : Option (BackgroundTask α) :=
  t.tasks.find? (·.id == id)

def cancel (t : Timeline α β) (id : Nat) : Timeline α β :=
  { t with tasks := t.tasks.filter (·.id != id) }

def depart (t : Timeline α β) (task : BackgroundTask α) : Timeline α β :=
  { t.cancel task.id with time := max t.time task.due }

def rejoin (t : Timeline α β) (id : Nat) (pause : Duration) (job : α) : Timeline α β :=
  { t with tasks := t.tasks ++ [BackgroundTask.again { id, due := t.time, job } pause] }

def idle (t : Timeline α β) : Bool := t.tasks.isEmpty

def cancelAll (t : Timeline α β) : Timeline α β := { t with tasks := [] }

def outcome? (t : Timeline α β) (id : Nat) : Option β := t.outcomes.get? id

/-- Lets every task do its work that is due up to a time, each at its own time. -/
def run (work : α → σ → Next β × σ) (limit : Nat) (t : Timeline α β) (s : σ) :
    Timeline α β × σ :=
  match h : first? t.tasks with
  | none => ({ t with time := max t.time limit }, s)
  | some (task, rest) =>
    if due : task.due ≤ limit then
      match work task.job s with
      | (.wait pause, s) =>
        have := turns_again h due pause
        run work limit { t with tasks := rest ++ [task.again pause] } s
      | (.finish outcome, s) =>
        have := turns_finish h due
        run work limit { t with tasks := rest, outcomes := t.outcomes.insert task.id outcome } s
    else ({ t with time := max t.time limit }, s)
termination_by turns limit t.tasks

def advance (work : α → σ → Next β × σ) (span : Duration) (t : Timeline α β) (s : σ) :
    Timeline α β × σ :=
  run work (t.time + span.ticks) t s

/-- Lets every task do what is due now. Tasks that do not rest are due at any time. -/
def settle (work : α → σ → Next β × σ) (t : Timeline α β) (s : σ) : Timeline α β × σ :=
  run work t.time { t with tasks := t.tasks.map (rouse t.time) } s

end Timeline

end Rollup
