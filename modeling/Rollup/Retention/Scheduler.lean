import Rollup.Duration
import Rollup.Error

/-!
The life of a retention scheduler. Its background task waits, runs and waits again; it may take
last steps after the stop, before it notices.
-/

namespace Rollup.Retention

inductive Phase where
  | idle
  | scheduled
  | running
  | stopped
  deriving DecidableEq, Repr, Inhabited

namespace Phase

def name : Phase → String
  | idle => "idle"
  | scheduled => "scheduled"
  | running => "running"
  | stopped => "stopped"

def moveTo (current next : Phase) : Phase := if current = stopped then stopped else next

end Phase

/-- What a background task is at. -/
inductive Activity where
  | waiting (pause : Duration)
  /-- It is in the middle of a run. -/
  | working
  | ended
  deriving DecidableEq, Repr

structure Task where
  activity : Activity
  /-- Whether it has been told to end wherever it stands. -/
  aborted : Bool := false
  deriving DecidableEq, Repr

/-- How long a task waits before its first run, and after every run. -/
structure Rhythm where
  delay : Duration
  interval : Duration
  deriving DecidableEq, Repr, Inhabited

structure Scheduler where
  phase : Phase := .idle
  tasks : List Task := []
  /-- The number of the task that the scheduler holds on to. -/
  held : Option Nat := none
  /-- Whether tasks have been told to end where they wait. -/
  cancelled : Bool := false
  deriving DecidableEq, Repr, Inhabited

namespace Scheduler

inductive Event where
  | start
  | stop
  /-- The scheduler is given up without being stopped. -/
  | drop
  /-- The pause of a task is over. -/
  | timer (task : Nat)
  /-- The run of a task has ended, successfully or not. -/
  | finished (task : Nat) (outcome : Except Error Nat)
  /-- A task notices that it has been told to end. -/
  | noticed (task : Nat)

def modify (s : Scheduler) (task : Nat) (f : Task → Task) : Scheduler :=
  { s with tasks := s.tasks.modify task f }

def turnTo (s : Scheduler) (task : Nat) (activity : Activity) : Scheduler :=
  s.modify task fun t => { t with activity }

def abort (s : Scheduler) (task : Nat) : Scheduler :=
  s.modify task fun t => { t with aborted := true }

def step (rhythm : Rhythm) (s : Scheduler) : Event → Scheduler
  | .start =>
    if s.held.isSome || s.phase == .stopped then s
    else
      { s with
        phase := s.phase.moveTo .scheduled
        tasks := s.tasks ++ [{ activity := .waiting rhythm.delay }]
        held := some s.tasks.length }
  | .stop =>
    { s.held.elim s s.abort with phase := .stopped, held := none, cancelled := true }
  | .drop => { s with cancelled := true }
  | .timer task =>
    match s.tasks[task]? with
    | some ⟨.waiting _, false⟩ =>
      if s.cancelled then s
      else { s.turnTo task .working with phase := s.phase.moveTo .running }
    | _ => s
  | .finished task _ =>
    match s.tasks[task]? with
    | some ⟨.working, _⟩ =>
      { s.turnTo task (.waiting rhythm.interval) with phase := s.phase.moveTo .scheduled }
    | _ => s
  | .noticed task =>
    match s.tasks[task]? with
    | some ⟨.waiting _, aborted⟩ =>
      if aborted || s.cancelled then s.turnTo task .ended else s
    | some ⟨.working, true⟩ => s.turnTo task .ended
    | _ => s

end Scheduler

end Rollup.Retention
