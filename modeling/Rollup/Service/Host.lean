import Rollup.Service.Site

/-!
A site with the background tasks that work on it. Starting a task does not run it: its first
work is done when the host settles or time passes.
-/

namespace Rollup

inductive Notice where
  | cancelled
  /-- Wherever it stands. -/
  | aborted
  deriving DecidableEq, Repr

/-- A task of a janitor's schedule that is off the timeline: it is in the middle of a run, or
it has been told to end and has yet to notice. -/
structure Sweep where
  task : Nat
  janitor : Janitor
  turn : Nat
  /-- What is left of the run, if it is in one. -/
  pass : Option Retention.Pass := none
  told : Option Notice := none

namespace Sweep

def tell (r : Sweep) (how : Notice) : Sweep := { r with told := some how }

/-- A task at work ends just if it has been aborted. -/
def mayEnd (r : Sweep) : Bool := r.pass.isNone || r.told == some .aborted

/-- The task of a schedule that waits for its time, and is told not to. -/
def ofWaiting? (how : Notice) (t : BackgroundTask Job) : Option Sweep :=
  match t.job with
  | .clean janitor turn => some { task := t.id, janitor, turn, told := some how }
  | _ => none

end Sweep

structure Host where
  site : Site
  timeline : Timeline Job (Except Error Unit) := {}
  sweeps : List Sweep := []
  /-- The next number for an aggregator, a worker, a janitor or a memory. -/
  fresh : Nat := 0
  deriving Inhabited

namespace Host

def number (h : Host) : Nat × Host := (h.fresh, { h with fresh := h.fresh + 1 })

def atSite {α : Type} (h : Host) (act : Site → α × Site) : α × Host :=
  let (a, site) := act h.site
  (a, { h with site })

def start (h : Host) (delay : Duration) (job : Job) : Nat × Host :=
  let (task, timeline) := h.timeline.start delay job
  (task, { h with timeline })

def startAll (h : Host) (delay : Duration) (jobs : List Job) : List Nat × Host :=
  let (tasks, timeline) := h.timeline.startAll delay jobs
  (tasks, { h with timeline })

def cancel (h : Host) (task : Nat) : Host := { h with timeline := h.timeline.cancel task }

def join (h : Host) (task : Nat) : Except Error Unit × Host :=
  ((h.timeline.outcome? task).getD (.ok ()), h.cancel task)

def joinAll (h : Host) : List Nat → List (Except Error Unit) × Host
  | [] => ([], h)
  | task :: tasks =>
    let (outcome, h) := h.join task
    let (outcomes, h) := h.joinAll tasks
    (outcome :: outcomes, h)

def alive (h : Host) (task : Nat) : Bool :=
  h.timeline.alive task || h.sweeps.any (·.task == task)

def sweep? (h : Host) (task : Nat) : Option Sweep := h.sweeps.find? (·.task == task)

def setSweep (h : Host) (r : Sweep) : Host :=
  { h with sweeps := h.sweeps.map fun r' => if r'.task = r.task then r else r' }

def endSweep (h : Host) (task : Nat) : Host :=
  { h with sweeps := h.sweeps.filter (·.task != task) }

/-- Tells the task of a schedule to end, which then waits for its time no longer. -/
def tell (h : Host) (how : Notice) (task : Nat) : Host :=
  { h with
    timeline := h.timeline.cancel task
    sweeps :=
      h.sweeps.map (fun r => if r.task = task then r.tell how else r) ++
        (h.timeline.tasks.filter (·.id == task)).filterMap (Sweep.ofWaiting? how) }

def tell? (h : Host) (how : Notice) (task : Option Nat) : Host := task.elim h (h.tell how)

def begin (h : Host) (task : Nat) : Host :=
  match h.timeline.find? task with
  | none => h
  | some t =>
    match t.job with
    | .clean janitor turn =>
      { h with
        site := h.site.stepSchedule janitor (.timer turn)
        timeline := h.timeline.depart t
        sweeps := h.sweeps ++ [{ task, janitor, turn, pass := some (.begin janitor.windows) }] }
    | _ => h

/-- A task takes a step of its run. After the last one it waits again, unless it has been
told to end. -/
def proceed (h : Host) (task : Nat) : Host :=
  match h.sweep? task with
  | some { pass := some pass, janitor, turn, told, .. } =>
    match pass.step janitor.store h.site.clock h.site.storage with
    | (.inl pass, storage) =>
      { h with site := { h.site with storage } }.setSweep
        { task, janitor, turn, pass := some pass, told }
    | (.inr outcome, storage) =>
      let h := { h with site := { h.site with storage }.stepSchedule janitor (.finished turn outcome) }
      match told with
      | none =>
        let timeline := h.timeline.rejoin task janitor.interval (.clean janitor turn)
        { h with timeline }.endSweep task
      | some _ => h.setSweep { task, janitor, turn, told }
  | _ => h

def notice (h : Host) (task : Nat) : Host :=
  match h.sweep? task with
  | none => h
  | some r =>
    if r.mayEnd then
      { h with site := h.site.stepSchedule r.janitor (.noticed r.turn) }.endSweep task
    else h

def advance (h : Host) (span : Duration) : Host :=
  let (timeline, site) := h.timeline.advance Job.work span h.site
  { h with timeline, site }

def settle (h : Host) : Host :=
  let (timeline, site) := h.timeline.settle Job.work h.site
  { h with timeline, site }

end Host

structure Intake where
  worker : Worker
  tasks : List Nat := []
  stopped : Bool := false

namespace Intake

/-- Takes up the saved offsets and starts a task for each partition. What is started
after a stop ends at once. -/
def start (i : Intake) (h : Host) : Except Error Unit × Intake × Host :=
  match h.atSite (·.restore i.worker) with
  | (.error e, h) => (.error e, i, h)
  | (.ok (), h) =>
    if i.stopped then (.ok (), i, h)
    else
      let (tasks, h) := h.startAll .zero (i.worker.processor.partitions.map (.consume i.worker))
      (.ok (), { i with tasks := i.tasks ++ tasks }, h)

def stop (i : Intake) (h : Host) : Except Error Unit × Intake × Host :=
  let (outcomes, h) := h.joinAll i.tasks
  (Error.gather outcomes, { i with tasks := [], stopped := true }, h)

end Intake

structure Cleaning where
  janitor : Janitor
  task : Option Nat := none

namespace Cleaning

def new (config : Config) (store : MetricStore) (h : Host) : Cleaning × Host :=
  let (id, h) := h.number
  ({ janitor :=
      { id, store
        windows := Retention.windows config
        delay := config.retentionDelay
        interval := config.retentionInterval } }, h)

def phase (c : Cleaning) (h : Host) : Retention.Phase := (h.site.schedule c.janitor).phase

def step (c : Cleaning) (e : Retention.Scheduler.Event) (h : Host) : Host :=
  { h with site := h.site.stepSchedule c.janitor e }

def start (c : Cleaning) (h : Host) : Cleaning × Host :=
  let before := (h.site.schedule c.janitor).tasks.length
  let h := c.step .start h
  if before < (h.site.schedule c.janitor).tasks.length then
    let (task, h) := h.start c.janitor.delay (.clean c.janitor before)
    ({ c with task := some task }, h)
  else (c, h)

/-- Tells the task to end, if there is one, and does not wait for it. -/
def tell (c : Cleaning) (how : Notice) (h : Host) : Cleaning × Host :=
  ({ c with task := none }, h.tell? how c.task)

def stop (c : Cleaning) (h : Host) : Cleaning × Host := c.tell .aborted (c.step .stop h)

def drop (c : Cleaning) (h : Host) : Host := (c.tell .cancelled (c.step .drop h)).2

end Cleaning

end Rollup
