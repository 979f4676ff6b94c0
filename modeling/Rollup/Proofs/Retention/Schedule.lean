import Mathlib.Data.List.Induction
import Rollup.Service.Site

namespace Rollup

namespace Retention

/-- What a schedule is at when its task is at something and nobody has stopped it. -/
def Activity.phase : Activity → Phase
  | .working => .running
  | _ => .scheduled

namespace Scheduler

variable {rhythm : Rhythm} {s : Scheduler} {e : Event} {dropped : Bool}

def after (rhythm : Rhythm) (s : Scheduler) (events : List Event) : Scheduler :=
  events.foldl (step rhythm) s

def activity? (s : Scheduler) (task : Nat) : Option Activity :=
  s.tasks[task]?.map (·.activity)

def Fresh (dropped : Bool) (s : Scheduler) : Prop := s = { cancelled := dropped }

/-- There is one task, and it goes on unless the schedule was given up. -/
def Active (dropped : Bool) (s : Scheduler) : Prop :=
  ∃ activity, (activity = .ended → dropped = true) ∧
    s = ⟨activity.phase, [{ activity }], some 0, dropped⟩

/-- Nothing is held any more, and a task that is left has been told to end. -/
def Over (s : Scheduler) : Prop :=
  ∃ tasks : List Task, tasks.length ≤ 1 ∧ s = ⟨.stopped, tasks, none, true⟩

theorem Fresh.step (h : s.Fresh dropped) (hstart : e ≠ .start) (hstop : e ≠ .stop)
    (hdrop : e ≠ .drop) : (s.step rhythm e).Fresh dropped := by
  obtain rfl := h
  cases e with
  | start => exact absurd rfl hstart
  | stop => exact absurd rfl hstop
  | drop => exact absurd rfl hdrop
  | timer task => rfl
  | finished task outcome => rfl
  | noticed task => rfl

theorem Fresh.start (h : s.Fresh dropped) : (s.step rhythm .start).Active dropped := by
  obtain rfl := h
  exact ⟨.waiting rhythm.delay, nofun, rfl⟩

theorem Fresh.drop (h : s.Fresh dropped) : (s.step rhythm .drop).Fresh true := by
  obtain rfl := h
  rfl

theorem Fresh.stop (h : s.Fresh dropped) : (s.step rhythm .stop).Over := by
  obtain rfl := h
  exact ⟨[], Nat.zero_le 1, rfl⟩

theorem Active.step (h : s.Active dropped) (hstop : e ≠ .stop) (hdrop : e ≠ .drop) :
    (s.step rhythm e).Active dropped := by
  obtain ⟨activity, hended, rfl⟩ := h
  cases e with
  | start => exact ⟨activity, hended, rfl⟩
  | stop => exact absurd rfl hstop
  | drop => exact absurd rfl hdrop
  | timer task =>
      cases task with
      | succ other => exact ⟨activity, hended, rfl⟩
      | zero =>
          cases activity with
          | waiting pause =>
              cases dropped with
              | false => exact ⟨.working, nofun, rfl⟩
              | true => exact ⟨.waiting pause, nofun, rfl⟩
          | working => exact ⟨.working, nofun, rfl⟩
          | ended => exact ⟨.ended, hended, rfl⟩
  | finished task outcome =>
      cases task with
      | succ other => exact ⟨activity, hended, rfl⟩
      | zero =>
          cases activity with
          | waiting pause => exact ⟨.waiting pause, nofun, rfl⟩
          | working => exact ⟨.waiting rhythm.interval, nofun, rfl⟩
          | ended => exact ⟨.ended, hended, rfl⟩
  | noticed task =>
      cases task with
      | succ other => exact ⟨activity, hended, rfl⟩
      | zero =>
          cases activity with
          | waiting pause =>
              cases dropped with
              | false => exact ⟨.waiting pause, nofun, rfl⟩
              | true => exact ⟨.ended, fun _ => rfl, rfl⟩
          | working => exact ⟨.working, nofun, rfl⟩
          | ended => exact ⟨.ended, hended, rfl⟩

theorem Active.drop (h : s.Active dropped) : (s.step rhythm .drop).Active true := by
  obtain ⟨activity, -, rfl⟩ := h
  exact ⟨activity, fun _ => rfl, rfl⟩

theorem Active.stop (h : s.Active dropped) : (s.step rhythm .stop).Over := by
  obtain ⟨activity, -, rfl⟩ := h
  exact ⟨[⟨activity, true⟩], Nat.le_refl 1, rfl⟩

theorem activity?_turnTo (s : Scheduler) (task : Nat) (activity : Activity) (other : Nat) :
    (s.turnTo task activity).activity? other =
      if task = other then (s.activity? other).map fun _ => activity else s.activity? other := by
  simp only [activity?, turnTo, modify, List.getElem?_modify]
  split <;> cases s.tasks[other]? <;> rfl

/-- A step after which no task is there, and none is at work, that was not before. -/
structure Winds (s s' : Scheduler) : Prop where
  stopped : s'.Over
  length_eq : s'.tasks.length = s.tasks.length
  working : ∀ task, s'.activity? task = some .working → s.activity? task = some .working

theorem Over.refl (h : s.Over) : s.Winds s := ⟨h, rfl, fun _ h => h⟩

theorem Over.turnTo (h : s.Over) (task : Nat) {activity : Activity} (hrest : activity ≠ .working) :
    s.Winds (s.turnTo task activity) := by
  obtain ⟨tasks, hlength, rfl⟩ := h
  have hmodify := List.length_modify (fun t : Task => { t with activity }) tasks task
  refine ⟨⟨_, Nat.le_trans (Nat.le_of_eq hmodify) hlength, rfl⟩, hmodify, fun other hworking => ?_⟩
  rw [activity?_turnTo] at hworking
  split at hworking
  · obtain ⟨-, -, heq⟩ := Option.map_eq_some_iff.mp hworking
    exact absurd heq hrest
  · exact hworking

/-- Once a schedule is over, a task may end its run and notice, and nothing else happens. -/
theorem Over.step (h : s.Over) (e : Event) : s.Winds (s.step rhythm e) := by
  obtain ⟨tasks, -, heq⟩ := id h
  cases e with
  | start =>
      subst heq
      exact h.refl
  | stop =>
      subst heq
      exact h.refl
  | drop =>
      subst heq
      exact h.refl
  | timer task =>
      have hcancelled : s.cancelled = true := by rw [heq]
      simp only [Scheduler.step, hcancelled, if_true]
      split <;> exact h.refl
  | finished task outcome =>
      have hphase : s.phase.moveTo .scheduled = s.phase := by rw [heq]; rfl
      simp only [Scheduler.step, hphase]
      split
      · exact h.turnTo task nofun
      · exact h.refl
  | noticed task =>
      simp only [Scheduler.step]
      split
      · split
        · exact h.turnTo task nofun
        · exact h.refl
      · exact h.turnTo task nofun
      · exact h.refl

theorem after_append (rhythm : Rhythm) (s : Scheduler) (events : List Event) (e : Event) :
    s.after rhythm (events ++ [e]) = (s.after rhythm events).step rhythm e := by
  simp only [after, List.foldl_append, List.foldl_cons, List.foldl_nil]

/-- The stage that a course of events comes to. -/
inductive Stage (events : List Event) (s : Scheduler) : Prop where
  | fresh (dropped : Bool) (hstop : .stop ∉ events) (hstart : .start ∉ events)
      (hdrop : dropped = true → .drop ∈ events) (h : s.Fresh dropped)
  | active (dropped : Bool) (hstop : .stop ∉ events) (hstart : .start ∈ events)
      (hdrop : dropped = true → .drop ∈ events) (h : s.Active dropped)
  | stopped (hstop : .stop ∈ events) (h : s.Over)

theorem stage_after (rhythm : Rhythm) (events : List Event) :
    Stage events (after rhythm {} events) := by
  induction events using List.reverseRecOn with
  | nil => exact .fresh false (by simp) (by simp) nofun rfl
  | append_singleton events e ih =>
      rw [after_append]
      cases ih with
      | fresh dropped hstop hstart hdrop h =>
          cases e with
          | start =>
              exact .active dropped (by simp [hstop]) (by simp) (by simpa using hdrop) h.start
          | stop => exact .stopped (by simp) h.stop
          | drop => exact .fresh true (by simp [hstop]) (by simp [hstart]) (by simp) h.drop
          | _ =>
              exact .fresh dropped (by simp [hstop]) (by simp [hstart]) (by simpa using hdrop)
                (h.step nofun nofun nofun)
      | active dropped hstop hstart hdrop h =>
          cases e with
          | stop => exact .stopped (by simp) h.stop
          | drop => exact .active true (by simp [hstop]) (by simp [hstart]) (by simp) h.drop
          | _ =>
              exact .active dropped (by simp [hstop]) (by simp [hstart]) (by simpa using hdrop)
                (h.step nofun nofun)
      | stopped hstop h => exact .stopped (List.mem_append_left _ hstop) (h.step e).stopped

def resting (pause : Duration) : Scheduler :=
  ⟨.scheduled, [{ activity := .waiting pause }], some 0, false⟩

theorem after_resting {pause : Duration} {events : List Event}
    (h : ∀ e ∈ events, e ≠ .stop ∧ e ≠ .drop ∧ e ≠ .timer 0) :
    (resting pause).after rhythm events = resting pause := by
  induction events with
  | nil => rfl
  | cons e events ih =>
      obtain ⟨hstop, hdrop, htimer⟩ := h e List.mem_cons_self
      have hstep : (resting pause).step rhythm e = resting pause := by
        cases e with
        | start => rfl
        | stop => exact absurd rfl hstop
        | drop => exact absurd rfl hdrop
        | timer task =>
            cases task with
            | zero => exact absurd rfl htimer
            | succ other => rfl
        | finished task outcome => cases task <;> rfl
        | noticed task => cases task <;> rfl
      rw [after, List.foldl_cons, hstep]
      exact ih fun e he => h e (List.mem_cons_of_mem _ he)

theorem Active.working {task : Nat} (h : s.Active dropped)
    (hworking : s.activity? task = some .working) :
    task = 0 ∧ s = ⟨.running, [{ activity := .working }], some 0, dropped⟩ := by
  obtain ⟨activity, -, rfl⟩ := h
  cases task with
  | succ other => cases hworking
  | zero =>
      cases hworking
      exact ⟨rfl, rfl⟩

theorem Active.phase (h : s.Active dropped) :
    (s.phase = .running ∨ s.phase = .scheduled) ∧
      (s.phase = .running ↔ ∃ task, s.activity? task = some .working) := by
  obtain ⟨activity, -, heq⟩ := id h
  refine ⟨?_, fun hrunning => ⟨0, ?_⟩, fun ⟨task, hworking⟩ => by rw [(h.working hworking).2]⟩
  · rw [heq]
    cases activity with
    | working => exact .inl rfl
    | _ => exact .inr rfl
  · rw [heq] at hrunning ⊢
    cases activity with
    | working => rfl
    | _ => cases hrunning

theorem Active.again {task : Nat} {others : List Event} (h : s.Active false)
    (hworking : s.activity? task = some .working) (outcome : Except Error Nat)
    (hothers : ∀ e ∈ others, e ≠ .stop ∧ e ≠ .drop ∧ e ≠ .timer task) :
    let waiting := (s.step rhythm (.finished task outcome)).after rhythm others
    let next := waiting.step rhythm (.timer task)
    waiting.phase = .scheduled ∧ waiting.activity? task = some (.waiting rhythm.interval) ∧
      next.phase = .running ∧ next.activity? task = some .working := by
  obtain ⟨rfl, rfl⟩ := h.working hworking
  have hrest : Scheduler.step rhythm ⟨.running, [{ activity := .working }], some 0, false⟩
      (.finished 0 outcome) = resting rhythm.interval := rfl
  simp only [hrest, after_resting hothers]
  exact ⟨rfl, rfl, rfl, rfl⟩

theorem Over.phase (h : s.Over) : s.phase = .stopped := by
  obtain ⟨tasks, -, rfl⟩ := h
  rfl

namespace Stage

variable {events : List Event}

theorem length_le (h : Stage events s) : s.tasks.length ≤ 1 := by
  cases h with
  | fresh dropped _ _ _ h =>
      obtain rfl := h
      exact Nat.zero_le 1
  | active dropped _ _ _ h =>
      obtain ⟨activity, -, rfl⟩ := h
      exact Nat.le_refl 1
  | stopped _ h =>
      obtain ⟨tasks, hlength, rfl⟩ := h
      exact hlength

theorem idle (h : Stage events s) (hstop : .stop ∉ events) (hstart : .start ∉ events) :
    s.phase = .idle ∧ s.tasks = [] := by
  cases h with
  | fresh dropped _ _ _ h =>
      obtain rfl := h
      exact ⟨rfl, rfl⟩
  | active dropped _ hin _ _ => exact absurd hin hstart
  | stopped hin _ => exact absurd hin hstop

theorem phase (h : Stage events s) (hstop : .stop ∉ events) (hstart : .start ∈ events) :
    (s.phase = .running ∨ s.phase = .scheduled) ∧
      (s.phase = .running ↔ ∃ task, s.activity? task = some .working) := by
  cases h with
  | fresh dropped _ hout _ _ => exact absurd hstart hout
  | active dropped _ _ _ h => exact h.phase
  | stopped hin _ => exact absurd hin hstop

theorem active_of_working {task : Nat} (h : Stage events s) (hstop : .stop ∉ events)
    (hdrop : .drop ∉ events) (hworking : s.activity? task = some .working) : s.Active false := by
  cases h with
  | fresh dropped _ _ _ h =>
      obtain rfl := h
      cases hworking
  | active dropped _ _ himp h =>
      obtain rfl : dropped = false := Bool.eq_false_iff.mpr fun heq => hdrop (himp heq)
      exact h
  | stopped hin _ => exact absurd hin hstop

theorem over_of_mem (h : Stage events s) (hstop : .stop ∈ events) : s.Over := by
  cases h with
  | fresh dropped hout _ _ _ => exact absurd hstop hout
  | active dropped hout _ _ _ => exact absurd hstop hout
  | stopped _ h => exact h

end Stage

end Scheduler

end Retention

/-- A run in the background takes the schedule through the end of the pause and the end of the
run; whatever its outcome, the task then waits for the interval. -/
theorem Job.work_clean (j : Janitor) (task : Nat) (site : Site) :
    let outcome := ((site.stepSchedule j (.timer task)).clean j).1
    let done := (Job.clean j task).work site
    done.1 = .wait j.interval ∧
      done.2.schedule j =
        (site.schedule j).after j.toRhythm [.timer task, .finished task outcome] := by
  intro outcome done
  have hset (site : Site) (e : Retention.Scheduler.Event) :
      (site.stepSchedule j e).schedule j = (site.schedule j).step j.toRhythm e := by
    simp [Site.schedule, Site.stepSchedule, SortedMap.get?_insert]
  let due := site.stepSchedule j (.timer task)
  refine ⟨rfl, ?_⟩
  calc done.2.schedule j
      = ((due.clean j).2.stepSchedule j (.finished task outcome)).schedule j := rfl
    _ = (due.schedule j).step j.toRhythm (.finished task outcome) := hset ..
    _ = ((site.schedule j).step j.toRhythm (.timer task)).step j.toRhythm
          (.finished task outcome) := by rw [hset]

namespace Retention.Scheduler

/-- Whatever befalls a schedule, in any order, it has at most one task. Until it is stopped it
is idle before its first start, and then running just while its task is at work and scheduled
otherwise; from a run that has ended, successfully or not, the task goes on to the next one
after the interval, unless it is stopped or given up. Once stopped it stays so: no task is
started and no run begins any more. The runs of a janitor are such runs, with the outcome that
they have. -/
theorem stages (rhythm : Rhythm) (events : List Event) :
    let s := after rhythm {} events
    s.tasks.length ≤ 1 ∧
      (.stop ∉ events → .start ∉ events → s.phase = .idle ∧ s.tasks = []) ∧
      (.stop ∉ events → .start ∈ events →
        (s.phase = .running ∨ s.phase = .scheduled) ∧
          (s.phase = .running ↔ ∃ task, s.activity? task = some .working)) ∧
      (.stop ∉ events → .drop ∉ events → ∀ task outcome, s.activity? task = some .working →
        ∀ others : List Event, (∀ e ∈ others, e ≠ .stop ∧ e ≠ .drop ∧ e ≠ .timer task) →
          let waiting := (s.step rhythm (.finished task outcome)).after rhythm others
          let next := waiting.step rhythm (.timer task)
          waiting.phase = .scheduled ∧
            waiting.activity? task = some (.waiting rhythm.interval) ∧
            next.phase = .running ∧ next.activity? task = some .working) ∧
      (.stop ∈ events → s.phase = .stopped ∧ ∀ e,
        (s.step rhythm e).tasks.length = s.tasks.length ∧
          ∀ task, (s.step rhythm e).activity? task = some .working →
            s.activity? task = some .working) ∧
      ∀ (j : Janitor) (task : Nat) (site : Site),
        let outcome := ((site.stepSchedule j (.timer task)).clean j).1
        let done := (Job.clean j task).work site
        done.1 = .wait j.interval ∧
          done.2.schedule j =
            (site.schedule j).after j.toRhythm [.timer task, .finished task outcome] := by
  intro s
  have hstage : Stage events s := stage_after rhythm events
  refine ⟨hstage.length_le, hstage.idle, hstage.phase,
    fun hstop hdrop task outcome hworking others hothers => ?_, fun hstop => ?_, Job.work_clean⟩
  · have hactive := hstage.active_of_working hstop hdrop hworking
    exact hactive.again hworking outcome hothers
  · have hover := hstage.over_of_mem hstop
    exact ⟨hover.phase, fun e => ⟨(hover.step e).length_eq, (hover.step e).working⟩⟩

/-- A run that fails is followed by the next one, and after a stop there is none. -/
theorem stages_of_failed_run :
    let rhythm : Rhythm := ⟨.ofSeconds 5, .ofSeconds 60⟩
    let failed : Event := .finished 0 (.error (.internal "out of reach"))
    let waiting := ((after rhythm {} [.start, .timer 0]).step rhythm failed).after rhythm
      [.start, .noticed 0]
    waiting.activity? 0 = some (.waiting (.ofSeconds 60)) ∧
      (waiting.step rhythm (.timer 0)).phase = .running ∧
      (after rhythm {} [.start, .timer 0, .stop, failed, .start]).phase = .stopped := by
  intro rhythm failed waiting
  obtain ⟨-, -, -, hagain, -, -⟩ := stages rhythm [.start, .timer 0]
  obtain ⟨-, hwaiting, hrunning, -⟩ := hagain (by simp) (by simp) 0
    (.error (.internal "out of reach")) rfl [.start, .noticed 0] (by simp)
  obtain ⟨-, -, -, -, hstopped, -⟩ := stages rhythm [.start, .timer 0, .stop, failed, .start]
  exact ⟨hwaiting, hrunning, (hstopped (by simp)).1⟩

end Retention.Scheduler

end Rollup
