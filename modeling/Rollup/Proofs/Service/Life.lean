import Rollup.Proofs.Opening
import Rollup.Proofs.Service.Tasks

/-!
The life of a service: start-ups and shut-downs in any order, and in between what its tasks do
and what others do to the site.
-/

namespace Rollup

/-- What happens on a host while nobody calls the service. A retention run is done at once
when its task is due, or it is begun and goes on in steps with anything else in between. -/
inductive Passing where
  | settle
  | advance (span : Duration)
  | begin (task : Nat)
  | proceed (task : Nat)
  | notice (task : Nat)
  | visit (act : Site → Site)

namespace Passing

def on (h : Host) : Passing → Host
  | settle => h.settle
  | advance span => h.advance span
  | begin task => h.begin task
  | proceed task => h.proceed task
  | notice task => h.notice task
  | visit act => { h with site := act h.site }

variable {h : Host} {store : MetricStore} {cleaners flushers taking lost : List Nat}

theorem moves (p : Passing) (h : Host) : h.Moves (p.on h) := by
  cases p with
  | settle =>
      exact .of_subset (Timeline.started_run ..) (Timeline.roll_settle ..) (List.Subset.refl _)
  | advance span =>
      exact .of_subset (Timeline.started_run ..) (Timeline.roll_run ..) (List.Subset.refl _)
  | begin task => exact h.begin_moves task
  | proceed task => exact h.proceed_moves task
  | notice task => exact h.notice_moves task
  | visit act => exact .of_subset rfl (List.Subset.refl _) (List.Subset.refl _)

end Passing

/-- A service on a host of its own, with the numbers of the tasks that it has let go of. -/
structure Life where
  service : Service
  host : Host
  lost : List Nat := []

namespace Life

inductive Event where
  | startUp
  | shutDown
  | pass (p : Passing)

def opened (config : Config) (store : MetricStore) (source : Option Ingestion.Source)
    (site : Site) : Life :=
  let (service, host) := Service.new config store source { site }
  { service, host }

def step (l : Life) : Event → Life
  | .startUp =>
    let (_, service, host) := l.service.startUp l.host
    { service, host, lost := l.lost ++ l.service.letGo service }
  | .shutDown =>
    let (_, service, host) := l.service.shutDown l.host
    { l with service, host }
  | .pass p => { l with host := p.on l.host }

def run (l : Life) (events : List Event) : Life := events.foldl step l

/-- No start-up succeeds while the service still has an intake. -/
def Orderly (l : Life) : List Event → Prop
  | [] => True
  | event :: events =>
    (event = .startUp → (l.service.startUp l.host).1 = .ok () → l.service.intake = none) ∧
      (l.step event).Orderly events

def Sound (l : Life) : Prop := l.service.Minds l.host l.lost

variable {l : Life}

theorem sound_step (hl : l.Sound) (event : Event) : (l.step event).Sound := by
  cases event with
  | startUp => exact Service.startUp_minds hl
  | shutDown => exact Service.shutDown_minds hl
  | pass p => exact hl.move (p.moves l.host)

theorem sound_run (hl : l.Sound) (events : List Event) : (l.run events).Sound := by
  induction events generalizing l with
  | nil => exact hl
  | cons event events ih => exact ih (sound_step hl event)

theorem sound_opened (config : Config) (store : MetricStore) (source : Option Ingestion.Source)
    (site : Site) : (opened config store source site).Sound where
  minded := ⟨⟨List.nodup_nil, nofun, nofun⟩, nofun, .nil⟩
  waits := nofun
  told := nofun
  works := nofun

/-- After the first of some events, or some more, the task takes from the partition. -/
def Took (l : Life) (events : List Event) (task partition : Nat) : Prop :=
  ∃ before, before <+: events ∧ ∃ worker,
    (task, .consume worker partition) ∈ (l.run before).host.timeline.roll

theorem run_append (l : Life) (events : List Event) (event : Event) :
    l.run (events ++ [event]) = (l.run events).step event := by
  rw [run, List.foldl_append]
  rfl

theorem Took.mono {events events' : List Event} {task partition : Nat}
    (h : l.Took events task partition) (hlonger : events <+: events') :
    l.Took events' task partition := by
  obtain ⟨before, hbefore, hroll⟩ := h
  exact ⟨before, hbefore.trans hlonger, hroll⟩

theorem takers_took (hl : l.Sound) (hnone : l.service.takers = []) (events : List Event) :
    List.Forall₂ (l.Took events) (l.run events).service.takers
      (List.range (l.run events).service.takers.length) := by
  induction events using List.reverseRecOn with
  | nil =>
      have hrun : (l.run []).service.takers = [] := hnone
      rw [hrun]
      exact .nil
  | append_singleton events event ih =>
      have hmono : List.Forall₂ (l.Took (events ++ [event])) (l.run events).service.takers
          (List.range (l.run events).service.takers.length) :=
        ih.imp fun _ _ htook => htook.mono (List.prefix_append events [event])
      cases event with
      | startUp =>
          have htakers : (l.run (events ++ [.startUp])).service.takers =
              ((l.run events).service.startUp (l.run events).host).2.1.takers := by
            rw [run_append]
            rfl
          rw [htakers]
          rcases Service.takers_startUp (sound_run hl events) with hsame | hstarted
          · rw [hsame]
            exact hmono
          · refine hstarted.imp fun _ _ hroll => ⟨_, List.prefix_refl _, ?_⟩
            rw [run_append]
            exact hroll
      | shutDown =>
          obtain ⟨_, heq⟩ := Service.shutDown_snd (l.run events).service (l.run events).host
          have htakers : (l.run (events ++ [.shutDown])).service.takers = [] := by
            rw [run_append]
            exact congrArg (·.1.takers) heq
          rw [htakers]
          exact .nil
      | pass p =>
          rw [run_append]
          exact hmono

section Later

variable {h : Host} {store : MetricStore} {lost : List Nat} (later : List Passing)

end Later

def sampleSource : Ingestion.Source where
  progress := ((Datasets.usual {}).openProgress {}).1
  config := { partitions := 1 }

def sampleSite : Site where
  clock := { now := 1000 }
  storage := { catalog := ((Datasets.usual {}).openProgress {}).2 }
  bus := Bus.create {} (sampleSource.config.topic 0)

def sampleLife : Life :=
  opened {} ((Datasets.usual {}).openStore {}).1 (some sampleSource) sampleSite

def samplePublish (s : Site) : Site :=
  { s with bus := { topics := s.bus.topics.insert (sampleSource.config.topic 0) [[]] } }

/-- After a second start-up two tasks take from the partition, and the shut-down ends one
of them. The other one takes the next message. -/
theorem restarted_goes_on :
    let l := sampleLife.run [.startUp, .startUp]
    let h := (l.step .shutDown).host
    let h' := [Passing.visit samplePublish, .settle].foldl Passing.on h
    (∃ task task' worker worker', task ≠ task' ∧
        (task, .consume worker 0) ∈ l.host.timeline.roll ∧
        (task', .consume worker' 0) ∈ l.host.timeline.roll) ∧
      (∃ task, h.timeline.alive task = true) ∧
      (h.site.committed.get? 1).bind (·.get? 0) = none ∧
      (h'.site.committed.get? 1).bind (·.get? 0) = some 0 := by
  intro l h h'
  refine ⟨⟨1, 3, _, _, by decide, .tail _ (.head _), .tail _ (.tail _ (.head _))⟩, ⟨1, rfl⟩,
    rfl, ?_⟩
  let roused := h.timeline.tasks.map (BackgroundTask.rouse 0)
  have hturn : (Timeline.run Job.work 0 { h.timeline with tasks := roused }
      (samplePublish h.site)).2 = _ :=
    Timeline.run_of_single rfl (Nat.le_refl 0) rfl (by decide)
  exact (congrArg (fun s : Site => (s.committed.get? 1).bind (·.get? 0)) hturn).trans rfl

end Life

end Rollup
