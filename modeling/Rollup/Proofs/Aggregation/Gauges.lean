import Mathlib.Data.List.Infix
import Rollup.Proofs.Aggregation.Loops

namespace Rollup.Flushing

variable {σ : Type} {send : List Metric → σ → Except Error Unit × σ} {w w' : Clients σ}
  {series : Series} {event : Event σ}

def recordings (series : Series) (events : List (Event σ)) : List Int64 :=
  events.filterMap fun
    | .disturb (.gauge path name value) =>
        if series = ⟨name, Context.along path⟩ then some value else none
    | _ => none

theorem recordings_concat (series : Series) (events : List (Event σ)) (event : Event σ) :
    recordings series (events ++ [event]) =
      recordings series events ++ recordings series [event] :=
  List.filterMap_append

/-- The values of a gauge that tasks have drained and neither published nor put back yet. -/
def held (series : Series) (tasks : List (Pool.Task interface Duty Unit)) : List Int64 :=
  tasks.flatMap fun task => valuesOf .gauge series (inHand task)

/-- The values of a gauge from the first that was published to the one that is pending. -/
def trail (series : Series) (w : Clients σ) : List Int64 :=
  valuesOf .gauge series w.state.published ++ held series w.tasks ++
    (w.state.pending.gauges.get? series).toList

def Apart (send : List Metric → σ → Except Error Unit × σ) (start : Clients σ)
    (series : Series) (events : List (Event σ)) : Prop :=
  ∀ before, before <+: events → (held series ((works send).run start before).tasks).length ≤ 1

instance (start : Clients σ) (series : Series) (events : List (Event σ)) :
    Decidable (Apart send start series events) :=
  decidable_of_iff (∀ before ∈ events.inits,
    (held series ((works send).run start before).tasks).length ≤ 1)
    (forall_congr' fun before => imp_congr_left (List.mem_inits before events))

theorem eq_of_perm {l l' : List Int64} (h : l.Perm l') (hlength : l.length ≤ 1) : l = l' := by
  match l, hlength with
  | [], _ => exact h.nil_eq
  | [_], _ => exact List.singleton_perm.mp h

section Held

variable {tasks : List (Pool.Task interface Duty Unit)} {task : Pool.Task interface Duty Unit}
  {i : Nat}

theorem held_perm (h : tasks[i]? = some task) : (held series tasks).Perm
    (valuesOf .gauge series (inHand task) ++ held series (tasks.eraseIdx i)) := by
  obtain ⟨hlt, rfl⟩ := List.getElem?_eq_some_iff.mp h
  exact (List.getElem_cons_eraseIdx_perm hlt).symm.flatMap_right _

theorem held_set_perm (hlt : i < tasks.length) (task : Pool.Task interface Duty Unit) :
    (held series (tasks.set i task)).Perm
      (valuesOf .gauge series (inHand task) ++ held series (tasks.eraseIdx i)) :=
  (List.set_perm_cons_eraseIdx hlt task).flatMap_right _

theorem held_set_none (i : Nat) (duty : Duty) :
    (held series (tasks.set i ⟨duty, none⟩)).Sublist (held series tasks) := by
  induction tasks generalizing i with
  | nil => exact List.Sublist.refl _
  | cons task tasks ih =>
      cases i with
      | zero => exact List.sublist_append_right _ _
      | succ i => exact (ih i).append_left _

end Held

theorem trail_disturb (w : Clients σ) (cause : Cause σ) :
    (trail series { w with state := w.state.after cause }).Sublist
      (trail series w ++ recordings series [.disturb cause]) := by
  cases cause with
  | gauge path name value =>
      by_cases h : series = ⟨name, Context.along path⟩
      · have hset : ((w.state.pending.gauge ⟨name, Context.along path⟩ value).gauges.get?
            series).toList = [value] := by
          rw [Pending.gauge, SortedMap.get?_insert, if_pos h]
          rfl
        have hnew : recordings series [(.disturb (.gauge path name value) : Event σ)] =
            [value] := by
          simp [recordings, h]
        rw [hnew]
        simp only [trail, Books.after, hset]
        exact (List.sublist_append_left _ _).append_right _
      · have hkept : (w.state.pending.gauge ⟨name, Context.along path⟩ value).gauges.get?
            series = w.state.pending.gauges.get? series := by
          rw [Pending.gauge, SortedMap.get?_insert, if_neg h]
        simp only [trail, Books.after, hkept]
        exact List.sublist_append_left _ _
  | increment path name delta => exact List.sublist_append_left _ _
  | clock now => exact List.sublist_append_left _ _
  | sink sink => exact List.sublist_append_left _ _

theorem trail_begin (w : Clients σ) (duty : Duty) :
    trail series { w with tasks := w.tasks ++ [⟨duty, some duty.program⟩] } = trail series w := by
  have hfresh : inHand ⟨duty, some duty.program⟩ = [] := duty.holding_program
  simp only [trail, held, List.flatMap_append, List.flatMap_singleton, hfresh, valuesOf_nil,
    List.append_nil]

theorem valuesOf_accepted (series : Series) (batch : List Metric) (answer : Except Error Unit) :
    valuesOf .gauge series (accepted (.publish batch) answer) ++
      valuesOf .gauge series (leaves (.publish batch) answer) = valuesOf .gauge series batch := by
  cases answer with
  | ok => exact List.append_nil _
  | error e => rfl

theorem sublist_requeue {hand others : List Int64} (hswap : hand ++ others = others ++ hand)
    (pending : Option Int64) :
    (others ++ (pending.or hand.head?).toList).Sublist (hand ++ others ++ pending.toList) := by
  cases pending with
  | none =>
      rw [Option.none_or, Option.toList_none, List.append_nil, hswap]
      refine List.Sublist.append_left ?_ others
      cases hand with
      | nil => exact List.Sublist.refl _
      | cons n hand => exact List.singleton_sublist.mpr (List.mem_cons_self ..)
  | some n => exact (List.sublist_append_right _ _).append_right _

theorem trail_proceed {i : Nat} {duty : Duty} {q : Request}
    {resume : Except Error q.Answer → Work Unit}
    (htask : w.tasks[i]? = some ⟨duty, some (.call q resume)⟩)
    (hcareful : Careful (.call q resume))
    (hnow : (held series w.tasks).length ≤ 1)
    (hthen : (held series
      (w.tasks.set i ⟨duty, some (resume (enter send q w.state).1)⟩)).length ≤ 1) :
    (trail series ⟨(enter send q w.state).2,
      w.tasks.set i ⟨duty, some (resume (enter send q w.state).1)⟩⟩).Sublist (trail series w) := by
  obtain ⟨hlt, -⟩ := List.getElem?_eq_some_iff.mp htask
  have hhand : inHand ⟨duty, some (.call q resume)⟩ = q.batch := rfl
  have hnext : inHand ⟨duty, some (resume (enter send q w.state).1)⟩ =
      leaves q (enter send q w.state).1 := (hcareful _).1
  -- with at most one value held, it does not matter which task comes first
  have hbefore := eq_of_perm (held_perm htask) hnow
  have hafter := eq_of_perm (held_set_perm hlt _) hthen
  rw [hhand] at hbefore
  rw [hnext] at hafter
  rw [hbefore] at hnow
  rw [hafter] at hthen
  simp only [trail, hbefore, hafter]
  cases q with
  | drain =>
      have hpublished : (enter send .drain w.state).2.published = w.state.published :=
        List.append_nil _
      have htaken : valuesOf .gauge series (leaves .drain (enter send .drain w.state).1) =
          (w.state.pending.gauges.get? series).toList :=
        Pending.valuesOf_metrics w.state.pending w.state.now .gauge series
      have hempty : ((enter send .drain w.state).2.pending.gauges.get? series).toList = [] := rfl
      rw [hpublished, hempty, eq_of_perm List.perm_append_comm hthen, htaken, List.append_nil,
        Request.batch, valuesOf_nil, List.nil_append, List.append_assoc]
  | publish batch =>
      have hpending : (enter send (.publish batch) w.state).2.pending = w.state.pending := rfl
      have hpublished : valuesOf .gauge series (enter send (.publish batch) w.state).2.published =
          valuesOf .gauge series w.state.published ++ valuesOf .gauge series
            (accepted (.publish batch) (enter send (.publish batch) w.state).1) := valuesOf_append
      rw [hpublished, hpending, List.append_assoc (valuesOf _ _ w.state.published),
        ← List.append_assoc _ _ (held _ _), valuesOf_accepted, Request.batch]
  | requeue batch =>
      have hpublished : (enter send (.requeue batch) w.state).2.published = w.state.published :=
        List.append_nil _
      have hreturned := Pending.gauge_requeue w.state.pending batch series
      have hswap := eq_of_perm List.perm_append_comm hnow
      rw [hpublished, leaves, valuesOf_nil, List.nil_append, List.append_assoc, List.append_assoc]
      refine List.Sublist.append_left ?_ _
      exact hreturned ▸ sublist_requeue hswap _

theorem trail_step (hcareful : AllCareful w) (event : Event σ)
    (hnow : (held series w.tasks).length ≤ 1)
    (hthen : (held series ((works send).step w event).tasks).length ≤ 1) :
    (trail series ((works send).step w event)).Sublist
      (trail series w ++ recordings series [event]) := by
  rcases event_cases send w event with h | ⟨duty, rfl, h⟩ |
    ⟨i, how, duty, q, resume, rfl, htask, h⟩ | ⟨cause, rfl, h⟩ | ⟨i, duty, q, resume, rfl, -, h⟩
  · rw [h]
    exact List.sublist_append_left _ _
  · rw [h, trail_begin]
    exact List.sublist_append_left _ _
  · rw [h] at hthen ⊢
    exact (trail_proceed htask (hcareful _ (List.mem_of_getElem? htask) _ rfl) hnow
      hthen).trans (List.sublist_append_left _ _)
  · rw [h]
    exact trail_disturb w cause
  · rw [h]
    exact (((held_set_none i duty).append_left _).append_right _).trans
      (List.sublist_append_left _ _)

theorem allCareful_step (hcareful : AllCareful w) (event : Event σ) :
    AllCareful ((works send).step w event) := by
  rcases event_cases send w event with h | ⟨duty, rfl, -⟩ |
    ⟨i, how, duty, q, resume, rfl, -, -⟩ | ⟨cause, rfl, -⟩ | ⟨i, duty, q, resume, rfl, -, h⟩
  · rw [h]
    exact hcareful
  · exact careful_step hcareful _ nofun
  · exact careful_step hcareful _ nofun
  · exact careful_step hcareful _ nofun
  · rw [h]
    intro task hmem work hwork
    rcases List.mem_or_eq_of_mem_set hmem with hmem | rfl
    · exact hcareful task hmem work hwork
    · cases hwork

theorem allCareful_run (hcareful : AllCareful w) (events : List (Event σ)) :
    AllCareful ((works send).run w events) := by
  induction events using List.reverseRecOn with
  | nil => exact hcareful
  | append_singleton events event ih =>
      rw [run_concat]
      exact allCareful_step ih event

theorem trail_run (hcareful : AllCareful w) {events : List (Event σ)}
    (hapart : Apart send w series events) :
    (trail series ((works send).run w events)).Sublist
      (trail series w ++ recordings series events) := by
  -- from the end: what has happened so far comes before what is recorded next
  induction events using List.reverseRecOn with
  | nil => exact List.sublist_append_left _ _
  | append_singleton events event ih =>
      have hearlier : events <+: events ++ [event] := List.prefix_append _ _
      have hbefore := ih fun before h => hapart before (h.trans hearlier)
      have hthen := hapart _ (List.prefix_refl _)
      rw [run_concat] at hthen
      rw [run_concat, recordings_concat, ← List.append_assoc]
      exact (trail_step (allCareful_run hcareful events) event (hapart _ hearlier) hthen).trans
        (hbefore.append_right _)

theorem length_leaves_le (q : Request) (b : Books σ)
    (hbatch : (valuesOf .gauge series q.batch).length ≤ 1) :
    (valuesOf .gauge series (leaves q (enter send q b).1)).length ≤ 1 := by
  cases q with
  | drain =>
      have htaken : valuesOf .gauge series (leaves .drain (enter send .drain b).1) =
          (b.pending.gauges.get? series).toList :=
        Pending.valuesOf_metrics b.pending b.now .gauge series
      rw [htaken]
      exact Option.length_toList_le
  | publish batch =>
      have hsplit := valuesOf_accepted series batch (enter send (.publish batch) b).1
      refine le_trans ?_ hbatch
      rw [Request.batch, ← hsplit, List.length_append]
      exact Nat.le_add_left _ _
  | requeue batch => exact Nat.zero_le _

def Alone (series : Series) (w : Clients σ) : Prop :=
  ∃ task, w.tasks = [task] ∧ (valuesOf .gauge series (inHand task)).length ≤ 1

theorem Alone.set (h : Alone series w) {i : Nat} {task task' : Pool.Task interface Duty Unit}
    (htask : w.tasks[i]? = some task)
    (hhand : (valuesOf .gauge series (inHand task)).length ≤ 1 →
      (valuesOf .gauge series (inHand task')).length ≤ 1) (b : Books σ) :
    Alone series ⟨b, w.tasks.set i task'⟩ := by
  obtain ⟨lone, htasks, hlone⟩ := h
  rw [htasks] at htask
  obtain ⟨hlt, rfl⟩ := List.getElem?_eq_some_iff.mp htask
  obtain rfl : i = 0 := Nat.lt_one_iff.mp hlt
  exact ⟨task', by rw [htasks]; rfl, hhand hlone⟩

theorem alone_step (hcareful : AllCareful w) (h : Alone series w)
    (hevent : ∀ duty, event ≠ .begin duty) : Alone series ((works send).step w event) := by
  rcases event_cases send w event with hstep | ⟨duty, rfl, -⟩ |
    ⟨i, how, duty, q, resume, rfl, htask, hstep⟩ | ⟨cause, rfl, hstep⟩ |
    ⟨i, duty, q, resume, rfl, htask, hstep⟩
  · rw [hstep]
    exact h
  · exact absurd rfl (hevent duty)
  · rw [hstep]
    refine h.set htask (fun hbatch => ?_) _
    have hnext : inHand ⟨duty, some (resume (enter send q w.state).1)⟩ =
        leaves q (enter send q w.state).1 :=
      (hcareful _ (List.mem_of_getElem? htask) _ rfl _).1
    rw [hnext]
    exact length_leaves_le q w.state hbatch
  · rw [hstep]
    exact h
  · rw [hstep]
    exact h.set htask (fun _ => Nat.zero_le _) _

theorem alone_run (send : List Metric → σ → Except Error Unit × σ) (hcareful : AllCareful w)
    (h : Alone series w) {events : List (Event σ)} (hevents : ∀ duty, .begin duty ∉ events) :
    Alone series ((works send).run w events) := by
  induction events generalizing w with
  | nil => exact h
  | cons event events ih =>
      have hevent : ∀ duty, event ≠ .begin duty := by
        rintro duty rfl
        exact hevents duty (List.mem_cons_self ..)
      exact ih (allCareful_step hcareful event) (alone_step hcareful h hevent)
        fun duty hmem => hevents duty (List.mem_cons_of_mem _ hmem)

theorem lone_loop_in_order (b : Books σ) (hpublished : b.published = []) (ticks : Nat)
    {events : List (Event σ)} (hevents : ∀ duty, .begin duty ∉ events) (series : Series) :
    let w := (works send).run ⟨b, [⟨.loop ticks, some (loop ticks)⟩]⟩ events
    (valuesOf .gauge series w.state.published).Sublist
      ((b.pending.gauges.get? series).toList ++ recordings series events) := by
  intro w
  have hfresh : inHand ⟨.loop ticks, some (loop ticks)⟩ = [] := holding_loop ticks
  have hcareful : AllCareful ⟨b, [⟨.loop ticks, some (loop ticks)⟩]⟩ := by
    intro task hmem work hwork
    cases List.mem_singleton.mp hmem
    cases hwork
    exact careful_loop ticks
  have halone : Alone series ⟨b, [⟨.loop ticks, some (loop ticks)⟩]⟩ :=
    ⟨_, rfl, by rw [hfresh]; exact Nat.zero_le _⟩
  have hapart : Apart send ⟨b, [⟨.loop ticks, some (loop ticks)⟩]⟩ series events := by
    intro before hbefore
    obtain ⟨task, htasks, hhand⟩ := alone_run send hcareful halone fun duty hmem =>
      hevents duty (hbefore.subset hmem)
    rw [held, htasks, List.flatMap_singleton]
    exact hhand
  have hstart : trail series ⟨b, [⟨.loop ticks, some (loop ticks)⟩]⟩ =
      (b.pending.gauges.get? series).toList := by
    rw [trail, held, List.flatMap_singleton, hfresh, hpublished]
    rfl
  rw [← hstart]
  exact (((List.sublist_append_left _ _).trans (List.sublist_append_left _ _)).trans
    (trail_run hcareful hapart))

/-- As long as no two batches in flight have values of a gauge, its values are published in
the order in which they were recorded, none of them twice, and whatever is in flight or
pending is newer than what has been published. -/
theorem gauges_in_order (send : List Metric → σ → Except Error Unit × σ) (now : Int64) (sink : σ)
    {series : Series} {events : List (Event σ)}
    (hapart : Apart send ⟨{ now, sink }, []⟩ series events) :
    let w := (works send).run ⟨{ now, sink }, []⟩ events
    (valuesOf .gauge series w.state.published ++ held series w.tasks ++
      (w.state.pending.gauges.get? series).toList).Sublist (recordings series events) :=
  trail_run (fun _ hmem => absurd hmem List.not_mem_nil) hapart

/-- A batch that is refused and put back, while a newer value of its gauge has been recorded. -/
def sampleGauges : List (Event Outbox) :=
  [.disturb (.gauge [] "g" 1), .begin (.loop 1), .proceed 0 .served, .proceed 0 .served,
    .disturb (.gauge [] "g" 2), .proceed 0 .served, .disturb (.gauge [] "g" 3),
    .disturb (.sink { refusing := true }), .proceed 0 .served, .proceed 0 .served]

theorem sample_gauges_in_order :
    let start : Clients Outbox := ⟨{ now := 100, sink := {} }, []⟩
    let w := (works Outbox.send).run start sampleGauges
    let g : Series := ⟨"g", .empty⟩
    Apart Outbox.send start g sampleGauges ∧ valuesOf .gauge g w.state.published = [1] ∧
      [1, 3].Sublist (recordings g sampleGauges) := by
  intro start w g
  have hapart : Apart Outbox.send start g sampleGauges := by decide +kernel
  have hpublished : valuesOf .gauge g w.state.published = [1] := by decide +kernel
  have hheld : held g w.tasks = [] := by decide +kernel
  have hpending : w.state.pending.gauges.get? g = some 3 := by decide +kernel
  have horder : (valuesOf .gauge g w.state.published ++ held g w.tasks ++
      (w.state.pending.gauges.get? g).toList).Sublist (recordings g sampleGauges) :=
    gauges_in_order Outbox.send 100 {} hapart
  rw [hpublished, hheld, hpending] at horder
  exact ⟨hapart, hpublished, horder⟩

/-- Of two flushes that overlap, the older one may be put back behind what the newer one has
published, and it may be published behind it. -/
theorem overlapping_flushes_go_back :
    let run := (works Outbox.send).run ⟨{ now := 100, sink := {} }, []⟩
    let g : Series := ⟨"g", .empty⟩
    let overlap : List (Event Outbox) :=
      [.disturb (.gauge [] "g" 1), .begin (.loop 0), .proceed 0 .served,
        .disturb (.gauge [] "g" 2), .begin (.loop 0), .proceed 1 .served, .proceed 1 .served]
    let refused : List (Event Outbox) := overlap ++
      [.disturb (.sink { refusing := true }), .proceed 0 .served, .proceed 0 .served,
        .disturb (.sink {}), .begin (.loop 0), .proceed 2 .served, .proceed 2 .served]
    let late : List (Event Outbox) := overlap ++ [.proceed 0 .served]
    recordings g refused = [1, 2] ∧ valuesOf .gauge g (run refused).state.published = [2, 1] ∧
      recordings g late = [1, 2] ∧ valuesOf .gauge g (run late).state.published = [2, 1] := by
  decide +kernel

end Rollup.Flushing
