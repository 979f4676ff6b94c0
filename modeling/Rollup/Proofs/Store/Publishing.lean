import Rollup.Aggregation.Flush
import Rollup.Proofs.Aggregation.Tally
import Rollup.Proofs.Store.Ledgers

namespace Rollup

open Storage

namespace Ledger

theorem foldl_writes (r : Resolution) (L : Ledger) (ms : List Metric) (series : Series)
    (start : Int) :
    (ms.map Change.write).foldl (apply r) L series start =
      (ms.filter fun m => m.series = series ∧ r.bucketStart m.timestamp.toInt = start).foldl
        (fun held m => some (m.applied held)) (L series start) := by
  induction ms generalizing L with
  | nil => rfl
  | cons m ms ih =>
      rw [List.map_cons, List.foldl_cons, ih]
      by_cases h : m.series = series ∧ r.bucketStart m.timestamp.toInt = start
      · obtain ⟨rfl, rfl⟩ := h
        have hcell : apply r L (.write m) m.series (r.bucketStart m.timestamp.toInt) =
            some (m.applied (L m.series (r.bucketStart m.timestamp.toInt))) := if_pos ⟨rfl, rfl⟩
        rw [List.filter_cons_of_pos (by simp), List.foldl_cons, hcell]
      · have hcell : apply r L (.write m) series start = L series start :=
          if_neg fun h' => h ⟨h'.1.symm, h'.2.symm⟩
        rw [List.filter_cons_of_neg (by simpa using h), hcell]

end Ledger

namespace Pending

variable {p : Pending} {now : Int64} {m : Metric}

theorem timestamp_of_mem (h : m ∈ p.metrics now) : m.timestamp = now := by
  rcases List.mem_append.mp h with h | h
  all_goals
    obtain ⟨e, -, rfl⟩ := List.mem_map.mp h
    rfl

/-- A ledger with all that has been gathered entered at one time: a counter is added to what
its bucket holds, and a gauge replaces that and the counter of its series. -/
def enter (p : Pending) (r : Resolution) (now : Int64) (L : Ledger) : Ledger :=
  fun series start =>
    if start = r.bucketStart now.toInt then
      match p.gauges.get? series, p.counters.get? series with
      | some value, _ => some value
      | none, some delta => some ((L series start).getD 0 + delta)
      | none, none => L series start
    else L series start

theorem foldl_metrics (p : Pending) (r : Resolution) (now : Int64) (L : Ledger) :
    ((p.metrics now).map Change.write).foldl (Ledger.apply r) L = p.enter r now L := by
  funext series start
  have hfilter : (p.metrics now).filter (fun m => m.series = series ∧
      r.bucketStart m.timestamp.toInt = start) =
      if start = r.bucketStart now.toInt then
        (p.metrics now).filter (fun m => m.series = series) else [] := by
    split
    · next heq =>
      refine List.filter_congr fun m hm => ?_
      rw [timestamp_of_mem hm, heq]
      simp
    · next hne =>
      refine List.filter_eq_nil_iff.mpr fun m hm h => hne ?_
      rw [timestamp_of_mem hm] at h
      exact (of_decide_eq_true h).2.symm
  rw [Ledger.foldl_writes, hfilter, enter]
  split
  · rw [filter_metrics]
    cases p.counters.get? series <;> cases p.gauges.get? series <;> rfl
  · rfl

theorem counters_requeueOne (p : Pending) (m : Metric) (series : Series) :
    (p.requeueOne m).counters.get? series =
      (valuesOf .counter series [m]).foldl (fun held n => some (held.getD 0 + n))
        (p.counters.get? series) := by
  rw [requeueOne, valuesOf_cons]
  cases hkind : m.kind with
  | counter =>
      by_cases hseries : m.series = series
      · simp [increment, SortedMap.get?_insert, hseries, valuesOf_nil]
      · simp [increment, SortedMap.get?_insert, hseries, Ne.symm hseries, valuesOf_nil]
  | gauge =>
      dsimp only
      split <;> simp [gauge, valuesOf_nil]

theorem counters_requeue (p : Pending) (ms : List Metric) (series : Series) :
    (p.requeue ms).counters.get? series =
      (valuesOf .counter series ms).foldl (fun held n => some (held.getD 0 + n))
        (p.counters.get? series) := by
  induction ms generalizing p with
  | nil => rfl
  | cons m ms ih =>
      rw [requeue, List.foldl_cons]
      refine (ih (p.requeueOne m)).trans ?_
      rw [counters_requeueOne, ← List.foldl_append, ← valuesOf_append]
      rfl

theorem requeue_metrics (p : Pending) (now : Int64) :
    ({} : Pending).requeue (p.metrics now) = p := by
  have hcounters : (({} : Pending).requeue (p.metrics now)).counters = p.counters := by
    refine SortedMap.ext_get? fun series => ?_
    rw [counters_requeue, valuesOf_metrics, gathered, SortedMap.get?_empty]
    cases p.counters.get? series with
    | none => rfl
    | some n => exact congrArg some (Int64.zero_add n)
  have hgauges : (({} : Pending).requeue (p.metrics now)).gauges = p.gauges := by
    refine SortedMap.ext_get? fun series => ?_
    rw [gauge_requeue, valuesOf_metrics, gathered, SortedMap.get?_empty]
    cases p.gauges.get? series <;> rfl
  cases p
  exact congrArg₂ Pending.mk hcounters hgauges

end Pending

namespace MetricStore

variable {store : MetricStore} {now : Int64} {pending : Pending} {s s' : Storage} {e : Error}

theorem flush_eq (store : MetricStore) (now : Int64) (pending : Pending) (s : Storage) :
    store.flush now pending s =
      match (store.addAll (pending.metrics now)).run answer s with
      | (.ok (), s') => (.ok (pending.metrics now).length, {}, s')
      | (.error e, s') => (.error e, pending, s') := by
  have hreturned := pending.requeue_metrics now
  have hdrain : Flushing.drain.run (Flushing.answer now store.send) (pending, s) =
      (.ok (pending.metrics now), ({}, s)) := rfl
  rw [flush, Flushing.flush, Program.bind_eq, Program.run_bind_of_ok hdrain]
  generalize pending.metrics now = batch at hreturned ⊢
  cases batch with
  | nil => rfl
  | cons m batch =>
      have hpublish : (Flushing.publish (m :: batch)).run (Flushing.answer now store.send) ({}, s) =
          (((store.addAll (m :: batch)).run answer s).1,
            ({}, ((store.addAll (m :: batch)).run answer s).2)) := rfl
      rw [if_neg (by simp), Program.bind_eq, Program.run_bind, Program.run_attempt, hpublish]
      rcases (store.addAll (m :: batch)).run answer s with ⟨e | _, s'⟩
      · dsimp only
        rw [← hreturned]
        rfl
      · rfl

theorem addAll_of_invalid {batch : List Metric} (h : ¬ ∀ m ∈ batch, m.defect? = none)
    (store : MetricStore) (s : Storage) :
    ∃ m ∈ batch, ∃ defect, m.defect? = some defect ∧
      (store.addAll batch).run answer s = (.error (.invalidMetric defect.message), s) := by
  obtain ⟨m, hm, defect, hdefect, hcheck⟩ := validateAll_eq_error h
  refine ⟨m, hm, defect, hdefect, ?_⟩
  rw [addAll, hcheck]
  rfl

/-- One flush into a store whose tables are in order and have numbers left. If all that has
been gathered is valid, all of it is entered at every resolution. If one value has a defect,
no value is: the flush fails with the defect, nothing is written, and everything is pending
as before. -/
theorem flush_all_or_nothing {d : Datasets}
    (hnamed : ∀ r, d.Named r (store.table r)) (hnames : d.EntitiesApart)
    {L : Resolution → Ledger} (hkeeps : d.Keeps s L) (now : Int64) (pending : Pending)
    (hroom : d.entityTable.Room ((pending.metrics now).flatMap (·.series.strings)) s) :
    ((∀ m ∈ pending.metrics now, m.defect? = none) →
      ∃ s', store.flush now pending s = (.ok (pending.metrics now).length, {}, s') ∧
        d.Keeps s' fun r => pending.enter r now (L r)) ∧
    ((¬ ∀ m ∈ pending.metrics now, m.defect? = none) →
      ∃ m ∈ pending.metrics now, ∃ defect, m.defect? = some defect ∧
        store.flush now pending s = (.error (.invalidMetric defect.message), pending, s)) := by
  have hcurrent := fun r => (hnamed r).current
  constructor
  · intro hvalid
    have hstrings : ∀ m ∈ pending.metrics now, m.series.strings ⊆
        (pending.metrics now).flatMap (·.series.strings) :=
      fun m hm e he => List.mem_flatMap.mpr ⟨m, hm, he⟩
    obtain ⟨s', hrun⟩ := hkeeps.addAll_run hnames hcurrent hroom hvalid hstrings
    have hkept := hkeeps.addAll hnames hcurrent hrun
    simp only [Pending.foldl_metrics] at hkept
    exact ⟨s', by rw [flush_eq, hrun], hkept⟩
  · intro hinvalid
    obtain ⟨m, hm, defect, hdefect, hrun⟩ := addAll_of_invalid hinvalid store s
    exact ⟨m, hm, defect, hdefect, by rw [flush_eq, hrun]⟩

def samplePending : Pending :=
  ((({} : Pending).increment ⟨"a", .empty⟩ 1).gauge ⟨"a", .empty⟩ (-5)).increment
    ⟨"b", .singleton "h" "x"⟩ 2

theorem sample_flush_all_or_nothing :
    let d := Datasets.usual {}
    let store := (d.openStore {}).1
    let fails := samplePending.increment ⟨"b", .singleton "h" "x"⟩ (-3)
    (∃ s', store.flush 100 samplePending newStorage = (.ok 3, {}, s') ∧
      d.Keeps s' fun r => samplePending.enter r 100 fun _ _ => none) ∧
    ∃ e, store.flush 100 fails newStorage = (.error e, fails, newStorage) := by
  intro d store fails
  have hd : Datasets.ofConfig {} 0 = .ok d := rfl
  have hnamed := fun r => Datasets.named_openStore (Datasets.sound_ofConfig hd).1 {} r
  have hnames : d.EntitiesApart := fun r => by cases r <;> decide +kernel
  have hroom : ∀ pending : Pending,
      ((pending.metrics 100).flatMap (·.series.strings)).length ≤ 4294967295 →
      d.entityTable.Room ((pending.metrics 100).flatMap (·.series.strings)) newStorage :=
    fun pending => .of_empty (holds_of_blank (by decide +kernel)) fun _ => rfl
  have hall := flush_all_or_nothing hnamed hnames keeps_newStorage 100 samplePending
    (hroom _ (by decide +kernel))
  have hnone := flush_all_or_nothing hnamed hnames keeps_newStorage 100 fails
    (hroom _ (by decide +kernel))
  obtain ⟨_, -, defect, -, hfails⟩ := hnone.2 (by decide +kernel)
  exact ⟨hall.1 (by decide +kernel), .invalidMetric defect.message, hfails⟩

/-- A counter that would be accepted on its own is not written at any resolution beside one
that fell below zero. -/
theorem negative_counter_keeps_others_back :
    let store := ((Datasets.usual {}).openStore {}).1
    let pending := (({} : Pending).increment ⟨"a", .empty⟩ 1).increment ⟨"b", .empty⟩ (-1)
    let a : Metric := ⟨.counter, "a", 100, 1, .empty⟩
    let s' := (store.flush 100 pending newStorage).2.2
    a ∈ pending.metrics 100 ∧ a.defect? = none ∧
      ∀ r, ((store.query r .empty "a" ⟨Int64.minValue, Int64.maxValue⟩).run answer s').1.toOption =
        some [] := by
  refine ⟨by decide +kernel, by decide +kernel, fun r => ?_⟩
  cases r <;> decide +kernel

end MetricStore

end Rollup
