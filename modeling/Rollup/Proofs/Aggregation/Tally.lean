import Mathlib.Algebra.BigOperators.Group.List.Basic
import Mathlib.Tactic.Linarith
import Rollup.Aggregation.Pending

namespace Rollup

def magnitude (n : Int64) : Int := |n.toInt|

def tally (weigh : Int64 → Int) (series : Series) (ms : List Metric) : Int :=
  ((ms.filter fun m => m.kind = .counter ∧ m.series = series).map fun m => weigh m.value).sum

def valuesOf (kind : MetricKind) (series : Series) (ms : List Metric) : List Int64 :=
  (ms.filter fun m => m.kind = kind ∧ m.series = series).map (·.value)

section Tally

variable {weigh : Int64 → Int} {kind : MetricKind} {series : Series} {m : Metric}
  {ms ms' : List Metric}

theorem valuesOf_nil : valuesOf kind series [] = [] := rfl

theorem valuesOf_append : valuesOf kind series (ms ++ ms') =
    valuesOf kind series ms ++ valuesOf kind series ms' := by
  simp [valuesOf]

theorem valuesOf_cons : valuesOf kind series (m :: ms) =
    if m.kind = kind ∧ m.series = series then m.value :: valuesOf kind series ms
    else valuesOf kind series ms := by
  by_cases h : m.kind = kind ∧ m.series = series <;> simp [valuesOf, h]

theorem tally_eq : tally weigh series ms = ((valuesOf .counter series ms).map weigh).sum := by
  rw [tally, valuesOf, List.map_map]
  rfl

theorem tally_nil : tally weigh series [] = 0 := rfl

theorem tally_append : tally weigh series (ms ++ ms') =
    tally weigh series ms + tally weigh series ms' := by
  simp [tally]

theorem tally_cons : tally weigh series (m :: ms) =
    (if m.kind = .counter ∧ m.series = series then weigh m.value else 0) +
      tally weigh series ms := by
  by_cases h : m.kind = .counter ∧ m.series = series <;> simp [tally, h]

theorem tally_singleton (hzero : weigh 0 = 0) (hcounter : m.kind = .counter) :
    tally weigh series [m] = weigh (if m.series = series then m.value else 0) := by
  rw [tally_cons, tally_nil, add_zero]
  by_cases h : m.series = series <;> simp [h, hcounter, hzero]

theorem abs_tally_le (series : Series) (ms : List Metric) :
    |tally Int64.toInt series ms| ≤ tally magnitude series ms := by
  induction ms with
  | nil => exact le_refl _
  | cons m ms ih =>
      rw [tally_cons, tally_cons]
      refine (abs_add_le _ _).trans (add_le_add ?_ ih)
      split
      · exact le_refl _
      · exact le_of_eq abs_zero

end Tally

/-- A word can hold the integer. -/
def Fits (n : Int) : Prop := -2 ^ 63 ≤ n ∧ n < 2 ^ 63

instance (n : Int) : Decidable (Fits n) := inferInstanceAs (Decidable (_ ∧ _))

theorem fits_of_abs_lt {n : Int} (h : |n| < 2 ^ 63) : Fits n :=
  ⟨le_of_lt (abs_lt.mp h).1, (abs_lt.mp h).2⟩

theorem eq_of_ofInt_eq {m n : Int} (h : Int64.ofInt m = Int64.ofInt n) (hm : Fits m)
    (hn : Fits n) : m = n := by
  rw [← Int64.toInt_ofInt_of_le hm.1 hm.2, h, Int64.toInt_ofInt_of_le hn.1 hn.2]

theorem magnitude_ofInt_le (n : Int) : magnitude (Int64.ofInt n) ≤ |n| := by
  have h : (Int64.ofInt n).toInt = n.bmod 18446744073709551616 := Int64.toInt_ofInt
  rw [magnitude, h, Int.bmod_def, ← Int.natCast_natAbs, ← Int.natCast_natAbs]
  split <;> omega

theorem magnitude_add_le (m n : Int64) : magnitude (m + n) ≤ magnitude m + magnitude n := by
  have h : m + n = Int64.ofInt (m.toInt + n.toInt) := by
    rw [Int64.ofInt_add, Int64.ofInt_toInt, Int64.ofInt_toInt]
  rw [h]
  exact (magnitude_ofInt_le _).trans (abs_add_le _ _)

namespace Pending

variable {p : Pending} {series : Series}

def counter (p : Pending) (series : Series) : Int64 := (p.counters.get? series).getD 0

theorem filter_entries {l : List (Series × Int64)} (hl : Entries.Ascending l)
    (series : Series) : l.filter (fun e => e.1 = series) =
      ((Entries.find series l).map fun n => (series, n)).toList := by
  induction l with
  | nil => rfl
  | cons e l ih =>
      obtain ⟨series', n⟩ := e
      obtain ⟨hbefore, hl⟩ := List.pairwise_cons.mp hl
      by_cases h : series' = series
      · -- the entries ascend, so that no other one is of this series
        have hrest : (l.filter fun e => e.1 = series) = [] := by
          rw [List.filter_eq_nil_iff]
          intro e' he' heq
          exact KeyOrder.ne_of_before (hbefore e' he') (h.trans (of_decide_eq_true heq).symm)
        cases h
        simp [hrest, Entries.find_cons_self]
      · rw [List.filter_cons_of_neg (by simpa using h), ih hl, Entries.find_cons_ne (Ne.symm h)]

def gathered (p : Pending) : MetricKind → SortedMap Series Int64
  | .counter => p.counters
  | .gauge => p.gauges

theorem filter_column (kind : MetricKind) (column : SortedMap Series Int64) (now : Int64)
    (series : Series) :
    (column.entries.map fun e => (⟨kind, e.1.name, now, e.2, e.1.tags⟩ : Metric)).filter
        (fun m => m.series = series) =
      ((column.get? series).map fun n => ⟨kind, series.name, now, n, series.tags⟩).toList := by
  have hseries : (column.entries.filter ((fun m : Metric => decide (m.series = series)) ∘
      fun e => ⟨kind, e.1.name, now, e.2, e.1.tags⟩)) =
      column.entries.filter fun e => e.1 = series :=
    List.filter_congr fun e _ => rfl
  rw [List.filter_map, hseries, filter_entries column.ascending, ← SortedMap.get?_eq_find]
  cases column.get? series <;> rfl

theorem filter_metrics (p : Pending) (now : Int64) (series : Series) :
    (p.metrics now).filter (fun m => m.series = series) =
      ((p.counters.get? series).map fun n =>
        ⟨.counter, series.name, now, n, series.tags⟩).toList ++
      ((p.gauges.get? series).map fun n =>
        ⟨.gauge, series.name, now, n, series.tags⟩).toList := by
  rw [metrics, List.filter_append, filter_column, filter_column]

theorem valuesOf_metrics (p : Pending) (now : Int64) (kind : MetricKind) (series : Series) :
    valuesOf kind series (p.metrics now) = ((p.gathered kind).get? series).toList := by
  have hsplit : valuesOf kind series (p.metrics now) = (((p.metrics now).filter fun m =>
      m.series = series).filter fun m => m.kind = kind).map (·.value) := by
    rw [List.filter_filter, valuesOf]
    simp only [Bool.decide_and]
  rw [hsplit, filter_metrics]
  cases kind <;> simp only [gathered] <;> cases p.counters.get? series <;> cases p.gauges.get? series <;> rfl

theorem tally_metrics {weigh : Int64 → Int} (hzero : weigh 0 = 0) (p : Pending) (now : Int64)
    (series : Series) : tally weigh series (p.metrics now) = weigh (p.counter series) := by
  rw [tally_eq, valuesOf_metrics, counter, gathered]
  cases p.counters.get? series with
  | none => exact hzero.symm
  | some n => exact add_zero _

theorem counter_increment (p : Pending) (s : Series) (delta : Int64) (series : Series) :
    (p.increment s delta).counter series =
      if series = s then p.counter series + delta else p.counter series := by
  rw [counter, increment, SortedMap.get?_insert]
  split
  · next h =>
    rw [h]
    rfl
  · rfl

theorem counter_requeueOne (p : Pending) (m : Metric) (series : Series) :
    (p.requeueOne m).counter series = p.counter series +
      Int64.ofInt (if m.kind = .counter ∧ m.series = series then m.value.toInt else 0) := by
  rw [requeueOne]
  cases hkind : m.kind with
  | counter =>
      simp only [true_and]
      rw [counter_increment]
      by_cases h : m.series = series
      · simp [h]
      · simp [h, Ne.symm h]
  | gauge =>
      dsimp only
      split <;> simp [counter, gauge]

theorem counter_requeue (p : Pending) (ms : List Metric) (series : Series) :
    (p.requeue ms).counter series =
      p.counter series + Int64.ofInt (tally Int64.toInt series ms) := by
  induction ms generalizing p with
  | nil => simp [requeue, tally_nil]
  | cons m ms ih =>
      rw [requeue, List.foldl_cons]
      refine (ih (p.requeueOne m)).trans ?_
      rw [counter_requeueOne, tally_cons, Int64.ofInt_add]
      ac_rfl

theorem gauge_requeueOne (p : Pending) (m : Metric) (series : Series) :
    (p.requeueOne m).gauges.get? series =
      (p.gauges.get? series).or (valuesOf .gauge series [m]).head? := by
  rw [requeueOne, valuesOf_cons]
  cases hkind : m.kind with
  | counter => simp [increment, valuesOf]
  | gauge =>
      simp only [true_and]
      by_cases hseries : m.series = series
      · subst hseries
        cases hheld : p.gauges.get? m.series with
        | none => simp [SortedMap.contains, hheld, gauge, SortedMap.get?_insert]
        | some n => simp [SortedMap.contains, hheld]
      · simp only [if_neg hseries]
        split
        · simp [valuesOf]
        · simp [gauge, SortedMap.get?_insert, Ne.symm hseries, valuesOf]

theorem gauge_requeue (p : Pending) (ms : List Metric) (series : Series) :
    (p.requeue ms).gauges.get? series =
      (p.gauges.get? series).or (valuesOf .gauge series ms).head? := by
  induction ms generalizing p with
  | nil => exact (Option.or_none ..).symm
  | cons m ms ih =>
      rw [requeue, List.foldl_cons]
      refine (ih (p.requeueOne m)).trans ?_
      rw [gauge_requeueOne, Option.or_assoc, ← List.head?_append, ← valuesOf_append]
      rfl

end Pending

end Rollup
