import Rollup.Proofs.Fact.Agreement

namespace Rollup

def Point.valueAt (points : List Point) (start : Int64) : Option Int64 :=
  (points.find? (·.timestamp = start)).map (·.value)

/-- A query takes the value into the bucket that starts at a time. -/
def Metric.Joins (m : Metric) (r : Resolution) (filter : Tags) (metric : String) (start : Int) :
    Prop :=
  (m.name = metric ∧ m.series.carries filter) ∧ r.bucketStart m.timestamp.toInt = start

instance (m : Metric) (r : Resolution) (filter : Tags) (metric : String) (start : Int) :
    Decidable (m.Joins r filter metric start) :=
  inferInstanceAs (Decidable ((_ ∧ _) ∧ _))

def deltas (ms : List Metric) (r : Resolution) (filter : Tags) (metric : String) (start : Int) :
    List Int64 :=
  (ms.filter (·.Joins r filter metric start)).map (·.value)

namespace Ledger

variable {L : Ledger} {r : Resolution} {m : Metric} {ms : List Metric} {all : List Series}
  {filter : Tags} {metric : String} {start : Int} {series : Series} {v : Int64}

theorem live_append (L : Ledger) (all all' : List Series) (filter : Tags) (metric : String)
    (start : Int) : L.live (all ++ all') filter metric start =
      L.live all filter metric start ++ L.live all' filter metric start :=
  List.filterMap_append

theorem live_write_of_not (h : m.Joins r filter metric start → m.series ∉ all) :
    (L.apply r (.write m)).live all filter metric start = L.live all filter metric start := by
  refine List.filterMap_congr fun series hseries => ?_
  split
  · next hmatch =>
    refine if_neg fun heq => ?_
    obtain ⟨rfl, rfl⟩ := heq
    exact h ⟨hmatch, rfl⟩ hseries
  · rfl

theorem live_write (hcounter : m.kind = .counter) (hjoins : m.Joins r filter metric start)
    (hnodup : all.Nodup) (hmem : m.series ∈ all) :
    (L.apply r (.write m)).live all filter metric start ≠ [] ∧
      Int64.ofInt (((L.apply r (.write m)).live all filter metric start).map Int64.toInt).sum =
        Int64.ofInt ((L.live all filter metric start).map Int64.toInt).sum + m.value := by
  obtain ⟨before, rest, rfl⟩ := List.append_of_mem hmem
  obtain ⟨-, hrest, hdisjoint⟩ := List.nodup_append.mp hnodup
  have hone : ∀ L : Ledger, L.live [m.series] filter metric start =
      (L m.series start).toList := by
    intro L
    simp only [live, List.filterMap_cons, List.filterMap_nil]
    rw [if_pos (show m.series.name = metric ∧ _ from hjoins.1)]
    cases L m.series start <;> rfl
  have happlied : L.apply r (.write m) m.series start = some (m.applied (L m.series start)) :=
    if_pos ⟨rfl, hjoins.2.symm⟩
  have hsplit : ∀ L : Ledger, L.live (before ++ m.series :: rest) filter metric start =
      L.live before filter metric start ++ ((L m.series start).toList ++
        L.live rest filter metric start) := by
    intro L
    rw [← hone, ← live_append, ← live_append]
    rfl
  rw [hsplit, hsplit, live_write_of_not fun _ h => hdisjoint _ h _ (List.mem_cons_self ..) rfl,
    live_write_of_not fun _ => (List.nodup_cons.mp hrest).1, happlied]
  refine ⟨by simp, ?_⟩
  simp only [Option.toList_some, List.map_append, List.sum_append, List.map_cons, List.map_nil,
    List.sum_cons, List.sum_nil, Int.add_zero, Int64.ofInt_add, Int64.ofInt_toInt,
    Metric.applied, hcounter]
  cases L m.series start with
  | none =>
      simp only [Option.getD_none, Option.toList_none, List.map_nil, List.sum_nil, Int64.zero_add]
      ac_rfl
  | some old =>
      simp only [Option.getD_some, Option.toList_some, List.map_cons, List.map_nil, List.sum_cons,
        List.sum_nil, Int.add_zero, Int64.ofInt_toInt]
      ac_rfl

theorem live_writes (filter : Tags) (metric : String) (start : Int)
    (hcounters : ∀ m ∈ ms, m.kind = .counter) (hnodup : all.Nodup)
    (hmem : ∀ m ∈ ms, m.series ∈ all) (L : Ledger) :
    let L' := (ms.map Change.write).foldl (apply r) L
    (L'.live all filter metric start = [] ↔
      L.live all filter metric start = [] ∧ deltas ms r filter metric start = []) ∧
    Int64.ofInt ((L'.live all filter metric start).map Int64.toInt).sum =
      Int64.ofInt ((L.live all filter metric start).map Int64.toInt).sum +
        Int64.ofInt ((deltas ms r filter metric start).map Int64.toInt).sum := by
  induction ms generalizing L with
  | nil => simp [deltas]
  | cons m ms ih =>
      obtain ⟨hcounter, hcounters⟩ := List.forall_mem_cons.mp hcounters
      obtain ⟨hseries, hmem⟩ := List.forall_mem_cons.mp hmem
      obtain ⟨hempty, hsum⟩ := ih hcounters hmem (L.apply r (.write m))
      simp only [List.map_cons, List.foldl_cons, hempty, hsum]
      by_cases hjoins : m.Joins r filter metric start
      · obtain ⟨hne, hone⟩ := live_write (L := L) hcounter hjoins hnodup hseries
        have hdeltas : deltas (m :: ms) r filter metric start =
            m.value :: deltas ms r filter metric start := by
          simp [deltas, hjoins]
        simp only [hne, hone, hdeltas, false_and, and_false, reduceCtorEq, true_and,
          List.map_cons, List.sum_cons, Int64.ofInt_add, Int64.ofInt_toInt]
        ac_rfl
      · have hsame : (L.apply r (.write m)).live all filter metric start =
            L.live all filter metric start := live_write_of_not fun h => absurd h hjoins
        have hdeltas : deltas (m :: ms) r filter metric start =
            deltas ms r filter metric start := by
          simp [deltas, hjoins]
        rw [hsame, hdeltas]
        exact ⟨Iff.rfl, rfl⟩

theorem of_writes_some (h : (ms.map Change.write).foldl (apply r) L series start = some v) :
    (∃ m ∈ ms, m.series = series) ∨ ∃ v, L series start = some v := by
  induction ms generalizing L with
  | nil => exact .inr ⟨v, h⟩
  | cons m ms ih =>
      rcases ih h with ⟨m', hm', hseries⟩ | ⟨v', hv'⟩
      · exact .inl ⟨m', List.mem_cons_of_mem _ hm', hseries⟩
      · simp only [apply] at hv'
        split at hv'
        · next heq => exact .inl ⟨m, List.mem_cons_self .., heq.1.symm⟩
        · exact .inr ⟨v', hv'⟩

end Ledger

namespace SeriesPoints

variable {points points' : SeriesPoints} {L : Ledger} {E E' : Table} {r : Resolution}
  {inRange : Int64 → Prop} {filter : Tags} {metric : String} {ms : List Metric}

theorem valueAt_sum (points : SeriesPoints) (start : Int64) :
    Point.valueAt points.sum start = if valuesAt points.entries start = [] then none
      else some (Int64.ofInt (valuesAt points.entries start).sum) := by
  cases hfind : points.sum.find? (·.timestamp = start) with
  | none =>
      rw [Point.valueAt, hfind, Option.map_none]
      split
      · rfl
      · next hne =>
        have hmem : ⟨start, Int64.ofInt (valuesAt points.entries start).sum⟩ ∈ points.sum :=
          mem_sum.mpr ⟨hne, rfl⟩
        simpa using List.find?_eq_none.mp hfind _ hmem
  | some p =>
      have hstart : p.timestamp = start := by simpa using List.find?_some hfind
      obtain ⟨hne, hvalue⟩ := mem_sum.mp (List.mem_of_find?_eq_some hfind)
      rw [hstart] at hne hvalue
      rw [Point.valueAt, hfind, Option.map_some, hvalue, if_neg hne]

theorem Shows.mem_sum_after (h : points.Shows L E inRange filter metric)
    (h' : points'.Shows ((ms.map Change.write).foldl (Ledger.apply r) L) E' inRange filter metric)
    (hcounters : ∀ m ∈ ms, m.kind = .counter) (p : Point) :
    p ∈ points'.sum ↔ inRange p.timestamp ∧
      ((Point.valueAt points.sum p.timestamp).isSome ∨
        deltas ms r filter metric p.timestamp.toInt ≠ []) ∧
      p.value = (Point.valueAt points.sum p.timestamp).getD 0 +
        Int64.ofInt ((deltas ms r filter metric p.timestamp.toInt).map Int64.toInt).sum := by
  rw [mem_sum]
  by_cases hrange : inRange p.timestamp
  · obtain ⟨known, -, hknown⟩ := h.exists_all hrange
    let all := (known ++ ms.map Metric.series).dedup
    have hnodup : all.Nodup := List.nodup_dedup _
    have hmem : ∀ m ∈ ms, m.series ∈ all := fun m hm =>
      List.mem_dedup.mpr (List.mem_append_right _ (List.mem_map_of_mem hm))
    have hperm := h.valuesAt_perm hnodup (fun series v hmatch hv =>
      List.mem_dedup.mpr (List.mem_append_left _ (hknown series v hmatch hv))) hrange
    have hperm' := h'.valuesAt_perm hnodup (fun series v hmatch hv => by
      rcases Ledger.of_writes_some hv with ⟨m, hm, rfl⟩ | ⟨v', hv'⟩
      · exact hmem m hm
      · exact List.mem_dedup.mpr (List.mem_append_left _ (hknown series v' hmatch hv'))) hrange
    obtain ⟨hempty, hsum⟩ := Ledger.live_writes (r := r) filter metric p.timestamp.toInt
      hcounters hnodup hmem L
    have hnil : valuesAt points.entries p.timestamp = [] ↔
        L.live all filter metric p.timestamp.toInt = [] := by
      rw [← List.length_eq_zero_iff, hperm.length_eq, List.length_eq_zero_iff, List.map_eq_nil_iff]
    have hnil' : valuesAt points'.entries p.timestamp = [] ↔
        L.live all filter metric p.timestamp.toInt = [] ∧
          deltas ms r filter metric p.timestamp.toInt = [] := by
      rw [← List.length_eq_zero_iff, hperm'.length_eq, List.length_eq_zero_iff,
        List.map_eq_nil_iff, hempty]
    rw [hperm'.sum_eq, hsum, ← hperm.sum_eq, valueAt_sum, ne_eq, hnil', and_iff_right hrange]
    by_cases hlive : valuesAt points.entries p.timestamp = []
    · have hlive' := hnil.mp hlive
      simp [hlive, hlive']
    · have hlive' := mt hnil.mpr hlive
      simp [hlive, hlive']
  · simp [h'.valuesAt_eq_nil hrange, hrange]

end SeriesPoints

end Rollup
