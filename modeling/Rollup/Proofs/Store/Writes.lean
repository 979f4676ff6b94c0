import Rollup.Proofs.Fact.Totals
import Rollup.Proofs.Store.Ledgers

namespace Rollup

open Storage

inductive WriteCall where
  | add (m : Metric)
  | addAll (ms : List Metric)
  deriving DecidableEq, Repr

def WriteCall.values : WriteCall → List Metric
  | add m => [m]
  | addAll ms => ms

namespace MetricStore

def perform (store : MetricStore) : WriteCall → Work Unit
  | .add m => store.add m
  | .addAll ms => store.addAll ms

def performAll (store : MetricStore) : List WriteCall → Work Unit
  | [] => return ()
  | call :: calls => do
    store.perform call
    store.performAll calls

theorem writeTo_eq (store : MetricStore) (m : Metric) (rs : List Resolution) :
    store.writeTo m rs = store.writeAllTo [m] rs := by
  have hone : ∀ table : MetricTable, table.writeAll [m] = table.write m := fun table =>
    Program.bind_pure _
  induction rs with
  | nil => rfl
  | cons r rs ih => simp only [writeTo, writeAllTo, hone, ih]

theorem add_eq_addAll (store : MetricStore) (m : Metric) : store.add m = store.addAll [m] := by
  have hvalid : validateAll [m] = m.validate := by
    rw [validateAll]
    cases m.validate <;> rfl
  simp only [add, addAll, hvalid, writeTo_eq]

theorem perform_eq (store : MetricStore) (call : WriteCall) :
    store.perform call = store.addAll call.values := by
  cases call with
  | add m => exact store.add_eq_addAll m
  | addAll ms => rfl

end MetricStore

namespace Datasets

variable {d : Datasets} {s s' : Storage} {store : MetricStore}

/-- The current table of every resolution holds what the values written to it make of an
empty one. -/
def Tracks (d : Datasets) (s : Storage) (ms : Resolution → List Metric) : Prop :=
  ∀ r, ∃ T, (d.currentTable r).Reflects s T
    (((ms r).map Change.write).foldl (Ledger.apply r) fun _ _ => none)

theorem tracks_of_empty (hentities : d.entityTable.Ready s)
    (hempty : ∀ r, s.Holds (d.currentTable r).table .empty) : d.Tracks s fun _ => [] :=
  Keeps.fresh hentities hempty

namespace Tracks

theorem performAll (hnames : d.EntitiesApart)
    (hdirect : ∀ r, store.table r = .direct (d.currentTable r)) {written : List Metric}
    {calls : List WriteCall} (h : d.Tracks s fun _ => written)
    (hrun : (store.performAll calls).run answer s = (.ok (), s')) :
    d.Tracks s' fun _ => written ++ calls.flatMap WriteCall.values := by
  induction calls generalizing s written with
  | nil =>
      cases hrun
      simpa using h
  | cons call calls ih =>
      obtain ⟨_, s₁, hfirst, hrest⟩ := Program.run_bind_ok hrun
      rw [store.perform_eq] at hfirst
      have hcurrent : ∀ r, (store.table r).current = d.currentTable r := fun r => by
        rw [hdirect]
        rfl
      have hkeeps := Keeps.addAll hnames hcurrent h hfirst
      simp only [← List.foldl_append, ← List.map_append] at hkeeps
      have hall := ih hkeeps hrest
      rwa [List.append_assoc] at hall

theorem query_run {written : List Metric} (h : d.Tracks s fun _ => written)
    (hcounters : ∀ m ∈ written, m.kind = .counter) (r : Resolution) (filter : Tags)
    (metric : String) (range : TimeRange) :
    ∃ points s', ((d.currentTable r).query filter metric range).run answer s =
        (.ok points, s') ∧
      points.Pairwise (fun p q => p.timestamp.toInt < q.timestamp.toInt) ∧
      ∀ p, p ∈ points ↔ FactTable.TakesIn r range p.timestamp ∧
        let added := deltas written r filter metric p.timestamp.toInt
        added ≠ [] ∧ p.value = Int64.ofInt (added.map Int64.toInt).sum := by
  obtain ⟨T, hr⟩ := h r
  obtain ⟨points, s', hrun, hshows⟩ :=
    hr.query_shows (d.rolled_currentTable r) filter metric range
  have hnothing : SeriesPoints.Shows .empty (fun _ _ => none)
      (s.contents (d.currentTable r).entities.table) (FactTable.TakesIn r range) filter metric := by
    refine ⟨hshows.numbered, nofun, fun key v => ?_⟩
    simp
  refine ⟨points.sum, s', hrun, points.ascending_sum, fun p => ?_⟩
  rw [hnothing.mem_sum_after hshows hcounters]
  have hzero : Point.valueAt (SeriesPoints.sum .empty) p.timestamp = none := rfl
  simp [hzero]

end Tracks

end Datasets

end Rollup
