import Rollup.Proofs.Fact.Shared

namespace Rollup.FactTable

open Storage Program

variable {t : FactTable} {duties : List (Nat × Change)} {T : Table}
  {region : Bytes → Bytes → Prop} {i cache : Nat} {m : Metric} {k : SeriesNumbers}
  {x : Logged × List (Nat × SeriesNumbers)}

abbrev Through (i : Nat) (x : Logged × List (Nat × SeriesNumbers)) : Prop :=
  i ∈ x.2.map Prod.fst

/-- The tasks agree on what has happened in a region, and leave it to each of them to get
through. -/
def tracing (t : FactTable) (duties : List (Nat × Change)) (T : Table)
    (region : Bytes → Bytes → Prop) : Discipline Nat Logged (List (Nat × SeriesNumbers)) where
  inv := t.Traced duties T region
  rely i x y := Through i x ↔ Through i y
  refl _ _ := Iff.rfl
  trans _ _ _ _ := Iff.trans

theorem safe_write (hne : t.entities.table ≠ t.table)
    (hduty : duties[i]? = some (cache, .write m)) (hfirst : ¬ Through i x) :
    ((t.through cache).write m).Safe (t.tracing duties T region) Logged.answer fallible i
      (fun outcome y => outcome = .ok () → Through i y) x := by
  rw [write_eq]
  refine safe_bind (m := fun outcome y => ¬ Through i y ∧ (outcome = .ok () → m.defect? = none))
    (fun y hy _ => ⟨mt hy.mpr hfirst, Metric.of_validate⟩) ?_ fun _ _ _ _ => nofun
  rintro ⟨⟩ y - ⟨hfirst, hvalid⟩
  refine safe_bind (Confined.safe (D := t.tracing duties T region) (R := fun y => ¬ Through i y)
    ((t.through cache).numbers_only m.series) (fun y z hz => mt hz.mpr) ?_ hfirst) ?_
    fun _ _ _ _ => nofun
  · intro q s done hq hinv hheld
    refine ⟨done, hinv.beside ?_, fun _ _ => Iff.rfl, hheld, fun _ _ => trivial⟩
    rintro op rfl
    exact hne hq.1.symm
  · intro k z _ hz
    refine safe_enter (fun _ _ h => h.mp) fun y hy hinv a T' hperform => ⟨y.2 ++ [(i, k)], ?_⟩
    refine ⟨hinv.enter hduty (hvalid rfl) (mt hy.mpr hz.1) hperform, fun j hji => ?_, ?_⟩
    · simp [tracing, Through, hji]
    · simp [Through]

theorem safe_expire {cutoff : Int64} (ht : t.Rolled)
    (hregion : ∀ row column, region row column → ∃ k time, row = t.rowOf k time ∧
      column = t.columnOf time ∧ 0 ≤ time.toInt ∧ ¬ t.Expired cutoff time) :
    ((t.through cache).perform (.expire cutoff)).Safe (t.tracing duties T region) Logged.answer
      fallible i (fun _ _ => True) x := by
  refine safe_bind (m := fun _ _ => True) ?_ (fun _ _ _ _ _ _ _ => trivial) fun _ _ _ _ => trivial
  refine safe_mono (fun _ _ _ _ => trivial) (Confined.safe (R := fun _ => True)
    (t.deleteBefore_confined ht cutoff) (fun _ _ _ h => h) ?_ trivial)
  intro q s done hq hinv _
  exact ⟨done, hinv.clear hq hregion, fun _ _ => Iff.rfl, trivial,
    scansInRange_answer q s.storage⟩

/-- Whatever the order in which writes and deletions of one table take their steps, and
whichever of them fail or are given up: each write that comes back has entered its value
once, and a bucket that ends after the cutoffs holds exactly what these writes, one after
the other and without a deletion, would have left there. -/
theorem writes_survive (t : FactTable) (asked : Nat)
    (hroll : t.roll = Place.roll t.resolution asked) (hne : t.entities.table ≠ t.table)
    (s : Storage) (duties : List (Nat × Change)) (turns : List (Nat × Treatment)) :
    let w := t.works.follow (t.works.gather ⟨s, []⟩ duties) turns
    ∃ done : List (Nat × SeriesNumbers),
      List.Forall₂ (t.Writes duties) (w.state.writes t.table) done ∧
      (done.map Prod.fst).Nodup ∧
      (∀ i cache m, w.outcome i = some ((cache, .write m), .ok ()) → i ∈ done.map Prod.fst) ∧
      ∀ k time, 0 ≤ time.toInt →
        (∀ cache cutoff, (cache, .expire cutoff) ∈ duties → ¬ t.Expired cutoff time) →
        (w.state.storage.contents t.table).cell? (t.rowOf k time) (t.columnOf time) =
          ((s.contents t.table).replay (w.state.writes t.table)).cell? (t.rowOf k time)
            (t.columnOf time) := by
  intro w
  let region : Bytes → Bytes → Prop := fun row column => ∃ k time, row = t.rowOf k time ∧
    column = t.columnOf time ∧ 0 ≤ time.toInt ∧
      ∀ cache cutoff, (cache, .expire cutoff) ∈ duties → ¬ t.Expired cutoff time
  have hstart : t.works.Sound (t.tracing duties (s.contents t.table) region)
      (fun i duty outcome y => ∀ m, duty.2 = .write m → outcome = .ok () → Through i y)
      (t.works.gather ⟨s, []⟩ duties) := by
    refine Pool.Works.sound_gather (Traced.start t duties region s) fun i duty hduty => ?_
    obtain ⟨cache, change⟩ := duty
    cases change with
    | write m =>
        refine safe_mono ?_ (safe_write hne hduty (by simp [Through]))
        intro outcome y _ h _ _
        exact h
    | expire cutoff =>
        refine safe_mono (fun _ _ _ _ _ => nofun) (safe_expire (rolled_of_eq hroll) ?_)
        rintro row column ⟨k, time, hrow, hcolumn, htime, hkept⟩
        exact ⟨k, time, hrow, hcolumn, htime, hkept cache cutoff (List.mem_of_getElem? hduty)⟩
  obtain ⟨done, htraced, hsafe⟩ :=
    Pool.Works.sound_follow turns hstart fun _ _ _ => trivial
  refine ⟨done, htraced.writes, htraced.once, ?_, ?_⟩
  · intro i cache m hi
    exact hsafe i _ _ (Pool.outcome_eq_some_iff.mp hi) _ Iff.rfl htraced m rfl rfl
  · intro k time htime hkept
    exact htraced.cells _ _ ⟨k, time, rfl, rfl, htime, hkept⟩

def raceTable : FactTable := legacy ⟨"s", "f"⟩ ⟨⟨"s", "e"⟩, 0⟩ .minute 10

def raceDuties : List (Nat × Change) :=
  [(0, .write ⟨.counter, "m", 30, 1, .empty⟩), (1, .write ⟨.counter, "m", 61, 2, .empty⟩),
    (0, .expire 60), (1, .write ⟨.counter, "m", 65, 5, .empty⟩)]

/-- The last write adds to a row after the deletion has read it and before it is trimmed. -/
def raceTurns : List (Nat × Treatment) :=
  (List.replicate 7 0 ++ List.replicate 4 1 ++ [2, 2, 3, 3, 2]).map fun i => (i, .served)

theorem race_writes_survive :
    let w := raceTable.works.follow (raceTable.works.gather ⟨sampleStorage, []⟩ raceDuties)
      raceTurns
    let cell := fun T : Table => T.cell? (raceTable.rowOf ⟨1, []⟩ 61) (raceTable.columnOf 61)
    (raceTable.roll = Place.roll raceTable.resolution 10 ∧
      raceTable.entities.table ≠ raceTable.table) ∧
    (∃ duty, w.outcome 2 = some (duty, .ok ())) ∧ ¬ raceTable.Expired 60 61 ∧
    ∃ done, List.Forall₂ (raceTable.Writes raceDuties) (w.state.writes ⟨"s", "f"⟩) done ∧
      (3 ∈ done.map Prod.fst) ∧
      cell (w.state.storage.contents ⟨"s", "f"⟩) = some (Bytes.ofInt64 7) ∧
      cell (Table.empty.replay (w.state.writes ⟨"s", "f"⟩)) = some (Bytes.ofInt64 7) := by
  intro w cell
  have hkept : ¬ raceTable.Expired 60 61 := fun h => absurd h.2 (by decide)
  have hcell : cell (w.state.storage.contents ⟨"s", "f"⟩) = some (Bytes.ofInt64 7) := by
    decide +kernel
  obtain ⟨done, hwrites, -, hthrough, hcells⟩ :=
    writes_survive raceTable 10 rfl (by decide) sampleStorage raceDuties raceTurns
  refine ⟨⟨rfl, by decide⟩, ⟨_, rfl⟩, hkept, done, hwrites, hthrough 3 _ _ rfl, hcell, ?_⟩
  refine (hcells ⟨1, []⟩ 61 (by decide) fun cache cutoff h => ?_).symm.trans hcell
  simp only [raceDuties, List.mem_cons, Prod.mk.injEq, reduceCtorEq, and_false, false_or,
    Change.expire.injEq, List.not_mem_nil, or_false] at h
  exact h.2 ▸ hkept

end Rollup.FactTable
