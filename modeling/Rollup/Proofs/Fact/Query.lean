import Mathlib.Data.UInt
import Mathlib.Data.List.Forall2
import Mathlib.Data.List.Induction
import Rollup.Proofs.Entity.Resolve
import Rollup.Proofs.Fact.Reading

namespace Rollup

open Storage Entity

def TagNumbers (E : Table) (tag : String × String) (ids : UInt32 × UInt32) : Prop :=
  NumberedAs E ⟨.tagName, tag.1⟩ ids.1 ∧ NumberedAs E ⟨.tagValue, tag.2⟩ ids.2

namespace FactTable

variable {t : FactTable} {s : Storage} {T : Table}

theorem lookupTag_run (h : t.entities.Legible s) (tag : String × String) :
    ∃ found s', (t.lookupTag tag).run answer s = (.ok found, s') ∧ s'.catalog = s.catalog ∧
      t.entities.Legible s' ∧
      ∀ ids, found = some ids ↔ TagNumbers (s.contents t.entities.table) tag ids := by
  obtain ⟨name, s₁, hname, hcatalog, hlegible, hnumber⟩ :=
    EntityTable.lookup_run h ⟨.tagName, tag.1⟩
  obtain ⟨value, s₂, hvalue, hcatalog', hlegible', hnumber'⟩ :=
    EntityTable.lookup_run hlegible ⟨.tagValue, tag.2⟩
  have hcontents : s₁.contents t.entities.table = s.contents t.entities.table := by
    simp only [contents, hcatalog]
  rw [hcontents] at hnumber'
  have hrun : (t.lookupTag tag).run answer s =
      (.ok (name.bind fun n => value.map fun v => (n, v)), s₂) := by
    simp only [lookupTag, Program.bind_eq, Program.pure_eq]
    rw [Program.run_bind_of_ok hname, Program.run_bind_of_ok hvalue]
    cases name <;> cases value <;> rfl
  refine ⟨_, s₂, hrun, hcatalog'.trans hcatalog, hlegible', fun ids => ?_⟩
  rw [TagNumbers, ← hnumber, ← hnumber']
  cases name <;> cases value <;> simp [Prod.ext_iff]

theorem lookupTags_cons (t : FactTable) (tag : String × String) (filter : List (String × String)) :
    t.lookupTags (tag :: filter) = (t.lookupTag tag).bind fun found => match found with
      | none => .result (.ok none)
      | some ids => (t.lookupTags filter).bind fun rest =>
          .result (.ok (rest.map (ids :: ·))) := by
  simp only [lookupTags, List.mapM_cons, OptionT.run_bind, OptionT.run_mk, Option.elimM,
    Program.bind_eq]
  congr 1
  funext found
  cases found with
  | none => rfl
  | some ids =>
      simp only [Option.elim_some]
      congr 1
      funext rest
      cases rest <;> rfl

theorem lookupTags_run (h : t.entities.Legible s) (filter : List (String × String)) :
    ∃ found s', (t.lookupTags filter).run answer s = (.ok found, s') ∧ s'.catalog = s.catalog ∧
      t.entities.Legible s' ∧ ∀ wanted, found = some wanted ↔
        List.Forall₂ (TagNumbers (s.contents t.entities.table)) filter wanted := by
  induction filter generalizing s with
  | nil =>
      refine ⟨some [], s, rfl, rfl, h, fun wanted => ?_⟩
      rw [List.forall₂_nil_left_iff, Option.some.injEq]
      exact eq_comm
  | cons tag filter ih =>
      obtain ⟨found, s₁, hfound, hcatalog, hlegible, hnumbers⟩ := lookupTag_run h tag
      rw [lookupTags_cons, Program.run_bind_of_ok hfound]
      cases found with
      | none =>
          refine ⟨none, s₁, rfl, hcatalog, hlegible, fun wanted => ?_⟩
          constructor
          · intro h
            cases h
          · rintro (_ | ⟨hids, -⟩)
            cases (hnumbers _).mpr hids
      | some ids =>
          obtain ⟨rest, s₂, hrest, hcatalog', hlegible', hnumbers'⟩ := ih hlegible
          have hcontents : s₁.contents t.entities.table = s.contents t.entities.table := by
            simp only [contents, hcatalog]
          rw [hcontents] at hnumbers'
          refine ⟨rest.map (ids :: ·), s₂, ?_, hcatalog'.trans hcatalog, hlegible',
            fun wanted => ?_⟩
          · simp only [Program.run_bind_of_ok hrest]
            rfl
          · rw [Option.map_eq_some_iff]
            constructor
            · rintro ⟨rest', hrest', rfl⟩
              exact .cons ((hnumbers ids).mp rfl) ((hnumbers' rest').mp hrest')
            · rintro (_ | ⟨hids, hrest'⟩)
              cases (hnumbers _).mpr hids
              exact ⟨_, (hnumbers' _).mpr hrest', rfl⟩

theorem seriesPoints_run (ht : t.Rolled) (hT : s.Holds t.table T) (hlaid : t.Laid T)
    (h : t.entities.Legible s) (filter : Tags) (metric : String) (range : TimeRange) :
    ∃ points s', (t.seriesPoints filter metric range).run answer s = (.ok points, s') ∧
      s'.catalog = s.catalog ∧ t.entities.Legible s' ∧ ∀ key v, points.get? key = some v ↔
        ∃ id wanted time, NumberedAs (s.contents t.entities.table) ⟨.metric, metric⟩ id ∧
          List.Forall₂ (TagNumbers (s.contents t.entities.table)) filter.entries wanted ∧
          wanted ⊆ key.1 ∧ 0 ≤ time.toInt ∧ t.InRange range time ∧
          key.2 = Place.timestamp t.resolution (t.locate time) ∧
          T.cell? (t.rowOf ⟨id, key.1⟩ time) (t.columnOf time) = some (Bytes.ofInt64 v) := by
  obtain ⟨id?, s₁, hmetric, hcatalog, hlegible, hnumber⟩ :=
    EntityTable.lookup_run h ⟨.metric, metric⟩
  simp only [seriesPoints, Program.bind_eq, Program.pure_eq]
  rw [Program.run_bind_of_ok hmetric]
  cases id? with
  | none =>
      refine ⟨.empty, s₁, rfl, hcatalog, hlegible, fun key v => ?_⟩
      simp only [SortedMap.get?_empty, reduceCtorEq, false_iff]
      rintro ⟨id, -, -, hid, -⟩
      cases (hnumber id).mpr hid
  | some id =>
      have hid := (hnumber id).mp rfl
      obtain ⟨wanted?, s₂, htags, hcatalog', hlegible', hnumbers⟩ :=
        lookupTags_run hlegible filter.entries
      have hcontents : s₁.contents t.entities.table = s.contents t.entities.table := by
        simp only [contents, hcatalog]
      rw [hcontents] at hnumbers
      have hcatalog₂ := hcatalog'.trans hcatalog
      dsimp only
      rw [Program.run_bind_of_ok htags]
      cases wanted? with
      | none =>
          refine ⟨.empty, s₂, rfl, hcatalog₂, hlegible', fun key v => ?_⟩
          simp only [SortedMap.get?_empty, reduceCtorEq, false_iff]
          rintro ⟨-, wanted, -, -, hwanted, -⟩
          cases (hnumbers wanted).mpr hwanted
      | some wanted =>
          have hwanted := (hnumbers wanted).mp rfl
          cases hrows : t.rowsOf range with
          | none =>
              refine ⟨.empty, s₂, rfl, hcatalog₂, hlegible', fun key v => ?_⟩
              simp only [SortedMap.get?_empty, reduceCtorEq, false_iff]
              rintro ⟨-, -, time, -, -, -, htime, hrange, -⟩
              exact rowsOf_eq_none ht hrows htime hrange
          | some rows =>
              have hT₂ : s₂.Holds t.table T := by
                simpa only [Holds, hcatalog₂] using hT
              obtain ⟨points, hfold, hget⟩ :=
                readRows_eq ht hlaid range id wanted (t.ranges rows)
              refine ⟨points, s₂, ?_, hcatalog₂, hlegible', fun key v => ?_⟩
              · dsimp only
                rw [Program.run_bind_of_ok (scanAll_run hT₂ _), hfold]
                rfl
              · rw [hget]
                constructor
                · rintro ⟨_, -, hsub, time, htime, hkey, hrange, rfl, hcell⟩
                  exact ⟨id, wanted, time, hid, hwanted, hsub, htime, hrange, hkey, hcell⟩
                · rintro ⟨id', wanted', time, hid', hwanted', hsub, htime, hrange, hkey, hcell⟩
                  obtain rfl := hid.unique hid'
                  cases (hnumbers wanted').mpr hwanted'
                  exact ⟨_, rowsOf_eq_some ht hrows htime hrange _, hsub, time, htime, hkey,
                    hrange, rfl, hcell⟩

end FactTable

namespace SeriesPoints

def valuesAt (l : List ((List (UInt32 × UInt32) × Int64) × Int64)) (start : Int64) : List Int :=
  (l.filter fun e => e.1.2 = start).map fun e => e.2.toInt

theorem sum_get? (l : List ((List (UInt32 × UInt32) × Int64) × Int64)) (start : Int64) :
    (l.foldl (fun totals e => totals.insert e.1.2 ((totals.get? e.1.2).getD 0 + e.2))
      (.empty : SortedMap Int64 Int64)).get? start =
        if valuesAt l start = [] then none else some (Int64.ofInt (valuesAt l start).sum) := by
  induction l using List.reverseRecOn with
  | nil => rfl
  | append_singleton l e ih =>
      rw [List.foldl_append, List.foldl_cons, List.foldl_nil, SortedMap.get?_insert]
      by_cases hstart : start = e.1.2
      · subst hstart
        have hvalues : valuesAt (l ++ [e]) e.1.2 = valuesAt l e.1.2 ++ [e.2.toInt] := by
          simp [valuesAt]
        have hne : valuesAt l e.1.2 ++ [e.2.toInt] ≠ [] := by simp
        rw [if_pos rfl, hvalues, ih, if_neg hne, List.sum_append, Int64.ofInt_add]
        split
        · next hempty => simp [hempty]
        · simp
      · have hvalues : valuesAt (l ++ [e]) start = valuesAt l start := by
          simp [valuesAt, Ne.symm hstart]
        rw [if_neg hstart, hvalues, ih]

theorem ascending_sum (points : SeriesPoints) :
    points.sum.Pairwise fun p q => p.timestamp.toInt < q.timestamp.toInt := by
  simp only [sum, List.pairwise_map]
  exact (SortedMap.ascending _).imp fun h => of_decide_eq_true h

theorem mem_sum {points : SeriesPoints} {p : Point} :
    p ∈ points.sum ↔ valuesAt points.entries p.timestamp ≠ [] ∧
      p.value = Int64.ofInt (valuesAt points.entries p.timestamp).sum := by
  have hmem : p ∈ points.sum ↔ (points.entries.foldl
      (fun totals e => totals.insert e.1.2 ((totals.get? e.1.2).getD 0 + e.2))
      (.empty : SortedMap Int64 Int64)).get? p.timestamp = some p.value := by
    rw [← SortedMap.mem_entries]
    simp only [sum, List.mem_map]
    constructor
    · rintro ⟨e, he, rfl⟩
      exact he
    · intro he
      exact ⟨_, he, rfl⟩
  rw [hmem, sum_get?]
  split
  · next hempty => simp [hempty]
  · next hvalues =>
    rw [Option.some.injEq]
    exact ⟨fun h => ⟨hvalues, h.symm⟩, fun h => h.2.symm⟩

end SeriesPoints

end Rollup
