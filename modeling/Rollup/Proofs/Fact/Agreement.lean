import Mathlib.Data.Set.Finite.Basic
import Rollup.Proofs.Fact.Ledger

namespace Rollup

open Storage Entity

namespace SeriesPoints

theorem sum_congr {points points' : SeriesPoints} (h : ∀ start,
      (valuesAt points.entries start).Perm (valuesAt points'.entries start)) :
    points.sum = points'.sum := by
  have htotals : (points.entries.foldl
      (fun totals e => totals.insert e.1.2 ((totals.get? e.1.2).getD 0 + e.2))
      (.empty : SortedMap Int64 Int64)) = points'.entries.foldl
      (fun totals e => totals.insert e.1.2 ((totals.get? e.1.2).getD 0 + e.2)) .empty := by
    refine SortedMap.ext_get? fun start => ?_
    have hnil : valuesAt points.entries start = [] ↔ valuesAt points'.entries start = [] := by
      rw [← List.length_eq_zero_iff, (h start).length_eq, List.length_eq_zero_iff]
    simp only [sum_get?, hnil, (h start).sum_eq]
  simp only [sum, htotals]

namespace Shows

variable {points points' : SeriesPoints} {L L' : Ledger} {E E' : Table}
  {inRange : Int64 → Prop} {filter : Tags} {metric : String} {start : Int64}

theorem exists_all (h : points.Shows L E inRange filter metric) (hrange : inRange start) :
    ∃ all : List Series, all.Nodup ∧ ∀ series v,
      series.name = metric ∧ series.carries filter → L series start.toInt = some v →
        series ∈ all := by
  obtain ⟨tagsOf, htagsOf⟩ := SeriesNumbered.exists_tagsOf E
  let found : Set Series := {series | (series.name = metric ∧ series.carries filter) ∧
    ∃ v, L series start.toInt = some v}
  have hmaps : Set.MapsTo (fun series => (tagsOf series, start)) found
      {key | key ∈ points.entries.map Prod.fst} := by
    rintro series ⟨⟨hname, hcarries⟩, v, hv⟩
    obtain ⟨k, hk⟩ := h.owned series _ v hv
    refine List.mem_map.mpr ⟨((tagsOf series, start), v), SortedMap.mem_entries.mpr ?_, rfl⟩
    exact (h.get?_iff _ v).mpr
      ⟨hrange, series, k, hk, (htagsOf series k hk).symm, hname, hcarries, hv⟩
  have hinj : Set.InjOn (fun series => (tagsOf series, start)) found := by
    rintro a ⟨⟨hname, -⟩, v, hv⟩ b ⟨⟨hname', -⟩, v', hv'⟩ heq
    obtain ⟨k, hk⟩ := h.owned a _ v hv
    obtain ⟨k', hk'⟩ := h.owned b _ v' hv'
    refine h.eq_of_tags hk hk' (hname.trans hname'.symm) ?_
    rw [← htagsOf a k hk, ← htagsOf b k' hk']
    exact congrArg Prod.fst heq
  have hfinite : found.Finite := Set.Finite.of_injOn hmaps hinj (List.finite_toSet _)
  refine ⟨hfinite.toFinset.toList, Finset.nodup_toList _, fun series v hmatch hv => ?_⟩
  rw [Finset.mem_toList, Set.Finite.mem_toFinset]
  exact ⟨hmatch, v, hv⟩

theorem valuesAt_eq_nil (h : points.Shows L E inRange filter metric) (hrange : ¬ inRange start) :
    valuesAt points.entries start = [] := by
  rw [valuesAt, List.map_eq_nil_iff, List.filter_eq_nil_iff]
  intro e he hstart
  have hrange' := ((h.get?_iff e.1 e.2).mp (SortedMap.mem_entries.mp he)).1
  rw [of_decide_eq_true hstart] at hrange'
  exact hrange hrange'

theorem mem_sum_iff (h : points.Shows L E inRange filter metric) {all : List Series}
    (hnodup : all.Nodup) (hall : ∀ series start v, L series start = some v → series ∈ all)
    (p : Point) :
    p ∈ points.sum ↔ inRange p.timestamp ∧
      let live := L.live all filter metric p.timestamp.toInt
      live ≠ [] ∧ p.value = Int64.ofInt (live.map Int64.toInt).sum := by
  rw [mem_sum]
  by_cases hrange : inRange p.timestamp
  · have hperm := h.valuesAt_perm hnodup (fun series v _ hv => hall series _ v hv) hrange
    rw [hperm.sum_eq, and_iff_right hrange, ne_eq, ← List.length_eq_zero_iff, hperm.length_eq,
      List.length_eq_zero_iff, List.map_eq_nil_iff]
  · rw [h.valuesAt_eq_nil hrange]
    simp [hrange]

theorem sum_eq (h : points.Shows L E inRange filter metric)
    (h' : points'.Shows L E' inRange filter metric) : points.sum = points'.sum := by
  refine sum_congr fun start => ?_
  by_cases hrange : inRange start
  · obtain ⟨all, hnodup, hall⟩ := h.exists_all hrange
    exact (h.valuesAt_perm hnodup hall hrange).trans (h'.valuesAt_perm hnodup hall hrange).symm
  · rw [h.valuesAt_eq_nil hrange, h'.valuesAt_eq_nil hrange]

end Shows

end SeriesPoints

namespace FactTable

variable {t t' : FactTable} {s s' : Storage} {T T' : Table} {L : Ledger} {filter : Tags}
  {metric : String} {range : TimeRange}

abbrev TakesIn (r : Resolution) (range : TimeRange) (start : Int64) : Prop :=
  r = .total ∨ range.contains start = true

namespace Mirrors

theorem of_catalog_eq (h : t.Mirrors s T L) (hlegible : t.entities.Legible s')
    (hcatalog : s'.catalog = s.catalog) : t.Mirrors s' T L := by
  have hcontents : s'.contents t.entities.table = s.contents t.entities.table := by
    simp only [contents, hcatalog]
  refine ⟨hlegible, by simpa only [Holds, hcatalog] using h.holds, ?_, ?_, ?_⟩
  · rw [hcontents]
    exact h.owned
  · rw [hcontents]
    exact h.cells
  · rw [hcontents]
    exact h.entered

theorem seriesPoints_shows (ht : t.Rolled) (h : t.Mirrors s T L) (filter : Tags)
    (metric : String) (range : TimeRange) :
    ∃ points s', (t.seriesPoints filter metric range).run answer s = (.ok points, s') ∧
      s'.catalog = s.catalog ∧ t.entities.Legible s' ∧
      points.Shows L (s.contents t.entities.table) (TakesIn t.resolution range) filter metric := by
  obtain ⟨points, s', hrun, hcatalog, hget⟩ := h.seriesPoints_iff ht filter metric range
  obtain ⟨_, _, hrun', -, hlegible, -⟩ :=
    seriesPoints_run ht h.holds h.laid h.legible filter metric range
  cases hrun.symm.trans hrun'
  exact ⟨points, s', hrun, hcatalog, hlegible, h.shows hget⟩

end Mirrors

namespace Reflects

theorem seriesPoints_shows (ht : t.Rolled) (h : t.Reflects s T L) (filter : Tags)
    (metric : String) (range : TimeRange) :
    ∃ points s', (t.seriesPoints filter metric range).run answer s = (.ok points, s') ∧
      s'.catalog = s.catalog ∧ t.entities.Ready s' ∧
      points.Shows L (s.contents t.entities.table) (TakesIn t.resolution range) filter metric := by
  obtain ⟨points, s', hrun, hcatalog, hlegible, hshows⟩ :=
    h.mirrors.seriesPoints_shows ht filter metric range
  exact ⟨points, s', hrun, hcatalog, hlegible.ready h.ready hcatalog, hshows⟩

theorem query_shows (ht : t.Rolled) (h : t.Reflects s T L) (filter : Tags) (metric : String)
    (range : TimeRange) :
    ∃ (points : SeriesPoints) (s' : Storage),
      (t.query filter metric range).run answer s = (.ok points.sum, s') ∧
      points.Shows L (s.contents t.entities.table) (TakesIn t.resolution range) filter metric := by
  obtain ⟨points, s', hrun, -, -, hshows⟩ := h.seriesPoints_shows ht filter metric range
  refine ⟨points, s', ?_, hshows⟩
  simp only [query, Program.bind_eq, Program.pure_eq]
  rw [Program.run_bind_of_ok hrun]
  rfl

/-- Tables with one ledger answer every query alike. -/
theorem query_agree (ht : t.Rolled) (ht' : t'.Rolled) (hresolution : t'.resolution = t.resolution)
    (h : t.Reflects s T L) (h' : t'.Reflects s' T' L) (filter : Tags) (metric : String)
    (range : TimeRange) :
    ∃ points s₁ s₂, (t.query filter metric range).run answer s = (.ok points, s₁) ∧
      (t'.query filter metric range).run answer s' = (.ok points, s₂) := by
  obtain ⟨points, s₁, hrun, hshows⟩ := h.query_shows ht filter metric range
  obtain ⟨points', s₂, hrun', hshows'⟩ := h'.query_shows ht' filter metric range
  rw [hresolution] at hshows'
  exact ⟨points.sum, s₁, s₂, hrun, hshows.sum_eq hshows' ▸ hrun'⟩

end Reflects

end FactTable

end Rollup
