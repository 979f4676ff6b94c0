import Rollup.Proofs.Fact.Siblings

namespace Rollup

open Storage Entity EntityTable

namespace FactTable

variable {t legacy current : FactTable} {changes : List Change} {s : Storage} {u : Unsteady}

theorem Advances.of_run {α : Type} {p : Work α}
    (hnumbers : ∀ (e : Entity) id, NumberedAs (u.storage.contents t.entities.table) e id →
      NumberedAs ((p.run Unsteady.answer u).2.storage.contents t.entities.table) e id)
    (hothers : ∀ id, id ≠ t.table → id ≠ t.entities.table →
      (p.run Unsteady.answer u).2.storage.contents id = u.storage.contents id) :
    t.Advances u.storage (p.run Unsteady.answer u).2.storage := by
  refine ⟨hnumbers, fun id U hid hid' hU => ?_⟩
  obtain ⟨U', hU'⟩ := Unsteady.exists_holds_run p ⟨U, hU⟩
  obtain rfl : U' = U := by
    rw [← hU'.contents_eq, hothers id hid hid', hU.contents_eq]
  exact hU'

theorem advances_write (t : FactTable) (m : Metric) (u : Unsteady) :
    t.Advances u.storage ((t.write m).run Unsteady.answer u).2.storage := by
  refine .of_run (fun e id hid => t.write_numberedAs m hid) fun id hid hid' => ?_
  rcases t.write_run_cases m u with ⟨e, v, hrun, hsame⟩ | ⟨k, v, hrun, hsame, -⟩ <;>
    rw [hrun, hsame.eq_of_ne hid']
  rw [enteredInto, Function.update_of_ne hid]

theorem advances_writeAll (t : FactTable) (ms : List Metric) (u : Unsteady) :
    t.Advances u.storage ((t.writeAll ms).run Unsteady.answer u).2.storage := by
  induction ms generalizing u with
  | nil => exact .refl t _
  | cons m ms ih =>
      have hfirst := t.advances_write m u
      rw [writeAll, Program.bind_eq, Program.run_bind]
      split
      · next _ v hrun =>
        rw [hrun] at hfirst
        exact hfirst.trans (ih v)
      · next e v hrun => rwa [hrun] at hfirst

/-- Whatever fails, a deletion of the view takes from each generation nothing but buckets that
have ended. -/
theorem bridged_fades (hg : Generations legacy current)
    (hlegacy : legacy.Laid (u.storage.contents legacy.table))
    (hcurrent : current.Laid (u.storage.contents current.table)) (cutoff : Int64) :
    let v := (((MetricTable.bridged legacy current).deleteBefore cutoff).run
      Unsteady.answer u).2
    legacy.Fades cutoff (u.storage.contents legacy.table) (v.storage.contents legacy.table) ∧
      current.Fades cutoff (u.storage.contents current.table)
        (v.storage.contents current.table) ∧
      ∀ id, id ≠ legacy.table → id ≠ current.table →
        v.storage.contents id = u.storage.contents id := by
  obtain ⟨hfades, hothers⟩ := deleteBefore_fades hg.rolled cutoff hlegacy
  have hkept := hothers _ hg.table.symm
  simp only [MetricTable.deleteBefore, Program.bind_eq, Program.pure_eq]
  rw [Program.run_bind]
  split
  · next old v hrun =>
    rw [hrun] at hfades hothers hkept
    rw [Program.run_bind_pure]
    obtain ⟨hfades', hothers'⟩ := deleteBefore_fades hg.rolled' cutoff (hkept ▸ hcurrent)
    refine ⟨?_, hkept ▸ hfades', fun id hid hid' => (hothers' id hid').trans (hothers id hid)⟩
    rwa [hothers' _ hg.table]
  · next e v hrun =>
    rw [hrun] at hfades hothers hkept
    exact ⟨hfades, hkept ▸ .refl current cutoff _, fun id hid _ => hothers id hid⟩

/-- Two generations start out empty, with no string numbered. They are then worked on, each
alone or both through the view, whatever fails and is forgotten meanwhile. -/
inductive Migrating (legacy current : FactTable) : List Change → Storage → Prop
  | empty {s : Storage}
      (hempty : ∀ id ∈ [current.entities.table, legacy.table, current.table], s.Holds id .empty)
      (hmemory : ∀ cache e, s.memory cache e = none) : Migrating legacy current [] s
  | perform {changes : List Change} {u : Unsteady} (view : MetricTable)
      (hview : view.members ⊆ [legacy, current]) (change : Change)
      (h : Migrating legacy current changes u.storage) :
      Migrating legacy current (changes ++ [change])
        ((view.perform change).run Unsteady.answer u).2.storage
  | writeAll {changes : List Change} {u : Unsteady} (view : MetricTable)
      (hview : view.members ⊆ [legacy, current]) (ms : List Metric)
      (h : Migrating legacy current changes u.storage) :
      Migrating legacy current (changes ++ ms.map .write)
        ((view.writeAll ms).run Unsteady.answer u).2.storage
  | query {changes : List Change} {u : Unsteady} (view : MetricTable)
      (hview : view.members ⊆ [legacy, current]) (filter : Tags) (metric : String)
      (range : TimeRange) (h : Migrating legacy current changes u.storage) :
      Migrating legacy current changes
        ((view.query filter metric range).run Unsteady.answer u).2.storage

theorem Generations.siblings (hg : Generations legacy current) :
    Siblings current.entities [legacy, current] := by
  have hapart : current.entities.table ≠ legacy.table := hg.entities ▸ hg.apart
  constructor
  · simp [hg.rolled, hg.rolled']
  · simp [hg.entities]
  · simp [hapart, hg.apart']
  · simp [hg.table, hg.table.symm]

theorem Migrating.held (hg : Generations legacy current) (h : Migrating legacy current changes s) :
    Held current.entities [legacy, current] changes s := by
  induction h with
  | @empty s hempty hmemory =>
      obtain ⟨hentities, htables⟩ := List.forall_mem_cons.mp hempty
      have hholds : ∀ t ∈ [legacy, current], s.Holds t.table .empty :=
        fun t ht => htables _ (List.mem_map_of_mem ht)
      refine ⟨⟨_, hentities⟩, fun t ht => ⟨_, hholds t ht⟩,
        .fresh hentities.contents_eq hmemory, fun t ht row column cell hcell => ?_⟩
      rw [(hholds t ht).contents_eq] at hcell
      cases hcell
  | perform view hview change h ih => exact ih.perform hg.siblings hview change
  | writeAll view hview ms h ih =>
      exact ih.writeAll hg.siblings (hview view.current_mem_members) ms
  | query view hview filter metric range h ih =>
      exact ih.query hg.siblings hview filter metric range

/-- Of two generations in the middle of a migration the view writes only to the current one, and
a deletion takes from each nothing but buckets that have ended. As long as the counters of the
numbers cannot have come round, a query yields the buckets in which series that it matches have
values, in their order, each with the sum of the current values and, where there are none, of the
legacy ones. -/
theorem bridged_faithful (hg : Generations legacy current)
    (h : Migrating legacy current changes s) :
    let view := MetricTable.bridged legacy current
    (∀ u : Unsteady, u.storage = s →
      (∀ m, current.Advances s ((view.write m).run Unsteady.answer u).2.storage) ∧
      (∀ ms, current.Advances s ((view.writeAll ms).run Unsteady.answer u).2.storage) ∧
      ∀ cutoff, let s' := ((view.deleteBefore cutoff).run Unsteady.answer u).2.storage
        legacy.Fades cutoff (s.contents legacy.table) (s'.contents legacy.table) ∧
        current.Fades cutoff (s.contents current.table) (s'.contents current.table) ∧
        ∀ id, id ≠ legacy.table → id ≠ current.table → s'.contents id = s.contents id) ∧
    ((changes.flatMap Change.strings).length < 2 ^ 63 → ∃ old new : Ledger,
      (∀ series start v, old series start = some v ↔ legacy.Stores s series start v) ∧
      (∀ series start v, new series start = some v ↔ current.Stores s series start v) ∧
      (∀ series start v, new.atop old series start = some v → series ∈ written changes) ∧
      ∀ filter metric range, ∃ points s',
        (view.query filter metric range).run answer s = (.ok points, s') ∧
        s'.catalog = s.catalog ∧
        points.Pairwise (fun p q => p.timestamp.toInt < q.timestamp.toInt) ∧
        ∀ p, p ∈ points ↔ TakesIn current.resolution range p.timestamp ∧
          let live := (new.atop old).live (written changes) filter metric p.timestamp.toInt
          live ≠ [] ∧ p.value = Int64.ofInt (live.map Int64.toInt).sum) := by
  intro view
  have hheld := h.held hg
  have hlegacy : legacy ∈ [legacy, current] := List.mem_cons_self
  have hcurrent : current ∈ [legacy, current] := List.mem_cons_of_mem _ List.mem_cons_self
  constructor
  · rintro u rfl
    exact ⟨fun m => current.advances_write m u, fun ms => current.advances_writeAll ms u,
      fun cutoff => bridged_fades hg (hheld.owned _ hlegacy).laid
        (hheld.owned _ hcurrent).laid cutoff⟩
  · intro hbound
    obtain ⟨old, hold⟩ := exists_ledger hg.rolled s
    obtain ⟨new, hnew⟩ := exists_ledger hg.rolled' s
    obtain ⟨T, hlegacy'⟩ := hheld.mirrors hg.siblings hlegacy hbound hold
    obtain ⟨U, hcurrent'⟩ := hheld.mirrors hg.siblings hcurrent hbound hnew
    have hall : ∀ series start v, new.atop old series start = some v →
        series ∈ written changes := by
      intro series start v hv
      rcases Option.or_eq_some_iff.mp hv with hv | ⟨-, hv⟩
      · exact hheld.mem_written hg.siblings hcurrent hbound ((hnew _ _ _).mp hv)
      · exact hheld.mem_written hg.siblings hlegacy hbound ((hold _ _ _).mp hv)
    refine ⟨old, new, hold, hnew, hall, fun filter metric range => ?_⟩
    -- the ledgers lie one over the other before any values are summed
    obtain ⟨points, s', hrun, hcatalog, hshows⟩ :=
      hg.query_shows hlegacy' hcurrent' filter metric range
    exact ⟨points.sum, s', hrun, hcatalog, points.ascending_sum,
      hshows.mem_sum_iff (List.nodup_dedup _) hall⟩

/-- Two series have a value in the legacy table, and one of them is written anew. -/
theorem sample_bridged_faithful :
    let view := MetricTable.bridged oldTable newTable
    let written (view : MetricTable) (m : Metric) (u : Unsteady) : Unsteady :=
      ((view.perform (.write m)).run Unsteady.answer u).2
    let u₁ := written (.direct oldTable) ⟨.counter, "m", 50, 1, .singleton "h" "x"⟩
      ⟨bridgeStorage, [], []⟩
    let u₂ := written (.direct oldTable) ⟨.counter, "m", 50, 2, .singleton "h" "y"⟩ u₁
    let u₃ := written view ⟨.gauge, "m", 59, 5, .singleton "h" "x"⟩ u₂
    ∃ s', (view.query .empty "m" ⟨0, 600⟩).run answer u₃.storage = (.ok [⟨0, 7⟩], s') ∧
      s'.catalog = u₃.storage.catalog := by
  intro view written u₁ u₂ u₃
  have hpoints : ((view.query .empty "m" ⟨0, 600⟩).run answer u₃.storage).1.toOption =
      some [⟨0, 7⟩] := by decide +kernel
  have hg : Generations oldTable newTable :=
    ⟨rolled_of_eq (show _ = Place.roll _ 10 from rfl),
      rolled_of_eq (show _ = Place.roll _ 10 from rfl), rfl, rfl, by decide, by decide, by decide⟩
  have hdirect : (MetricTable.direct oldTable).members ⊆ [oldTable, newTable] :=
    List.cons_subset_cons _ (List.nil_subset _)
  have h₀ : Migrating oldTable newTable [] (Unsteady.mk bridgeStorage [] []).storage :=
    .empty (fun id hid => holds_of_blank (by revert id; decide +kernel)) fun _ _ => rfl
  have h₁ : Migrating oldTable newTable _ u₁.storage := h₀.perform _ hdirect _
  have h₂ : Migrating oldTable newTable _ u₂.storage := h₁.perform _ hdirect _
  have h₃ : Migrating oldTable newTable _ u₃.storage := h₂.perform view (List.Subset.refl _) _
  obtain ⟨-, hqueries⟩ := bridged_faithful hg h₃
  obtain ⟨old, new, -, -, -, hquery⟩ := hqueries (by decide)
  obtain ⟨points, s', hrun, hcatalog, -⟩ := hquery .empty "m" ⟨0, 600⟩
  rw [hrun] at hpoints
  obtain rfl : points = [⟨0, 7⟩] := Option.some.inj hpoints
  exact ⟨s', hrun, hcatalog⟩

end FactTable

end Rollup
