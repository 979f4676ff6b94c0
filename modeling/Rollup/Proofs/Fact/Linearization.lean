import Rollup.Proofs.Fact.History
import Rollup.Proofs.Fact.Totals
import Rollup.Proofs.Fact.Writers

namespace Rollup

open Storage Entity Program
open Rollup.Numbering hiding answer

theorem SeriesNumbered.strings {E : Table} {series : Series} {k : SeriesNumbers}
    (h : SeriesNumbered E series k) : ∀ e ∈ series.strings, ∃ id, NumberedAs E e id := by
  intro e he
  simp only [Series.strings, List.mem_cons, List.mem_flatMap, List.not_mem_nil, or_false] at he
  rcases he with rfl | ⟨tag, htag, rfl | rfl⟩
  · exact ⟨_, h.1⟩
  · obtain ⟨ids, -, hids⟩ := exists_mem_of_forall₂ h.2 htag
    exact ⟨_, hids.1⟩
  · obtain ⟨ids, -, hids⟩ := exists_mem_of_forall₂ h.2 htag
    exact ⟨_, hids.2⟩

namespace FactTable

variable {t : FactTable} {s s' : Storage} {T : Table} {L : Ledger} {cache : Nat}
  {ops : List TableOp} {entries : List (Metric × SeriesNumbers)}

namespace Reflects

theorem through (h : t.Reflects s T L) (hmemory : ∀ (e : Entity) id, s.memory cache e = some id →
      NumberedAs (s.contents t.entities.table) e id) : (t.through cache).Reflects s T L :=
  ⟨⟨h.ready.table, hmemory⟩, h.holds, h.owned, h.cells, h.entered⟩

theorem after_entry (h : t.Reflects s T L) (m : Metric) (k : SeriesNumbers) :
    T.after (t.entry m k) = t.entered m k T := by
  obtain ⟨a, hperform⟩ := t.perform_entry (T := T) m k fun cell hcell =>
    h.laid.words _ _ cell (length_columnOf t _) hcell
  rw [Table.after, hperform]

theorem replay (ht : t.Rolled) (hne : t.entities.table ≠ t.table) (h : t.Reflects s T L)
    (hops : List.Forall₂ (fun op e => op = t.entry e.1 e.2) ops entries)
    (hentries : ∀ e ∈ entries, e.1.defect? = none ∧
      SeriesNumbered (s.contents t.entities.table) e.1.series e.2)
    (hready : t.entities.Ready s') (hholds : s'.Holds t.table (T.replay ops))
    (hcontents : s'.contents t.entities.table = s.contents t.entities.table) :
    t.Reflects s' (T.replay ops)
      ((entries.map fun e => Change.write e.1).foldl (Ledger.apply t.resolution) L) := by
  induction hops generalizing s T L with
  | nil => exact h.mono ht hready hholds fun e id hid => hcontents ▸ hid
  | @cons op e ops entries hop _ ih =>
      subst hop
      obtain ⟨⟨hvalid, hk⟩, hentries⟩ := List.forall_mem_cons.mp hentries
      have hentered := h.enter ht hne hk (Metric.timestamp_nonneg hvalid)
      have hsame : (s.update t.table (t.entered e.1 e.2 T)).contents t.entities.table =
          s.contents t.entities.table := by
        rw [contents_update, if_neg hne]
      rw [Table.replay, List.foldl_cons, h.after_entry] at hholds ⊢
      exact ih hentered (hsame ▸ hentries) hholds (hsame ▸ hcontents)

end Reflects

def writers (calls : List (Nat × Metric)) : List (Nat × Change) :=
  calls.map fun c => (c.1, .write c.2)

/-- The values of some calls, in an order of the calls. -/
def inOrder (calls : List (Nat × Metric)) (order : List Nat) : List Metric :=
  order.filterMap fun i => calls[i]?.map Prod.snd

variable {calls : List (Nat × Metric)} {done : List (Nat × SeriesNumbers)} {E : Table}

theorem writers_getElem? {i cache : Nat} {change : Change}
    (h : (writers calls)[i]? = some (cache, change)) :
    ∃ m, change = .write m ∧ calls[i]? = some (cache, m) := by
  simp only [writers, List.getElem?_map, Option.map_eq_some_iff, Prod.mk.injEq] at h
  obtain ⟨⟨cache, m⟩, hcall, rfl, rfl⟩ := h
  exact ⟨m, rfl, hcall⟩

theorem inOrder_range (calls : List (Nat × Metric)) :
    inOrder calls (List.range calls.length) = calls.map Prod.snd := by
  induction calls using List.reverseRecOn with
  | nil => rfl
  | append_singleton calls c ih =>
      have hbefore : inOrder (calls ++ [c]) (List.range calls.length) = calls.map Prod.snd := by
        rw [← ih]
        refine List.filterMap_congr fun i hi => ?_
        rw [List.getElem?_append_left (List.mem_range.mp hi)]
      rw [inOrder] at hbefore ⊢
      rw [List.length_append, List.length_singleton, List.range_succ, List.filterMap_append,
        hbefore]
      simp

/-- The operation enters the value of a call under the numbers of its series. -/
def Enters (t : FactTable) (calls : List (Nat × Metric)) (E : Table) (op : TableOp)
    (d : Nat × SeriesNumbers) : Prop :=
  ∃ c, calls[d.1]? = some c ∧ c.2.defect? = none ∧ op = t.entry c.2 d.2 ∧
    SeriesNumbered E c.2.series d.2

theorem exists_entries (h : List.Forall₂ (t.Enters calls E) ops done) :
    ∃ entries : List (Metric × SeriesNumbers),
      List.Forall₂ (fun op e => op = t.entry e.1 e.2) ops entries ∧
      (∀ e ∈ entries, e.1.defect? = none ∧ SeriesNumbered E e.1.series e.2) ∧
      entries.map Prod.fst = inOrder calls (done.map Prod.fst) := by
  induction h with
  | nil => exact ⟨[], .nil, nofun, rfl⟩
  | @cons op d ops done hop _ ih =>
      obtain ⟨entries, hentries, hall, hvalues⟩ := ih
      obtain ⟨c, hcall, hvalid, rfl, hk⟩ := hop
      refine ⟨(c.2, d.2) :: entries, .cons rfl hentries, ?_, ?_⟩
      · exact List.forall_mem_cons.mpr ⟨⟨hvalid, hk⟩, hall⟩
      · simp [inOrder, hcall, hvalues]

namespace Joint

variable {w : Logged} {g : Account × List (Nat × SeriesNumbers)} {count : EntityKind → Nat}

theorem enters (h : t.Joint (writers calls) s count w g) :
    List.Forall₂ (t.Enters calls (w.storage.contents t.entities.table)) (w.writes t.table) g.2 := by
  have hwrites := h.traced.writes
  have hnumbered := h.numbered
  generalize w.writes t.table = ops at hwrites
  generalize g.2 = done at hwrites hnumbered
  induction hwrites with
  | nil => exact .nil
  | @cons op d ops done hop _ ih =>
      obtain ⟨hnumber, hnumbered⟩ := List.forall_mem_cons.mp hnumbered
      obtain ⟨cache, m, hduty, hvalid, hop⟩ := hop
      obtain ⟨_, hm, hcall⟩ := writers_getElem? hduty
      cases hm
      exact .cons ⟨_, hcall, hvalid, hop, hnumber cache m hduty⟩ (ih hnumbered)

theorem ready (h : t.Joint (writers calls) s count w g)
    (hE : ∃ E, w.storage.Holds t.entities.table E) (cache : Nat) :
    (t.through cache).entities.Ready w.storage := by
  obtain ⟨E, hE⟩ := hE
  have hnumbered : Numbered (w.storage.contents t.entities.table) g.1.count := h.tidy.numbered
  exact ⟨⟨_, g.1.count, hE.contents_eq ▸ hE, hnumbered, h.bounded⟩, h.tidy.remembered cache⟩

/-- The writers leave behind what their values, in the order of the log, make of the
ledger. -/
theorem reflects (ht : t.Rolled) (hne : t.entities.table ≠ t.table)
    (hstart : (t.through cache).Reflects s T L) (h : t.Joint (writers calls) s count w g)
    (hT : ∃ T, w.storage.Holds t.table T)
    (hE : ∃ E, w.storage.Holds t.entities.table E) :
    (t.through cache).Reflects w.storage (w.storage.contents t.table)
      (((inOrder calls (g.2.map Prod.fst)).map Change.write).foldl
        (Ledger.apply t.resolution) L) := by
  obtain ⟨entries, hops, hentries, hvalues⟩ := exists_entries h.enters
  have hcells : w.storage.contents t.table = T.replay (w.writes t.table) := by
    rw [← show s.contents t.table = T from hstart.holds.contents_eq]
    exact Table.ext_cell? fun row column => h.traced.cells row column trivial
  have hready := h.ready hE cache
  obtain ⟨U, hU⟩ := hT
  have hholds : w.storage.Holds t.table (T.replay (w.writes t.table)) :=
    hcells ▸ hU.contents_eq.symm ▸ hU
  -- the numbering of the end, under the table of the start
  let between := w.storage.update t.table T
  have hbetween : between.contents t.entities.table = w.storage.contents t.entities.table := by
    simp only [between, contents_update, if_neg hne]
  have hgrown : (t.through cache).Reflects between T L := by
    refine hstart.mono ⟨ht.pos, ht.le⟩ (hready.update hne T) (hU.update_self T) fun e id hid => ?_
    rw [show between.contents (t.through cache).entities.table = _ from hbetween]
    exact (h.onlookers _ (Nat.le_refl _)).numbers e id hid
  rw [hcells, ← hvalues, List.map_map]
  exact hgrown.replay (t := t.through cache) ⟨ht.pos, ht.le⟩ hne hops (hbetween ▸ hentries)
    hready hholds hbetween.symm

theorem room (h : t.Joint (writers calls) s count w g) (hready : (t.through cache).entities.Ready s)
    (hn : Numbered (s.contents t.entities.table) count) (hle : ∀ kind, count kind ≤ 4294967295) :
    (t.through cache).entities.Room
      ((inOrder calls (g.2.map Prod.fst)).flatMap (·.series.strings)) s := by
  refine room_of_watched (t := (t.through cache).entities) (x := (w.metered (total count), g.1))
    h.tidy hready hn h.onlookers ?_ hle
  obtain ⟨entries, -, hentries, hvalues⟩ := exists_entries h.enters
  intro e he
  rw [← hvalues, List.mem_flatMap] at he
  obtain ⟨m, hm, hstring⟩ := he
  obtain ⟨entry, hentry, rfl⟩ := List.mem_map.mp hm
  exact (hentries entry hentry).2.strings e hstring

theorem order_perm (h : t.Joint (writers calls) s count w g)
    (hdone : ∀ i < calls.length, i ∈ g.2.map Prod.fst) :
    (g.2.map Prod.fst).Perm (List.range calls.length) := by
  refine (List.perm_ext_iff_of_nodup h.traced.once List.nodup_range).mpr fun i => ?_
  rw [List.mem_range]
  refine ⟨fun hi => ?_, hdone i⟩
  obtain ⟨d, hd, rfl⟩ := List.mem_map.mp hi
  obtain ⟨op, -, c, hcall, -⟩ := exists_mem_of_forall₂ h.enters.flip hd
  exact (List.getElem?_eq_some_iff.mp hcall).1

theorem sequential (ht : t.Rolled) (hne : t.entities.table ≠ t.table)
    (hstart : (t.through cache).Reflects s T L) (h : t.Joint (writers calls) s count w g)
    (hn : Numbered (s.contents t.entities.table) count)
    (hle : ∀ kind, count kind ≤ 4294967295) :
    ∃ s' T', ((t.through cache).writeAll (inOrder calls (g.2.map Prod.fst))).run answer s =
        (.ok (), s') ∧ (t.through cache).Reflects s' T'
          (((inOrder calls (g.2.map Prod.fst)).map Change.write).foldl
            (Ledger.apply t.resolution) L) := by
  obtain ⟨entries, -, hentries, hvalues⟩ := exists_entries h.enters
  let changes := (inOrder calls (g.2.map Prod.fst)).map Change.write
  have hvalid : ∀ change ∈ changes, change.Valid := by
    simp only [changes, ← hvalues, List.map_map, List.mem_map, Function.comp_apply]
    rintro _ ⟨entry, hentry, rfl⟩
    exact (hentries entry hentry).1
  have hstrings : ∀ change ∈ changes, change.strings ⊆
      (inOrder calls (g.2.map Prod.fst)).flatMap (·.series.strings) := by
    intro change hchange e he
    obtain ⟨m, hm, rfl⟩ := List.mem_map.mp hchange
    exact List.mem_flatMap.mpr ⟨m, hm, he⟩
  have hroom := h.room hstart.ready hn hle
  obtain ⟨s', T', hrun, h', -⟩ := Reflects.performAll_run (t := t.through cache)
    ⟨ht.pos, ht.le⟩ hne hstart hroom hvalid hstrings
  rw [writeAll_eq_performAll]
  exact ⟨s', T', hrun, h'⟩

end Joint

theorem deltas_perm {ms ms' : List Metric} (h : ms.Perm ms') (r : Resolution) (filter : Tags)
    (metric : String) (start : Int) :
    (deltas ms r filter metric start).Perm (deltas ms' r filter metric start) :=
  (h.filter _).map _

theorem Reflects.query_after_counters (ht : t.Rolled) (h : t.Reflects s T L)
    {T' : Table} {ms ms' : List Metric} (h' : t.Reflects s' T'
      ((ms.map Change.write).foldl (Ledger.apply t.resolution) L)) (hperm : ms.Perm ms')
    (hcounters : ∀ m ∈ ms', m.kind = .counter) (filter : Tags) (metric : String)
    (range : TimeRange) :
    ∃ before after s₁ s₂, (t.query filter metric range).run answer s = (.ok before, s₁) ∧
      (t.query filter metric range).run answer s' = (.ok after, s₂) ∧
      after.Pairwise (fun p q => p.timestamp.toInt < q.timestamp.toInt) ∧
      ∀ p, p ∈ after ↔ TakesIn t.resolution range p.timestamp ∧
        let added := deltas ms' t.resolution filter metric p.timestamp.toInt
        ((Point.valueAt before p.timestamp).isSome ∨ added ≠ []) ∧
        p.value = (Point.valueAt before p.timestamp).getD 0 +
          Int64.ofInt (added.map Int64.toInt).sum := by
  obtain ⟨points, s₁, hrun, hshows⟩ := h.query_shows ht filter metric range
  obtain ⟨points', s₂, hrun', hshows'⟩ := h'.query_shows ht filter metric range
  refine ⟨points.sum, points'.sum, s₁, s₂, hrun, hrun', points'.ascending_sum, fun p => ?_⟩
  have hdeltas := deltas_perm hperm t.resolution filter metric p.timestamp.toInt
  rw [hshows.mem_sum_after hshows' (fun m hm => hcounters m (hperm.mem_iff.mp hm)),
    (hdeltas.map Int64.toInt).sum_eq, ne_eq, ← List.length_eq_zero_iff, hdeltas.length_eq,
    List.length_eq_zero_iff]

/-- Writes that come back have been made in the order in which their values entered the
table: the same writes, one after the other in this order, succeed and leave tables on which
every query has the same answer. Counters add up in any order. -/
theorem writes_linearizable (t : FactTable) (asked : Nat)
    (hroll : t.roll = Place.roll t.resolution asked) (hne : t.entities.table ≠ t.table)
    (s : Storage) (T : Table) (L : Ledger) (h : t.Reflects s T L)
    (hmemory : ∀ cache (e : Entity) id, s.memory cache e = some id →
      NumberedAs (s.contents t.entities.table) e id)
    (calls : List (Nat × Metric)) (turns : List (Nat × Treatment))
    (hreturned : ∀ (i : Nat) (c : Nat × Metric), calls[i]? = some c →
      (t.works.follow (t.works.gather ⟨s, []⟩ (writers calls)) turns).outcome i =
        some ((c.1, .write c.2), .ok ())) :
    let w := (t.works.follow (t.works.gather ⟨s, []⟩ (writers calls)) turns).state
    ∃ done : List (Nat × SeriesNumbers),
      (done.map Prod.fst).Perm (List.range calls.length) ∧
      List.Forall₂ (t.Enters calls (w.storage.contents t.entities.table)) (w.writes t.table)
        done ∧
      (∀ cache, ∃ s', ((t.through cache).writeAll (inOrder calls (done.map Prod.fst))).run
          answer s = (.ok (), s') ∧
        ∀ reader filter metric range, ∃ points s₁ s₂,
          ((t.through reader).query filter metric range).run answer w.storage =
            (.ok points, s₁) ∧
          ((t.through cache).query filter metric range).run answer s' = (.ok points, s₂)) ∧
      ((∀ c ∈ calls, c.2.kind = .counter) → ∀ reader filter metric range,
        ∃ before after s₁ s₂,
          ((t.through reader).query filter metric range).run answer s = (.ok before, s₁) ∧
          ((t.through reader).query filter metric range).run answer w.storage =
            (.ok after, s₂) ∧
          after.Pairwise (fun p q => p.timestamp.toInt < q.timestamp.toInt) ∧
          ∀ p, p ∈ after ↔ TakesIn t.resolution range p.timestamp ∧
            let added := deltas (calls.map Prod.snd) t.resolution filter metric p.timestamp.toInt
            ((Point.valueAt before p.timestamp).isSome ∨ added ≠ []) ∧
            p.value = (Point.valueAt before p.timestamp).getD 0 +
              Int64.ofInt (added.map Int64.toInt).sum) := by
  intro w
  have ht := rolled_of_eq hroll
  obtain ⟨E, count, hE, hn, hle⟩ := h.ready.table
  obtain rfl := hE.contents_eq
  have hduties : ∀ duty ∈ writers calls, ∃ m, duty.2 = .write m := by
    intro duty hduty
    obtain ⟨c, -, rfl⟩ := List.mem_map.mp hduty
    exact ⟨c.2, rfl⟩
  have hnone : ∀ i duty e, (t.works.follow (t.works.gather ⟨s, []⟩ (writers calls)) turns).outcome i
      ≠ some (duty, .error e) := by
    intro i duty e hfailed
    have hi := Pool.Works.lt_of_outcome hfailed
    rw [writers, List.length_map] at hi
    cases hfailed.symm.trans (hreturned i _ (List.getElem?_eq_getElem hi))
  obtain ⟨g, hjoint, hdone⟩ := joint_of_follow hne hn hle hmemory hduties hnone
  have hholds : ∀ id, (∃ T, s.Holds id T) → ∃ T, w.storage.Holds id T := fun id hstart =>
    Pool.Works.inv_follow (fun x : Logged => ∃ T, x.storage.Holds id T)
      (fun q _ hx => exists_holds_answer q hx) hstart
  have hstart := fun cache => h.through (hmemory cache)
  have hend := fun cache => hjoint.reflects ht hne (hstart cache) (hholds _ ⟨_, h.holds⟩)
    (hholds _ ⟨_, hE⟩)
  have hrolled : ∀ cache, (t.through cache).Rolled := fun _ => ⟨ht.pos, ht.le⟩
  have hperm := hjoint.order_perm fun i hi =>
    hdone i _ (hreturned i _ (List.getElem?_eq_getElem hi))
  refine ⟨g.2, hperm, hjoint.enters, fun cache => ?_,
    fun hcounters reader filter metric range => ?_⟩
  · obtain ⟨s', T', hrun, hafter⟩ := hjoint.sequential ht hne (hstart cache) hn hle
    exact ⟨s', hrun, fun reader => Reflects.query_agree (hrolled reader) (hrolled cache) rfl
      (hend reader) hafter⟩
  · refine Reflects.query_after_counters (hrolled reader) (hstart reader) (hend reader) ?_ ?_
      filter metric range
    · rw [← inOrder_range]
      exact hperm.filterMap _
    · intro m hm
      obtain ⟨c, hc, rfl⟩ := List.mem_map.mp hm
      exact hcounters c hc

def raceCalls : List (Nat × Metric) :=
  [(0, ⟨.counter, "m", 30, 1, .empty⟩), (1, ⟨.counter, "m", 50, 2, .empty⟩)]

/-- Two writers take turns, and the second one loses its claim on a number for the name. -/
def alternately : List (Nat × Treatment) :=
  (List.replicate 10 [(0, .served), (1, .served)]).flatten

theorem race_linearizable :
    let w := (sampleTable.works.follow (sampleTable.works.gather ⟨sampleStorage, []⟩
      (writers raceCalls)) alternately).state
    (w.log.countP fun e => raises (.table e.1 e.2)) = 2 ∧
      ∃ points s', (sampleTable.query .empty "m" ⟨0, 600⟩).run answer w.storage =
        (.ok points, s') ∧ ⟨0, 3⟩ ∈ points := by
  intro w
  have hstart : sampleTable.Reflects sampleStorage .empty fun _ _ => none :=
    .empty (holds_of_blank (by decide +kernel)) (holds_of_blank (by decide +kernel)) fun _ => rfl
  have hreturned : ∀ (i : Nat) (c : Nat × Metric), raceCalls[i]? = some c →
      (sampleTable.works.follow (sampleTable.works.gather ⟨sampleStorage, []⟩
        (writers raceCalls)) alternately).outcome i = some ((c.1, .write c.2), .ok ()) := by
    rintro (_ | _ | i) c hc
    · cases hc
      rfl
    · cases hc
      rfl
    · cases hc
  obtain ⟨done, -, -, -, hcounters⟩ := writes_linearizable sampleTable 10 rfl (by decide)
    sampleStorage .empty _ hstart (fun _ _ _ h => by cases h) raceCalls alternately hreturned
  obtain ⟨before, after, s₁, s₂, hbefore, hafter, -, hmem⟩ :=
    hcounters (by decide) 0 .empty "m" ⟨0, 600⟩
  have hempty : ((sampleTable.query .empty "m" ⟨0, 600⟩).run answer sampleStorage).1 = .ok [] :=
    rfl
  obtain rfl : before = [] := Except.ok.inj ((congrArg Prod.fst hbefore).symm.trans hempty)
  refine ⟨by decide +kernel, after, s₂, hafter, (hmem _).mpr ⟨.inr (by decide), ?_, ?_⟩⟩
  · exact .inr (by decide +kernel)
  · decide +kernel

end FactTable

end Rollup
