import Mathlib.Algebra.BigOperators.Group.List.Basic
import Mathlib.Data.List.Dedup
import Rollup.Proofs.Fact.Writing

/-!
A fact table as a ledger. Apart from numbers, rows and columns the table maps series and bucket
starts to values.
-/

namespace Rollup

open Storage Entity

inductive Change where
  | write (m : Metric)
  | expire (cutoff : Int64)

abbrev Ledger := Series → Int → Option Int64

namespace Ledger

def apply (r : Resolution) (L : Ledger) : Change → Ledger
  | .write m => fun series start =>
      if series = m.series ∧ start = r.bucketStart m.timestamp.toInt then
        some (m.applied (L series start))
      else L series start
  | .expire cutoff => fun series start =>
      if r.expires = true ∧ start + r.width.toInt ≤ cutoff.toInt then none else L series start

def after (r : Resolution) (changes : List Change) : Ledger :=
  changes.foldl (apply r) fun _ _ => none

end Ledger

namespace Series

def carries (series : Series) (filter : Tags) : Prop :=
  ∀ tag ∈ filter.entries, tag ∈ series.tags.entries

instance (series : Series) (filter : Tags) : Decidable (series.carries filter) :=
  inferInstanceAs (Decidable (∀ tag ∈ filter.entries, tag ∈ series.tags.entries))

end Series

/-- The series that some changes write, each once. -/
def written (changes : List Change) : List Series :=
  (changes.filterMap fun change => match change with
    | .write m => some m.series
    | .expire _ => none).dedup

theorem mem_written {r : Resolution} {changes : List Change} {series : Series} {start : Int}
    {value : Int64} (h : Ledger.after r changes series start = some value) :
    series ∈ written changes := by
  rw [written, List.mem_dedup]
  induction changes using List.reverseRecOn generalizing value with
  | nil => cases h
  | append_singleton changes change ih =>
      rw [Ledger.after, List.foldl_append] at h
      rw [List.filterMap_append, List.mem_append]
      cases change with
      | write m =>
          simp only [List.foldl_cons, List.foldl_nil, Ledger.apply] at h
          split at h
          · next heq =>
            right
            simp [heq.1]
          · exact .inl (ih h)
      | expire cutoff =>
          simp only [List.foldl_cons, List.foldl_nil, Ledger.apply] at h
          split at h
          · cases h
          · exact .inl (ih h)

def Ledger.live (L : Ledger) (series : List Series) (filter : Tags) (metric : String)
    (start : Int) : List Int64 :=
  series.filterMap fun series =>
    if series.name = metric ∧ series.carries filter then L series start else none

namespace Ledger

/-- The cell that a query finds for a series in the bucket that starts at a time. -/
def entry (L : Ledger) (tagsOf : Series → List (UInt32 × UInt32)) (filter : Tags)
    (metric : String) (start : Int64) (series : Series) :
    Option ((List (UInt32 × UInt32) × Int64) × Int64) :=
  (if series.name = metric ∧ series.carries filter then L series start.toInt else none).map
    fun v => ((tagsOf series, start), v)

variable {L : Ledger} {tagsOf : Series → List (UInt32 × UInt32)} {filter : Tags}
  {metric : String} {start : Int64} {series : Series}

theorem entry_eq_some_iff {e : (List (UInt32 × UInt32) × Int64) × Int64} :
    L.entry tagsOf filter metric start series = some e ↔
      (series.name = metric ∧ series.carries filter) ∧ L series start.toInt = some e.2 ∧
        e.1 = (tagsOf series, start) := by
  simp only [entry, Option.map_eq_some_iff]
  split
  · next hmatch =>
    constructor
    · rintro ⟨v, hv, rfl⟩
      exact ⟨hmatch, hv, rfl⟩
    · rintro ⟨-, hv, he⟩
      exact ⟨e.2, hv, Prod.ext he.symm rfl⟩
  · next hmatch => simp [hmatch]

theorem map_live (L : Ledger) (tagsOf : Series → List (UInt32 × UInt32)) (all : List Series)
    (filter : Tags) (metric : String) (start : Int64) :
    (L.live all filter metric start.toInt).map Int64.toInt =
      (all.filterMap (L.entry tagsOf filter metric start)).map fun e => e.2.toInt := by
  rw [live, List.map_filterMap, List.map_filterMap]
  congr 1
  funext series
  simp only [entry, Option.map_map]
  rfl

end Ledger

section Unique

theorem exists_mem_of_forall₂ {α β : Type} {R : α → β → Prop} {as : List α} {bs : List β}
    (h : List.Forall₂ R as bs) {a : α} (ha : a ∈ as) : ∃ b ∈ bs, R a b := by
  induction h with
  | nil => cases ha
  | @cons a' b as bs hab _ ih =>
      rcases List.mem_cons.mp ha with rfl | ha
      · exact ⟨b, List.mem_cons_self .., hab⟩
      · obtain ⟨b', hb', hab'⟩ := ih ha
        exact ⟨b', List.mem_cons_of_mem _ hb', hab'⟩

variable {E : Table} {count : EntityKind → Nat} {series series' : Series} {k k' : SeriesNumbers}

theorem TagNumbers.unique {tag : String × String} {ids ids' : UInt32 × UInt32}
    (h : TagNumbers E tag ids) (h' : TagNumbers E tag ids') : ids = ids' :=
  Prod.ext (h.1.unique h'.1) (h.2.unique h'.2)

theorem TagNumbers.injective (hE : Numbered E count)
    {tag tag' : String × String} {ids : UInt32 × UInt32} (h : TagNumbers E tag ids)
    (h' : TagNumbers E tag' ids) : tag = tag' := by
  have hname := hE.injective h.1 h'.1 rfl
  have hvalue := hE.injective h.2 h'.2 rfl
  simp only [Entity.mk.injEq, true_and] at hname hvalue
  exact Prod.ext hname hvalue

theorem SeriesNumbered.unique (h : SeriesNumbered E series k)
    (h' : SeriesNumbered E series k') : k = k' := by
  rw [SeriesNumbers.mk.injEq]
  refine ⟨h.1.unique h'.1, ?_⟩
  exact List.right_unique_forall₂' (R := TagNumbers E) (fun _ _ _ => TagNumbers.unique) h.2 h'.2

theorem SeriesNumbered.exists_tagsOf (E : Table) :
    ∃ tagsOf : Series → List (UInt32 × UInt32), ∀ series k, SeriesNumbered E series k →
      tagsOf series = k.tags := by
  classical
  refine ⟨fun series => if hk : ∃ k, SeriesNumbered E series k then hk.choose.tags else [], ?_⟩
  intro series k hk
  have hex : ∃ k, SeriesNumbered E series k := ⟨k, hk⟩
  simp only [dif_pos hex]
  rw [hex.choose_spec.unique hk]

theorem SeriesNumbered.injective (hE : Numbered E count)
    (h : SeriesNumbered E series k) (h' : SeriesNumbered E series' k) : series = series' := by
  have hname := hE.injective h.1 h'.1 rfl
  have htags := List.left_unique_forall₂' (R := TagNumbers E)
    (fun _ _ _ => TagNumbers.injective hE) h.2 h'.2
  simp only [Entity.mk.injEq, true_and] at hname
  rw [Series.mk.injEq]
  exact ⟨hname, SortedMap.ext htags⟩

end Unique

/-- Points are what a query finds of a ledger for the starts of buckets in some range, under
the numbers of the series. Every series with a value has numbers. -/
structure SeriesPoints.Shows (points : SeriesPoints) (L : Ledger) (E : Table)
    (inRange : Int64 → Prop) (filter : Tags) (metric : String) : Prop where
  numbered : ∃ count, Numbered E count
  owned : ∀ series start v, L series start = some v → ∃ k, SeriesNumbered E series k
  get?_iff : ∀ key v, points.get? key = some v ↔ inRange key.2 ∧ ∃ series k,
    SeriesNumbered E series k ∧ k.tags = key.1 ∧ series.name = metric ∧
      series.carries filter ∧ L series key.2.toInt = some v

namespace SeriesPoints.Shows

variable {points : SeriesPoints} {L : Ledger} {E : Table} {inRange : Int64 → Prop}
  {filter : Tags} {metric : String} {start : Int64}

theorem eq_of_tags (h : points.Shows L E inRange filter metric) {series series' : Series}
    {k k' : SeriesNumbers} (hk : SeriesNumbered E series k) (hk' : SeriesNumbered E series' k')
    (hname : series.name = series'.name) (htags : k.tags = k'.tags) : series = series' := by
  obtain ⟨count, hnumbered⟩ := h.numbered
  have hmetric : k.metric = k'.metric := by
    have hid := hk.1
    rw [hname] at hid
    exact hid.unique hk'.1
  obtain rfl : k = k' := by
    rw [SeriesNumbers.mk.injEq]
    exact ⟨hmetric, htags⟩
  exact SeriesNumbered.injective hnumbered hk hk'

theorem valuesAt_perm (h : points.Shows L E inRange filter metric) {all : List Series}
    (hnodup : all.Nodup) (hall : ∀ series v, series.name = metric ∧ series.carries filter →
      L series start.toInt = some v → series ∈ all) (hrange : inRange start) :
    (valuesAt points.entries start).Perm
      ((L.live all filter metric start.toInt).map Int64.toInt) := by
  obtain ⟨tagsOf, htagsOf⟩ := SeriesNumbered.exists_tagsOf E
  rw [Ledger.map_live L tagsOf]
  refine List.Perm.map _ ?_
  have hleft : (points.entries.filter fun e => e.1.2 = start).Nodup :=
    (points.ascending.imp fun hbefore heq => by
      rw [heq, KeyOrder.irrefl] at hbefore
      cases hbefore).filter _
  have hright : (all.filterMap (L.entry tagsOf filter metric start)).Nodup := by
    refine hnodup.filterMap fun a b e ha hb => ?_
    obtain ⟨⟨hname, -⟩, hvalue, he⟩ := Ledger.entry_eq_some_iff.mp ha
    obtain ⟨⟨hname', -⟩, hvalue', he'⟩ := Ledger.entry_eq_some_iff.mp hb
    obtain ⟨k, hk⟩ := h.owned a _ _ hvalue
    obtain ⟨k', hk'⟩ := h.owned b _ _ hvalue'
    refine h.eq_of_tags hk hk' (hname.trans hname'.symm) ?_
    rw [← htagsOf a k hk, ← htagsOf b k' hk']
    exact congrArg Prod.fst (he.symm.trans he')
  refine (List.perm_ext_iff_of_nodup hleft hright).mpr fun e => ?_
  obtain ⟨⟨ids, stamp⟩, v⟩ := e
  rw [List.mem_filter, SortedMap.mem_entries, h.get?_iff, List.mem_filterMap, decide_eq_true_iff]
  constructor
  · rintro ⟨⟨-, series, k, hk, rfl, hname, hcarries, hvalue⟩, rfl⟩
    refine ⟨series, hall series v ⟨hname, hcarries⟩ hvalue,
      Ledger.entry_eq_some_iff.mpr ⟨⟨hname, hcarries⟩, hvalue, ?_⟩⟩
    rw [htagsOf series k hk]
  · rintro ⟨series, -, hseries⟩
    obtain ⟨⟨hname, hcarries⟩, hvalue, he⟩ := Ledger.entry_eq_some_iff.mp hseries
    simp only [Prod.mk.injEq] at he
    obtain ⟨rfl, rfl⟩ := he
    obtain ⟨k, hk⟩ := h.owned series _ _ hvalue
    exact ⟨⟨hrange, series, k, hk, (htagsOf series k hk).symm, hname, hcarries, hvalue⟩, rfl⟩

end SeriesPoints.Shows

namespace FactTable

def perform (t : FactTable) : Change → Work Unit
  | .write m => t.write m
  | .expire cutoff => do
      let _ ← t.deleteBefore cutoff

def performAll (t : FactTable) : List Change → Work Unit
  | [] => return ()
  | change :: changes => do
      t.perform change
      t.performAll changes

/-- The table holds what the ledger says, under the numbers of its series. -/
structure Reflects (t : FactTable) (s : Storage) (T : Table) (L : Ledger) : Prop where
  ready : t.entities.Ready s
  holds : s.Holds t.table T
  owned : ∀ row column cell, T.cell? row column = some cell → ∃ series k time value,
    SeriesNumbered (s.contents t.entities.table) series k ∧ 0 ≤ time.toInt ∧
      row = t.rowOf k time ∧ column = t.columnOf time ∧ cell = Bytes.ofInt64 value
  cells : ∀ series k time, SeriesNumbered (s.contents t.entities.table) series k →
    0 ≤ time.toInt → (T.cell? (t.rowOf k time) (t.columnOf time)).map Bytes.toInt64 =
      L series (t.resolution.bucketStart time.toInt)
  entered : ∀ series start value, L series start = some value →
    (∃ k, SeriesNumbered (s.contents t.entities.table) series k) ∧
      ∃ time : Int64, 0 ≤ time.toInt ∧ start = t.resolution.bucketStart time.toInt

variable {t : FactTable} {s s' : Storage} {T T' : Table} {L : Ledger} {series series' : Series}
  {k k' : SeriesNumbers}

/-- The cells of a table that can be read are the values of a ledger, under the numbers of its
series. -/
structure Mirrors (t : FactTable) (s : Storage) (T : Table) (L : Ledger) : Prop where
  legible : t.entities.Legible s
  holds : s.Holds t.table T
  owned : ∀ row column cell, T.cell? row column = some cell → ∃ series k time value,
    SeriesNumbered (s.contents t.entities.table) series k ∧ 0 ≤ time.toInt ∧
      row = t.rowOf k time ∧ column = t.columnOf time ∧ cell = Bytes.ofInt64 value
  cells : ∀ series k time, SeriesNumbered (s.contents t.entities.table) series k →
    0 ≤ time.toInt → (T.cell? (t.rowOf k time) (t.columnOf time)).map Bytes.toInt64 =
      L series (t.resolution.bucketStart time.toInt)
  entered : ∀ series start value, L series start = some value →
    (∃ k, SeriesNumbered (s.contents t.entities.table) series k) ∧
      ∃ time : Int64, 0 ≤ time.toInt ∧ start = t.resolution.bucketStart time.toInt

namespace Mirrors

theorem laid (h : t.Mirrors s T L) : t.Laid T := by
  intro row column cell hcell
  obtain ⟨_, k, time, value, -, h⟩ := h.owned row column cell hcell
  exact ⟨k, time, value, h⟩

theorem exists_wanted {E : Table} {filter tags : List (String × String)}
    {ids : List (UInt32 × UInt32)} (h : List.Forall₂ (TagNumbers E) tags ids)
    (hsub : filter ⊆ tags) :
    ∃ wanted, List.Forall₂ (TagNumbers E) filter wanted ∧ wanted ⊆ ids := by
  induction filter with
  | nil => exact ⟨[], .nil, List.nil_subset _⟩
  | cons tag filter ih =>
      obtain ⟨hmem, hsub⟩ := List.cons_subset.mp hsub
      obtain ⟨wanted, hwanted, hin⟩ := ih hsub
      obtain ⟨number, hnumber, hids⟩ := exists_mem_of_forall₂ h hmem
      exact ⟨number :: wanted, .cons hids hwanted, List.cons_subset.mpr ⟨hnumber, hin⟩⟩

theorem seriesPoints_iff (ht : t.Rolled) (h : t.Mirrors s T L) (filter : Tags) (metric : String)
    (range : TimeRange) :
    ∃ points s', (t.seriesPoints filter metric range).run answer s = (.ok points, s') ∧
      s'.catalog = s.catalog ∧ ∀ key v, points.get? key = some v ↔
        (t.resolution = .total ∨ range.contains key.2 = true) ∧ ∃ series k,
          SeriesNumbered (s.contents t.entities.table) series k ∧ k.tags = key.1 ∧
            series.name = metric ∧ series.carries filter ∧ L series key.2.toInt = some v := by
  obtain ⟨points, s', hrun, hcatalog, -, hget⟩ :=
    seriesPoints_run ht h.holds h.laid h.legible filter metric range
  obtain ⟨E, count, hE, hnumbered⟩ := h.legible.table
  have hE := hE.contents_eq
  refine ⟨points, s', hrun, hcatalog, fun key v => ?_⟩
  rw [hget, hE]
  constructor
  · rintro ⟨id, wanted, time, hid, hwanted, hsub, htime, hrange, hkey, hcell⟩
    obtain ⟨series, k, time', value, hk, htime', hrow, hcolumn, hvalue⟩ := h.owned _ _ _ hcell
    obtain ⟨rfl, -⟩ := (cell_eq_iff ht htime htime').mp ⟨hrow, hcolumn⟩
    have hstart : key.2.toInt = t.resolution.bucketStart time.toInt := by
      rw [hkey]
      exact Place.timestamp_ofTimestamp ht.pos ht.le htime
    rw [InRange, ← hkey] at hrange
    have hk' := hE ▸ hk
    refine ⟨hrange, series, _, hk', rfl, ?_, ?_, ?_⟩
    · have := hnumbered.injective hid hk'.1 rfl
      simp only [Entity.mk.injEq, true_and] at this
      exact this.symm
    · intro tag htag
      obtain ⟨number, hnumber, hids⟩ := exists_mem_of_forall₂ hwanted htag
      obtain ⟨tag', htag', hids'⟩ := exists_mem_of_forall₂ hk'.2.flip (hsub hnumber)
      exact TagNumbers.injective hnumbered hids hids' ▸ htag'
    · rw [hstart, ← h.cells series _ time hk htime, hcell]
      simp
  · rintro ⟨hrange, series, k, hk, htags, rfl, hcarries, hvalue⟩
    obtain ⟨-, time, htime, hstart⟩ := h.entered series _ v hvalue
    have hkey : key.2 = Place.timestamp t.resolution (t.locate time) := by
      refine Int64.toInt_inj.mp ?_
      rw [hstart]
      exact (Place.timestamp_ofTimestamp ht.pos ht.le htime).symm
    obtain ⟨wanted, hwanted, hsub⟩ := exists_wanted hk.2 hcarries
    refine ⟨k.metric, wanted, time, hk.1, hwanted, htags ▸ hsub, htime, ?_, hkey, ?_⟩
    · rwa [InRange, ← hkey]
    · have hcell := h.cells series k time (hE ▸ hk) htime
      rw [← hstart, hvalue, Option.map_eq_some_iff] at hcell
      obtain ⟨cell, hcell, rfl⟩ := hcell
      have hkeys : (⟨k.metric, key.1⟩ : SeriesNumbers) = k := by rw [← htags]
      obtain ⟨_, _, value, -, -, -, rfl⟩ := h.laid _ _ _ hcell
      rw [hkeys, hcell, Bytes.toInt64_ofInt64]

theorem shows (h : t.Mirrors s T L) {points : SeriesPoints} {filter : Tags}
    {metric : String} {range : TimeRange} (hget : ∀ key v, points.get? key = some v ↔
        (t.resolution = .total ∨ range.contains key.2 = true) ∧ ∃ series k,
          SeriesNumbered (s.contents t.entities.table) series k ∧ k.tags = key.1 ∧
            series.name = metric ∧ series.carries filter ∧ L series key.2.toInt = some v) :
    points.Shows L (s.contents t.entities.table)
      (fun start => t.resolution = .total ∨ range.contains start = true) filter metric := by
  obtain ⟨E, count, hE, hnumbered⟩ := h.legible.table
  rw [← hE.contents_eq] at hnumbered
  exact ⟨⟨count, hnumbered⟩, fun series start v hv => (h.entered series start v hv).1, hget⟩

end Mirrors

namespace Reflects

theorem mirrors (h : t.Reflects s T L) : t.Mirrors s T L :=
  ⟨h.ready.legible, h.holds, h.owned, h.cells, h.entered⟩

theorem laid (h : t.Reflects s T L) : t.Laid T := h.mirrors.laid

theorem injective (h : t.Reflects s T L)
    (hk : SeriesNumbered (s.contents t.entities.table) series k)
    (hk' : SeriesNumbered (s.contents t.entities.table) series' k) : series = series' := by
  obtain ⟨E, count, hE, hnumbered, -⟩ := h.ready.table
  rw [hE.contents_eq] at hk hk'
  exact SeriesNumbered.injective hnumbered hk hk'

theorem fresh (hE : t.entities.Ready s) (hT : s.Holds t.table .empty) :
    t.Reflects s .empty fun _ _ => none := by
  have hcell : ∀ row column, Table.empty.cell? row column = none := fun _ _ => rfl
  refine ⟨hE, hT, ?_, ?_, ?_⟩
  · intro row column cell h
    rw [hcell] at h
    cases h
  · intro series k time _ _
    rw [hcell]
    rfl
  · intro series start value h
    cases h

theorem empty (hE : s.Holds t.entities.table .empty) (hT : s.Holds t.table .empty)
    (hmemory : ∀ e, s.memory t.entities.cache e = none) :
    t.Reflects s .empty fun _ _ => none := by
  refine fresh ⟨⟨.empty, fun _ => 0, hE, Numbered.empty, fun _ => Nat.zero_le _⟩, ?_⟩ hT
  intro e id h
  rw [hmemory] at h
  cases h

theorem mono (ht : t.Rolled) (h : t.Reflects s T L) (hready : t.entities.Ready s')
    (hholds : s'.Holds t.table T)
    (hgrows : ∀ (e : Entity) id, NumberedAs (s.contents t.entities.table) e id →
      NumberedAs (s'.contents t.entities.table) e id) : t.Reflects s' T L := by
  obtain ⟨E, count, hE, hnumbered, -⟩ := hready.table
  have hE := hE.contents_eq
  refine ⟨hready, hholds, ?_, ?_, ?_⟩
  · intro row column cell hcell
    obtain ⟨series, k, time, value, hk, hrest⟩ := h.owned row column cell hcell
    exact ⟨series, k, time, value, hk.mono hgrows, hrest⟩
  · intro series k time hk htime
    by_cases hold : SeriesNumbered (s.contents t.entities.table) series k
    · exact h.cells series k time hold htime
    -- a series that was not numbered before has neither a value nor a cell
    · have hL : L series (t.resolution.bucketStart time.toInt) = none := by
        cases hvalue : L series (t.resolution.bucketStart time.toInt) with
        | none => rfl
        | some value =>
            obtain ⟨⟨k', hk'⟩, -⟩ := h.entered series _ value hvalue
            obtain rfl := hk.unique (hk'.mono hgrows)
            exact absurd hk' hold
      rw [hL]
      cases hcell : T.cell? (t.rowOf k time) (t.columnOf time) with
      | none => rfl
      | some cell =>
          obtain ⟨series', k', time', _, hk', htime', hrow, hcolumn, -⟩ := h.owned _ _ cell hcell
          obtain ⟨rfl, -⟩ := (cell_eq_iff ht htime htime').mp ⟨hrow, hcolumn⟩
          rw [hE] at hk
          have hk₁ := hk'.mono hgrows
          rw [hE] at hk₁
          obtain rfl := SeriesNumbered.injective hnumbered hk hk₁
          exact absurd hk' hold
  · intro series start value hvalue
    obtain ⟨⟨k, hk⟩, hstart⟩ := h.entered series start value hvalue
    exact ⟨⟨k, hk.mono hgrows⟩, hstart⟩

theorem enter (ht : t.Rolled) (hne : t.entities.table ≠ t.table) {m : Metric}
    (h : t.Reflects s T L) (hk : SeriesNumbered (s.contents t.entities.table) m.series k)
    (htime : 0 ≤ m.timestamp.toInt) :
    t.Reflects (s.update t.table (t.entered m k T)) (t.entered m k T)
      (L.apply t.resolution (.write m)) := by
  let start := t.resolution.bucketStart m.timestamp.toInt
  let row := t.rowOf k m.timestamp
  let column := t.columnOf m.timestamp
  have hentities : (s.update t.table (t.entered m k T)).contents t.entities.table =
      s.contents t.entities.table := by
    rw [contents_update, if_neg hne]
  have hcell : ∀ row' column', (t.entered m k T).cell? row' column' =
      if row' = row ∧ column' = column then some (Bytes.ofInt64 (m.applied (L m.series start)))
      else T.cell? row' column' := by
    intro row' column'
    rw [FactTable.entered, h.cells m.series k m.timestamp hk htime]
    exact T.cell?_setCell row column _ row' column'
  refine ⟨h.ready.update hne _, h.holds.update_self _, ?_, ?_, ?_⟩
  · intro row' column' cell hcell'
    rw [hentities]
    rw [hcell] at hcell'
    split at hcell'
    · next heq =>
      exact ⟨m.series, k, m.timestamp, _, hk, htime, heq.1, heq.2, (Option.some.inj hcell').symm⟩
    · exact h.owned row' column' cell hcell'
  · intro series' k' time' hk' htime'
    rw [hentities] at hk'
    have hiff : t.rowOf k' time' = row ∧ t.columnOf time' = column ↔
        k' = k ∧ t.resolution.bucketStart time'.toInt = start := cell_eq_iff ht htime' htime
    have hseries : series' = m.series ↔ k' = k := by
      constructor
      · rintro rfl
        exact hk'.unique hk
      · rintro rfl
        exact h.injective hk' hk
    rw [hcell]
    simp only [Ledger.apply, hseries]
    by_cases hsame : k' = k ∧ t.resolution.bucketStart time'.toInt = start
    · obtain rfl := hseries.mpr hsame.1
      rw [if_pos (hiff.mpr hsame), if_pos hsame, hsame.2]
      simp
    · rw [if_neg (mt hiff.mp hsame), if_neg hsame]
      exact h.cells series' k' time' hk' htime'
  · intro series' start' value hvalue
    rw [hentities]
    simp only [Ledger.apply] at hvalue
    split at hvalue
    · next heq => exact ⟨⟨k, heq.1 ▸ hk⟩, m.timestamp, htime, heq.2⟩
    · exact h.entered series' start' value hvalue

theorem write (ht : t.Rolled) (hne : t.entities.table ≠ t.table) {m : Metric}
    (h : t.Reflects s T L) (hrun : (t.write m).run answer s = (.ok (), s')) :
    ∃ T', t.Reflects s' T' (L.apply t.resolution (.write m)) := by
  obtain ⟨k, hvalid, hready, hgrows, hk, hholds⟩ :=
    of_write_run_ok hne h.ready h.holds h.laid hrun
  have hentities : ∀ U, (s'.update t.table U).contents t.entities.table =
      s'.contents t.entities.table := by
    intro U
    rw [contents_update, if_neg hne]
  have hgrown : t.Reflects (s'.update t.table T) T L :=
    h.mono ht (hready.update hne T) (hholds.update_self T) (hentities T ▸ hgrows)
  have hentered := hgrown.enter ht hne (hentities T ▸ hk) (Metric.timestamp_nonneg hvalid)
  refine ⟨_, hentered.mono ht hready hholds ?_⟩
  rw [contents_update, if_neg hne, hentities]
  exact fun _ _ hid => hid

theorem expire (ht : t.Rolled) (hne : t.entities.table ≠ t.table) {cutoff : Int64} {n : Nat}
    (h : t.Reflects s T L) (hrun : (t.deleteBefore cutoff).run answer s = (.ok n, s')) :
    ∃ T', t.Reflects s' T' (L.apply t.resolution (.expire cutoff)) := by
  obtain ⟨n', T', hrun', hwithout⟩ := deleteBefore_run ht h.holds h.laid cutoff
  have hs' : s' = s.update t.table T' := congrArg Prod.snd (hrun.symm.trans hrun')
  subst hs'
  have hentities : (s.update t.table T').contents t.entities.table =
      s.contents t.entities.table := by
    rw [contents_update, if_neg hne]
  refine ⟨T', h.ready.update hne T', h.holds.update_self T', ?_, ?_, ?_⟩
  · intro row column cell hcell
    rw [hentities]
    exact h.owned row column cell ((hwithout row column cell).mp hcell).1
  · intro series k time hk htime
    have hcells := h.cells series k time (hentities ▸ hk) htime
    have hdoomed : t.Doomed cutoff (t.rowOf k time) (t.columnOf time) ↔
        t.Expired cutoff time := doomed_iff ht htime
    have hkept := hwithout (t.rowOf k time) (t.columnOf time)
    simp only [hdoomed] at hkept
    simp only [Ledger.apply, ← hcells]
    split
    · next hexpired =>
      rw [Option.map_eq_none_iff, Option.eq_none_iff_forall_ne_some]
      intro cell hcell
      exact ((hkept cell).mp hcell).2 hexpired
    · next hexpired =>
      congr 1
      refine Option.ext fun cell => ?_
      rw [hkept]
      exact and_iff_left hexpired
  · intro series start value hvalue
    rw [hentities]
    simp only [Ledger.apply] at hvalue
    split at hvalue
    · cases hvalue
    · exact h.entered series start value hvalue

theorem apply (ht : t.Rolled) (hne : t.entities.table ≠ t.table) {change : Change}
    (h : t.Reflects s T L) (hrun : (t.perform change).run answer s = (.ok (), s')) :
    ∃ T', t.Reflects s' T' (L.apply t.resolution change) := by
  cases change with
  | write m => exact h.write ht hne hrun
  | expire cutoff =>
      obtain ⟨n, s₁, hdelete, hend⟩ := Program.run_bind_ok hrun
      cases hend
      exact h.expire ht hne hdelete

theorem applyAll (ht : t.Rolled) (hne : t.entities.table ≠ t.table) (changes : List Change)
    (h : t.Reflects s T L) (hrun : (t.performAll changes).run answer s = (.ok (), s')) :
    ∃ T', t.Reflects s' T' (changes.foldl (Ledger.apply t.resolution) L) := by
  induction changes generalizing s T L with
  | nil =>
      cases hrun
      exact ⟨T, h⟩
  | cons change changes ih =>
      obtain ⟨_, s₁, hfirst, hrest⟩ := Program.run_bind_ok hrun
      obtain ⟨T₁, h₁⟩ := h.apply ht hne hfirst
      exact ih h₁ hrest

theorem seriesPoints_iff (ht : t.Rolled) (h : t.Reflects s T L) (filter : Tags) (metric : String)
    (range : TimeRange) :
    ∃ points s', (t.seriesPoints filter metric range).run answer s = (.ok points, s') ∧
      s'.catalog = s.catalog ∧ ∀ key v, points.get? key = some v ↔
        (t.resolution = .total ∨ range.contains key.2 = true) ∧ ∃ series k,
          SeriesNumbered (s.contents t.entities.table) series k ∧ k.tags = key.1 ∧
            series.name = metric ∧ series.carries filter ∧ L series key.2.toInt = some v :=
  h.mirrors.seriesPoints_iff ht filter metric range

theorem shows (h : t.Reflects s T L) {points : SeriesPoints} {filter : Tags}
    {metric : String} {range : TimeRange} (hget : ∀ key v, points.get? key = some v ↔
        (t.resolution = .total ∨ range.contains key.2 = true) ∧ ∃ series k,
          SeriesNumbered (s.contents t.entities.table) series k ∧ k.tags = key.1 ∧
            series.name = metric ∧ series.carries filter ∧ L series key.2.toInt = some v) :
    points.Shows L (s.contents t.entities.table)
      (fun start => t.resolution = .total ∨ range.contains start = true) filter metric :=
  h.mirrors.shows hget

theorem valuesAt_perm (h : t.Reflects s T L) {points : SeriesPoints} {filter : Tags}
    {metric : String} {range : TimeRange} (hget : ∀ key v, points.get? key = some v ↔
        (t.resolution = .total ∨ range.contains key.2 = true) ∧ ∃ series k,
          SeriesNumbered (s.contents t.entities.table) series k ∧ k.tags = key.1 ∧
            series.name = metric ∧ series.carries filter ∧ L series key.2.toInt = some v)
    {all : List Series} (hnodup : all.Nodup)
    (hall : ∀ series start v, L series start = some v → series ∈ all) {start : Int64}
    (hrange : t.resolution = .total ∨ range.contains start = true) :
    (SeriesPoints.valuesAt points.entries start).Perm
      ((L.live all filter metric start.toInt).map Int64.toInt) :=
  (h.shows hget).valuesAt_perm hnodup (fun series v _ hv => hall series _ v hv) hrange

end Reflects

/-- After any changes to an empty table, a query yields the sums of the values that the
ledger of the changes holds for the series it matches, in the order of their buckets. -/
theorem query_run_iff (t : FactTable) (asked : Nat)
    (hroll : t.roll = Place.roll t.resolution asked) (hne : t.entities.table ≠ t.table)
    (hE : s.Holds t.entities.table .empty) (hT : s.Holds t.table .empty)
    (hmemory : ∀ e, s.memory t.entities.cache e = none) (changes : List Change)
    (hrun : (t.performAll changes).run answer s = (.ok (), s')) (filter : Tags)
    (metric : String) (range : TimeRange) :
    ∃ points s'', (t.query filter metric range).run answer s' = (.ok points, s'') ∧
      s''.catalog = s'.catalog ∧
      points.Pairwise (fun p q => p.timestamp.toInt < q.timestamp.toInt) ∧
      (∀ p ∈ points, t.resolution.bucketStart p.timestamp.toInt = p.timestamp.toInt) ∧
      ∀ p, p ∈ points ↔ (t.resolution = .total ∨ range.contains p.timestamp = true) ∧
        let live := (Ledger.after t.resolution changes).live (written changes) filter metric
          p.timestamp.toInt
        live ≠ [] ∧ p.value = Int64.ofInt (live.map Int64.toInt).sum := by
  have ht := rolled_of_eq hroll
  obtain ⟨T, h⟩ := (Reflects.empty hE hT hmemory).applyAll ht hne changes hrun
  obtain ⟨points, s'', hpoints, hcatalog, hget⟩ := h.seriesPoints_iff ht filter metric range
  have hmem : ∀ p, p ∈ points.sum ↔ (t.resolution = .total ∨
      range.contains p.timestamp = true) ∧
        let live := (Ledger.after t.resolution changes).live (written changes) filter metric
          p.timestamp.toInt
        live ≠ [] ∧ p.value = Int64.ofInt (live.map Int64.toInt).sum := by
    intro p
    rw [SeriesPoints.mem_sum]
    by_cases hrange : t.resolution = .total ∨ range.contains p.timestamp = true
    · have hperm := h.valuesAt_perm hget (List.nodup_dedup _) (fun _ _ _ => mem_written) hrange
      rw [hperm.sum_eq, and_iff_right hrange, ne_eq, ← List.length_eq_zero_iff, hperm.length_eq,
        List.length_eq_zero_iff, List.map_eq_nil_iff]
      exact Iff.rfl
    · simp only [hrange, false_and, iff_false, not_and]
      intro hvalues
      refine absurd ?_ hvalues
      rw [SeriesPoints.valuesAt, List.map_eq_nil_iff, List.filter_eq_nil_iff]
      intro e he hstart
      have hrange' := ((hget e.1 e.2).mp (SortedMap.mem_entries.mp he)).1
      rw [of_decide_eq_true hstart] at hrange'
      exact hrange hrange'
  refine ⟨points.sum, s'', ?_, hcatalog, points.ascending_sum, ?_, hmem⟩
  · simp only [query, Program.bind_eq, Program.pure_eq]
    rw [Program.run_bind_of_ok hpoints]
    rfl
  · intro p hp
    obtain ⟨-, hlive, -⟩ := (hmem p).mp hp
    obtain ⟨v, hv⟩ := List.exists_mem_of_ne_nil _ hlive
    obtain ⟨series, -, hvalue⟩ := List.mem_filterMap.mp hv
    split at hvalue
    · obtain ⟨-, time, htime, hstart⟩ := h.entered series _ v hvalue
      rw [hstart, Resolution.bucketStart_bucketStart]
    · cases hvalue

def sampleTable : FactTable :=
  current ⟨"s", "f"⟩ ⟨⟨"s", "e"⟩, 0⟩ .minute 10 ⟨16, by decide, by decide⟩

def sampleStorage : Storage :=
  { catalog := (({} : Catalog).create ⟨"s", "e"⟩ {}).create ⟨"s", "f"⟩ {} }

def sampleChanges : List Change :=
  [.write ⟨.counter, "m", 50, 1, .singleton "h" "x"⟩,
    .write ⟨.counter, "m", 61, 2, .singleton "h" "x"⟩,
    .write ⟨.gauge, "m", 119, 5, .singleton "h" "y"⟩, .expire 60]

theorem sample_query_run :
    let s' := ((sampleTable.performAll sampleChanges).run answer sampleStorage).2
    (sampleTable.performAll sampleChanges).run answer sampleStorage = (.ok (), s') ∧
      ∃ points s'', (sampleTable.query .empty "m" ⟨0, 600⟩).run answer s' = (.ok points, s'') ∧
        ⟨60, 7⟩ ∈ points ∧ ∀ v, ⟨0, v⟩ ∉ points := by
  intro s'
  have hrun : (sampleTable.performAll sampleChanges).run answer sampleStorage = (.ok (), s') :=
    Program.run_of_isOk (by decide +kernel)
  have hentities : sampleStorage.Holds ⟨"s", "e"⟩ .empty :=
    ⟨{}, by simp [sampleStorage, Catalog.create, Catalog.find?, Catalog.put, SortedMap.get?_insert]⟩
  have hfacts : sampleStorage.Holds ⟨"s", "f"⟩ .empty :=
    ⟨{}, by simp [sampleStorage, Catalog.create, Catalog.find?, Catalog.put, SortedMap.get?_insert]⟩
  obtain ⟨points, s'', hquery, -, -, -, hmem⟩ := query_run_iff sampleTable 10 rfl (by decide)
    hentities hfacts (fun _ => rfl) sampleChanges hrun .empty "m" ⟨0, 600⟩
  refine ⟨hrun, points, s'', hquery, (hmem _).mpr ⟨?_, ?_⟩, fun v hv => ?_⟩
  · exact .inr (by decide)
  · exact ⟨by decide +kernel, by decide +kernel⟩
  · have hempty : (Ledger.after sampleTable.resolution sampleChanges).live (written sampleChanges)
        .empty "m" 0 = [] := by decide +kernel
    exact ((hmem _).mp hv).2.1 hempty

end FactTable

end Rollup
