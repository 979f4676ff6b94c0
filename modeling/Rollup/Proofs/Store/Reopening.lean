import Rollup.Proofs.Fact.RowKey
import Rollup.Proofs.Store.Creation
import Rollup.Proofs.Store.Writes

namespace Rollup

open Storage Entity

inductive StoreCall where
  | write (call : WriteCall)
  | deleteBefore (r : Resolution) (cutoff : Int64)
  | query (r : Resolution) (filter : Tags) (metric : String) (range : TimeRange)

namespace MetricStore

def serve (store : MetricStore) : StoreCall → Work Unit
  | .write call => store.perform call
  | .deleteBefore r cutoff => do
      let _ ← store.deleteBefore r cutoff
  | .query r filter metric range => do
      let _ ← store.query r filter metric range

def serveAll (store : MetricStore) : List StoreCall → Work Unit
  | [] => return ()
  | call :: calls => do
      store.serve call
      store.serveAll calls

end MetricStore

/-- The strings have a table of their own, whichever generations of buckets there are. -/
def Config.StringsApart (config : Config) : Prop :=
  ∀ r : Resolution, config.entityTable ≠ r.tableName config.factStem ∧
    config.entityTable ≠ r.tableName config.legacyFactStem

namespace Datasets

variable {d : Datasets} {s s' : Storage} {store : MetricStore} {call : StoreCall}
  {calls : List StoreCall} {id : TableId}

/-- The tables are as a store without legacy tables leaves them. -/
structure Stands (d : Datasets) (s : Storage) : Prop where
  keeps : ∃ L, d.Keeps s L
  others : ∀ id, ¬ d.Owns id → s.catalog.find? id = none

namespace Stands

variable (hnames : d.EntitiesApart) (hdirect : ∀ r, store.table r = .direct (d.currentTable r))
include hnames hdirect

theorem addAll (h : d.Stands s) {ms : List Metric}
    (hrun : (store.addAll ms).run answer s = (.ok (), s')) : d.Stands s' := by
  have hcurrent : ∀ r, (store.table r).current = d.currentTable r := fun r => by
    rw [hdirect]
    rfl
  obtain ⟨L, hkeeps⟩ := h.keeps
  refine ⟨⟨_, hkeeps.addAll hnames hcurrent hrun⟩, fun id hid => ?_⟩
  have hsame := (store.addAll_only ms).run (fun s : Storage => s.catalog.find? id = none)
    (fun q s ⟨r, m, _, hq⟩ hs => (find?_answer ?_).trans hs) (h.others id hid)
  · rwa [hrun] at hsame
  · rintro id' op rfl rfl
    rw [hcurrent] at hq
    rcases hq with hq | ⟨k, hq⟩
    · exact hid (.inl hq.1)
    · cases hq
      exact hid (.inr ⟨r, rfl⟩)

theorem deleteBefore (h : d.Stands s) {r : Resolution} {cutoff : Int64} {n : Nat}
    (hrun : (store.deleteBefore r cutoff).run answer s = (.ok n, s')) : d.Stands s' := by
  rw [MetricStore.deleteBefore, hdirect] at hrun
  obtain ⟨L, hkeeps⟩ := h.keeps
  refine ⟨⟨_, hkeeps.deleteBefore hnames hrun⟩, fun id hid => ?_⟩
  obtain ⟨T, hr⟩ := hkeeps r
  obtain ⟨_, T', hrun', -⟩ :=
    FactTable.deleteBefore_run (d.rolled_currentTable r) hr.holds hr.laid cutoff
  cases hrun.symm.trans hrun'
  refine (find?_update ?_).trans (h.others id hid)
  rintro rfl
  exact hid (.inr ⟨r, rfl⟩)

omit hnames in
theorem query (h : d.Stands s) {r : Resolution} {filter : Tags} {metric : String}
    {range : TimeRange} {points : List Point}
    (hrun : (store.query r filter metric range).run answer s = (.ok points, s')) :
    d.Stands s' := by
  rw [MetricStore.query, hdirect] at hrun
  obtain ⟨L, hkeeps⟩ := h.keeps
  obtain ⟨_, _, hrun', hcatalog, hkeeps'⟩ := hkeeps.query r filter metric range
  cases hrun.symm.trans hrun'
  exact ⟨⟨L, hkeeps'⟩, fun id hid => hcatalog ▸ h.others id hid⟩

theorem serve (h : d.Stands s) (hrun : (store.serve call).run answer s = (.ok (), s')) :
    d.Stands s' := by
  cases call with
  | write call =>
      rw [MetricStore.serve, store.perform_eq] at hrun
      exact h.addAll hnames hdirect hrun
  | deleteBefore r cutoff =>
      obtain ⟨n, _, hdelete, hend⟩ := Program.run_bind_ok hrun
      cases hend
      exact h.deleteBefore hnames hdirect hdelete
  | query r filter metric range =>
      obtain ⟨points, _, hquery, hend⟩ := Program.run_bind_ok hrun
      cases hend
      exact h.query hdirect hquery

theorem serveAll (h : d.Stands s) (hrun : (store.serveAll calls).run answer s = (.ok (), s')) :
    d.Stands s' := by
  induction calls generalizing s with
  | nil =>
      cases hrun
      exact h
  | cons call calls ih =>
      obtain ⟨_, s₁, hfirst, hrest⟩ := Program.run_bind_ok hrun
      exact ih (h.serve hnames hdirect hfirst) hrest

end Stands

theorem of_ofConfig {config : Config} {cache cache' : Nat} {d' : Datasets}
    (hd : ofConfig config cache = .ok d) (hd' : ofConfig config cache' = .ok d') :
    d.opened = .empty ∧ d.cache = cache ∧ d' = { d with cache := cache' } := by
  simp only [ofConfig] at hd hd'
  cases hvalid : config.validate with
  | error e =>
      rw [hvalid] at hd
      cases hd
  | ok =>
      cases hsalting : Salting.ofBuckets config.buckets with
      | error e =>
          rw [hvalid, hsalting] at hd
          cases hd
      | ok salting =>
          rw [hvalid, hsalting] at hd hd'
          cases hd
          cases hd'
          exact ⟨rfl, rfl, rfl⟩

theorem holds_of_created {c : Catalog} {caches : SortedMap Nat EntityCache}
    (hnone : c.find? id = none) (hextends : c.Extends d.Owns (d.openStore c).2.2)
    (hthere : ((d.openStore c).2.2.find? id).isSome) :
    Storage.Holds ⟨(d.openStore c).2.2, caches⟩ id .empty := by
  rcases hextends id with heq | ⟨-, -, properties, hcreated⟩
  · rw [heq, hnone] at hthere
    cases hthere
  · exact ⟨properties, hcreated⟩

section

variable (hstrings : ∀ r, d.entityTable.table ≠ (d.legacyTable r).table)
  (hopened : d.opened = .empty) {c : Catalog} (hempty : ∀ id, c.find? id = none)
include hstrings hopened hempty

theorem holds_openStore (caches : SortedMap Nat EntityCache) (r : Resolution) :
    Storage.Holds ⟨(d.openStore c).2.2, caches⟩ d.entityTable.table .empty ∧
      Storage.Holds ⟨(d.openStore c).2.2, caches⟩ (d.currentTable r).table .empty := by
  have hextends := d.extends_openStore c
  obtain ⟨-, hentities, hcurrent⟩ := direct_openStore hstrings hopened (fun r => hempty _) r
  exact ⟨holds_of_created (hempty _) hextends hentities,
    holds_of_created (hempty _) hextends hcurrent⟩

variable {caches : SortedMap Nat EntityCache} (hmemory : caches.get? d.cache = none)
include hmemory

theorem keeps_openStore : d.Keeps ⟨(d.openStore c).2.2, caches⟩ fun _ _ _ => none := by
  have hholds := holds_openStore hstrings hopened hempty caches
  refine Keeps.fresh (FactTable.Reflects.empty (t := d.currentTable .second)
    (hholds .second).1 (hholds .second).2 fun e => ?_).ready fun r => (hholds r).2
  show (caches.get? d.cache).bind (·.get? e) = none
  rw [hmemory]
  rfl

theorem stands_openStore : d.Stands ⟨(d.openStore c).2.2, caches⟩ :=
  ⟨⟨_, keeps_openStore hstrings hopened hempty hmemory⟩,
    fun id hid => ((d.extends_openStore c).find?_eq hid).trans (hempty id)⟩

end

theorem reflects_reopened {t t' : FactTable} {T : Table} {L : Ledger} {cache : Nat}
    (h : t.Reflects s T L) (ht' : t' = { t with entities := { t.entities with cache } })
    (hmemory : ∀ e, s'.memory cache e = none)
    (hholds : ∀ id U, s.Holds id U → s'.Holds id U) : t'.Reflects s' T L := by
  subst ht'
  obtain ⟨⟨E, count, hE, hnumbered, hcount⟩, -⟩ := h.ready
  have hcontents : s'.contents t.entities.table = s.contents t.entities.table := by
    rw [hE.contents_eq, (hholds _ _ hE).contents_eq]
  refine ⟨⟨⟨E, count, hholds _ _ hE, hnumbered, hcount⟩, fun e id hid => ?_⟩,
    hholds _ _ h.holds, hcontents ▸ h.owned, hcontents ▸ h.cells, hcontents ▸ h.entered⟩
  rw [hmemory e] at hid
  cases hid

theorem holds_of_extends {new : TableId → Prop} {c : Catalog}
    (h : s.catalog.Extends new c) {caches : SortedMap Nat EntityCache} {T : Table}
    (hT : s.Holds id T) : Storage.Holds ⟨c, caches⟩ id T := by
  obtain ⟨properties, hfind⟩ := hT
  rcases h id with heq | ⟨-, hnone, -⟩
  · exact ⟨properties, heq.trans hfind⟩
  · rw [hfind] at hnone
    cases hnone

theorem Keeps.reopened {L : Resolution → Ledger} (h : d.Keeps s L) (cache : Nat)
    {caches : SortedMap Nat EntityCache} (hmemory : caches.get? cache = none) :
    let d' := { d with cache }
    d'.Keeps ⟨(d'.openStore s.catalog).2.2, caches⟩ L := by
  intro d' r
  obtain ⟨T, hr⟩ := h r
  refine ⟨T, reflects_reopened hr rfl (fun e => ?_) fun id U hU =>
    holds_of_extends (d'.extends_openStore s.catalog) hU⟩
  show (caches.get? cache).bind (·.get? e) = none
  rw [hmemory]
  rfl

/-- Whatever is done without a failure with a store that was opened where there were no tables,
a store of the same settings that is opened on what it left answers every query as it does. -/
def ReopensAlike (config : Config) : Prop :=
  ∀ {cache cache' : Nat} {d d' : Datasets}, ofConfig config cache = .ok d →
    ofConfig config cache' = .ok d' →
  ∀ {c : Catalog} {caches : SortedMap Nat EntityCache}, (∀ id, c.find? id = none) →
    caches.get? cache = none →
  ∀ {calls : List StoreCall} {s : Storage},
    let first := (d.openStore c).1
    (first.serveAll calls).run answer ⟨(d.openStore c).2.2, caches⟩ = (.ok (), s) →
  ∀ {caches' : SortedMap Nat EntityCache}, caches'.get? cache' = none →
  ∀ r filter metric range,
    let second := (d'.openStore s.catalog).1
    ∃ points after after', (first.query r filter metric range).run answer s = (.ok points, after) ∧
      (second.query r filter metric range).run answer ⟨(d'.openStore s.catalog).2.2, caches'⟩ =
        (.ok points, after')

section Apart

variable (happart : d.config.StringsApart)
include happart

theorem entitiesApart : d.EntitiesApart := by
  intro r heq
  simp only [entityTable, currentTable, FactTable.current, TableId.system, TableId.mk.injEq,
    true_and] at heq
  exact (happart r).1 heq

theorem entityTable_ne_legacyTable (r : Resolution) :
    d.entityTable.table ≠ (d.legacyTable r).table := by
  intro heq
  simp only [entityTable, legacyTable, FactTable.legacy, TableId.system, TableId.mk.injEq,
    true_and] at heq
  exact (happart r).2 heq

theorem not_owns_legacyTable (hstems : d.config.legacyFactStem ≠ d.config.factStem)
    (r : Resolution) : ¬ d.Owns (d.legacyTable r).table := by
  rintro (h | ⟨r', h⟩)
  · exact entityTable_ne_legacyTable happart r h.symm
  · by_cases heq : r = r'
    · subst heq
      simp only [legacyTable, currentTable, FactTable.legacy, FactTable.current, TableId.system,
        TableId.mk.injEq, true_and] at h
      exact hstems (Resolution.tableName_injective h).2
    · exact legacyTable_ne heq h

end Apart

theorem reopensAlike {config : Config} (happart : config.StringsApart)
    (hstems : config.legacyFactStem ≠ config.factStem) : ReopensAlike config := by
  intro cache cache' d d' hd hd' c caches hempty hmemory calls s first hrun caches' hmemory'
    r filter metric range second
  obtain rfl := (sound_ofConfig hd).2
  obtain ⟨hopened, rfl, rfl⟩ := of_ofConfig hd hd'
  have hnames := entitiesApart happart
  have hstrings := entityTable_ne_legacyTable happart
  have hfirst := fun r => (direct_openStore hstrings hopened (c := c) (fun r => hempty _) r).1
  have hstart := stands_openStore hstrings hopened hempty hmemory
  obtain ⟨⟨L, hkeeps⟩, hothers⟩ := hstart.serveAll hnames hfirst hrun
  have hsecond := (direct_openStore (d := { d with cache := cache' }) hstrings hopened
    (c := s.catalog) (fun r => hothers _ (not_owns_legacyTable happart hstems r)) r).1
  obtain ⟨T, hr⟩ := hkeeps r
  obtain ⟨T', hr'⟩ := hkeeps.reopened cache' hmemory' r
  obtain ⟨points, after, after', hquery, hquery'⟩ := hr.query_agree (d.rolled_currentTable r)
    (rolled_currentTable { d with cache := cache' } r) rfl hr' filter metric range
  refine ⟨points, after, after', ?_, ?_⟩
  · rw [MetricStore.query, hfirst]
    exact hquery
  · rw [MetricStore.query, hsecond]
    exact hquery'

end Datasets

namespace FactKey

theorem decode_distribute (salting : Salting) (key : FactKey) :
    ∃ e, decode (salting.distribute key.encode) = .error e := by
  cases h : decode (salting.distribute key.encode) with
  | error e => exact ⟨e, rfl⟩
  | ok key' =>
      have hlength := length_of_decode (decode_encode key)
      have hlength' := length_of_decode h
      rw [Salting.distribute, List.length_cons, hlength] at hlength'
      omega

end FactKey

namespace FactTable

variable {t : FactTable} {s : Storage} {T : Table}

def allRows : KeyRange := ⟨Bytes.ofUInt64 0, none⟩

theorem contains_allRows {key : Bytes} (h : 8 ≤ key.length) : allRows.contains key = true := by
  have hsplit := Bytes.before_append_iff (key.take 8) (Bytes.ofUInt64 0)
    (by simp [h]) (key.drop 8)
  have hzero : Bytes.value (Bytes.ofUInt64 0) = 0 := by decide
  rw [List.take_append_drop, hzero] at hsplit
  have hbefore : KeyOrder.before key (Bytes.ofUInt64 0) = false := by
    rw [← Bool.not_eq_true]
    exact fun h => Nat.not_lt_zero _ (hsplit.mp h)
  rw [KeyRange.contains, allRows, hbefore]
  rfl

theorem seriesPoints_fails (hready : t.entities.Ready s) (hT : s.Holds t.table T)
    (htotal : t.resolution = .total) (hlegacy : t.salting = none) {metric : String} {id : UInt32}
    (hid : NumberedAs (s.contents t.entities.table) ⟨.metric, metric⟩ id)
    (hrows : T.scan allRows ≠ [])
    (hkeys : ∀ row ∈ T.scan allRows, ∃ e, FactKey.decode row.key = .error e)
    (range : TimeRange) :
    ∃ e s', (t.seriesPoints .empty metric range).run answer s = (.error e, s') := by
  obtain ⟨found, s₁, hlookup, hcatalog, -, hfound⟩ :=
    EntityTable.lookup_run hready.legible ⟨.metric, metric⟩
  obtain rfl := (hfound id).mpr hid
  have hT₁ : s₁.Holds t.table T := by rwa [Holds, hcatalog]
  have htags : (t.lookupTags (SortedMap.empty : Tags).entries).run answer s₁ =
      (.ok (some []), s₁) := rfl
  have hrowsOf : t.rowsOf range = some allRows := by
    simp only [rowsOf, htotal, allRows]
  have hranges : (t.ranges allRows).flatMap T.scan = T.scan allRows := by
    simp only [ranges, hlegacy, List.flatMap_singleton]
  simp only [seriesPoints, Program.bind_eq]
  rw [Program.run_bind_of_ok hlookup]
  dsimp only
  rw [Program.run_bind_of_ok htags]
  simp only [hrowsOf]
  rw [Program.run_bind_of_ok (scanAll_run hT₁ _), hranges]
  cases hscan : T.scan allRows with
  | nil => exact absurd hscan hrows
  | cons row rest =>
      obtain ⟨e, he⟩ := hkeys row (hscan ▸ List.mem_cons_self ..)
      have hread : t.readRow range id [] .empty row = .error e := by
        simp only [readRow, logicalKey, hlegacy, he]
        rfl
      refine ⟨e, s₁, ?_⟩
      rw [List.foldlM_cons, hread]
      rfl

end FactTable

namespace Datasets

variable {d : Datasets} {s : Storage}

theorem legacyTable_eq (hstems : d.config.legacyFactStem = d.config.factStem) (r : Resolution) :
    (d.legacyTable r).table = (d.currentTable r).table := by
  simp only [legacyTable, currentTable, FactTable.legacy, FactTable.current, hstems]

theorem legacyTable_fails (hstems : d.config.legacyFactStem = d.config.factStem) {T : Table}
    {L : Ledger} (hr : (d.currentTable .total).Reflects s T L) {series : Series} {value : Int64}
    (hvalue : L series 0 = some value) (range : TimeRange) :
    ∃ e s', ((d.legacyTable .total).seriesPoints .empty series.name range).run answer s =
      (.error e, s') := by
  obtain ⟨⟨k, hk⟩, -⟩ := hr.entered series 0 value hvalue
  have hcell := hr.cells series k 0 hk (by decide)
  obtain ⟨cell, hcell, -⟩ := Option.map_eq_some_iff.mp (hcell.trans hvalue)
  have hlength : 8 ≤ ((d.currentTable .total).rowOf k 0).length := by
    have hkey := FactKey.length_of_decode
      (FactKey.decode_encode ((d.currentTable .total).keyOf k 0))
    show 8 ≤ (Salting.bucketOf _ _ :: FactKey.encode _).length
    rw [List.length_cons, hkey]
    omega
  obtain ⟨row, hrow, -⟩ := Table.exists_mem_scan hcell (FactTable.contains_allRows hlength)
  have hkeys : ∀ row ∈ T.scan FactTable.allRows, ∃ e, FactKey.decode row.key = .error e := by
    intro row hrow
    obtain ⟨k, time, hkey⟩ := FactTable.exists_rowOf hr.laid hrow
    rw [hkey]
    exact FactKey.decode_distribute _ _
  exact FactTable.seriesPoints_fails (t := d.legacyTable .total) hr.ready
    (legacyTable_eq hstems .total ▸ hr.holds) rfl rfl hk.1 (List.ne_nil_of_mem hrow) hkeys range

theorem not_reopensAlike {config : Config} {cache : Nat} (hd : ofConfig config cache = .ok d)
    (happart : config.StringsApart) (hstems : config.legacyFactStem = config.factStem) :
    ¬ ReopensAlike config := by
  intro h
  obtain rfl := (sound_ofConfig hd).2
  obtain ⟨hopened, rfl, -⟩ := of_ofConfig hd hd
  have hnames := entitiesApart happart
  have hstrings := entityTable_ne_legacyTable happart
  have hempty : ∀ id, ({} : Catalog).find? id = none := fun _ => rfl
  -- a counter is written to the new tables
  let m : Metric := ⟨.counter, "m", 0, 1, .empty⟩
  have hcurrent : ∀ r, ((d.openStore {}).1.table r).current = d.currentTable r := fun r =>
    (named_openStore (sound_ofConfig hd).1 {} r).current
  have hkeeps : d.Keeps ⟨(d.openStore {}).2.2, .empty⟩ fun _ _ _ => none :=
    keeps_openStore hstrings hopened hempty rfl
  have hroom : d.entityTable.Room m.series.strings ⟨(d.openStore {}).2.2, .empty⟩ :=
    .of_empty (holds_openStore hstrings hopened hempty .empty .total).1 (fun _ => rfl) (by decide)
  have hone : ∀ m' ∈ [m], m'.defect? = none ∧ m'.series.strings ⊆ m.series.strings := by
    intro m' hm'
    cases List.mem_singleton.mp hm'
    exact ⟨rfl, fun _ he => he⟩
  obtain ⟨s, hwrite⟩ := hkeeps.addAll_run hnames hcurrent hroom (fun m' hm' => (hone m' hm').1)
    fun m' hm' => (hone m' hm').2
  have hkept := hkeeps.addAll hnames hcurrent hwrite
  have hcalls : ((d.openStore {}).1.serveAll [.write (.add m)]).run answer
      ⟨(d.openStore {}).2.2, .empty⟩ = (.ok (), s) := by
    rw [← MetricStore.add_eq_addAll] at hwrite
    exact (Program.run_bind_of_ok hwrite).trans rfl
  have hvalue : ([m].map Change.write).foldl (Ledger.apply .total) (fun _ _ => none) m.series 0 =
      some 1 := by
    rw [List.map_singleton, List.foldl_cons, List.foldl_nil, Ledger.apply]
    exact if_pos ⟨rfl, rfl⟩
  have hmemory : (SortedMap.empty : SortedMap Nat EntityCache).get? d.cache = none := rfl
  obtain ⟨points, after, after', -, hquery⟩ :=
    h hd hd hempty rfl hcalls hmemory .total .empty "m" ⟨0, 0⟩
  -- the store that is opened again takes its current table for a legacy one too
  have hthere : (s.catalog.find? (d.legacyTable .total).table).isSome := by
    obtain ⟨T, hr⟩ := hkept .total
    obtain ⟨properties, hfind⟩ := hr.holds
    rw [legacyTable_eq hstems, hfind]
    rfl
  obtain ⟨T, hr⟩ := hkept.reopened d.cache hmemory .total
  obtain ⟨e, s', hfails⟩ := legacyTable_fails hstems hr hvalue ⟨0, 0⟩
  rw [MetricStore.query, bridged_openStore hopened hthere] at hquery
  simp only [MetricTable.query, MetricTable.seriesPoints, Program.bind_eq] at hquery
  obtain ⟨_, _, hpoints, -⟩ := Program.run_bind_ok hquery
  obtain ⟨_, _, hold, -⟩ := Program.run_bind_ok hpoints
  cases hfails.symm.trans hold

/-- Stores of settings that keep the strings apart are opened again alike if and only if the
two generations of tables have different names. -/
theorem reopensAlike_iff {config : Config} {cache : Nat} (hd : ofConfig config cache = .ok d)
    (happart : config.StringsApart) :
    ReopensAlike config ↔ config.legacyFactStem ≠ config.factStem :=
  ⟨fun h hstems => not_reopensAlike hd happart hstems h, reopensAlike happart⟩

theorem sample_reopensAlike_iff :
    ReopensAlike {} ∧ ¬ ReopensAlike { legacyFactStem := "metrics.v3.table" } := by
  have husual : ofConfig {} 0 = .ok (usual {}) := rfl
  have hequal : ofConfig { legacyFactStem := "metrics.v3.table" } 0 =
      .ok (usual { legacyFactStem := "metrics.v3.table" }) := rfl
  exact ⟨(reopensAlike_iff husual fun r => by cases r <;> decide +kernel).mpr (by decide),
    fun h => (reopensAlike_iff hequal fun r => by cases r <;> decide +kernel).mp h rfl⟩

/-- Strings that share a table with legacy buckets are deleted with these, so that only a
store that remembers their numbers finds anything. -/
theorem strings_deleted_as_buckets :
    let config : Config := { entityTable := "metrics.table.ts.1" }
    let d := usual config
    let first := (d.openStore {}).1
    let calls : List StoreCall :=
      [.write (.add ⟨.counter, "m", 60, 4, .empty⟩), .deleteBefore .second Int64.maxValue]
    let s := ((first.serveAll calls).run answer ⟨(d.openStore {}).2.2, .empty⟩).2
    let again := { d with cache := 1 }.openStore s.catalog
    ofConfig config 0 = .ok d ∧
      ((first.serveAll calls).run answer ⟨(d.openStore {}).2.2, .empty⟩).1.isOk ∧
      ((first.query .total .empty "m" ⟨0, 100⟩).run answer s).1.toOption = some [⟨0, 4⟩] ∧
      ((again.1.query .total .empty "m" ⟨0, 100⟩).run answer ⟨again.2.2, .empty⟩).1.toOption =
        some [] :=
  ⟨rfl, by decide +kernel⟩

end Datasets

end Rollup
