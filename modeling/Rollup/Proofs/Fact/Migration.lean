import Rollup.Fact.Bridge
import Rollup.Proofs.Fact.Agreement
import Rollup.Proofs.Fact.History

namespace Rollup

open Storage Entity

namespace Ledger

/-- The values of one ledger, and where it has none those of another. -/
def atop (new old : Ledger) : Ledger := fun series start => (new series start).or (old series start)

variable {new old : Ledger} {r : Resolution} {m : Metric}

theorem atop_write (h : m.kind = .counter →
      old m.series (r.bucketStart m.timestamp.toInt) ≠ none →
        new m.series (r.bucketStart m.timestamp.toInt) ≠ none) :
    (new.apply r (.write m)).atop old = (new.atop old).apply r (.write m) := by
  funext series start
  simp only [atop, apply]
  by_cases heq : series = m.series ∧ start = r.bucketStart m.timestamp.toInt
  · obtain ⟨rfl, rfl⟩ := heq
    simp only [and_self, if_true, Option.some_or, Option.some.injEq]
    cases hkind : m.kind with
    | gauge => simp only [Metric.applied, hkind]
    | counter =>
        cases hnew : new m.series (r.bucketStart m.timestamp.toInt) with
        | some value => rfl
        | none =>
            cases hold : old m.series (r.bucketStart m.timestamp.toInt) with
            | none => rfl
            | some value => exact absurd hnew (h hkind (by simp [hold]))
  · simp only [if_neg heq]

theorem atop_expire (cutoff : Int64) :
    (new.apply r (.expire cutoff)).atop (old.apply r (.expire cutoff)) =
      (new.atop old).apply r (.expire cutoff) := by
  funext series start
  simp only [atop, apply]
  split <;> rfl

theorem none_atop (old : Ledger) : atop (fun _ _ => none) old = old := rfl

end Ledger

theorem SeriesPoints.Shows.union {points points' : SeriesPoints} {new old : Ledger} {E : Table}
    {inRange : Int64 → Prop} {filter : Tags} {metric : String}
    (h : points.Shows old E inRange filter metric)
    (h' : points'.Shows new E inRange filter metric) :
    SeriesPoints.Shows (SortedMap.union points points') (new.atop old) E inRange filter metric := by
  refine ⟨h.numbered, ?_, ?_⟩
  · intro series start v hv
    rcases Option.or_eq_some_iff.mp hv with hnew | ⟨-, hold⟩
    · exact h'.owned series start v hnew
    · exact h.owned series start v hold
  · intro key v
    rw [SortedMap.get?_union, Option.or_eq_some_iff, h'.get?_iff, h.get?_iff]
    constructor
    · rintro (⟨hrange, series, k, hk, htags, hname, hcarries, hv⟩ |
        ⟨hnone, hrange, series, k, hk, htags, hname, hcarries, hv⟩)
      · exact ⟨hrange, series, k, hk, htags, hname, hcarries, by rw [Ledger.atop, hv]; rfl⟩
      · refine ⟨hrange, series, k, hk, htags, hname, hcarries, ?_⟩
        cases hnew : new series key.2.toInt with
        | none => rw [Ledger.atop, hnew]; exact hv
        | some v' =>
            have hget := (h'.get?_iff key v').mpr
              ⟨hrange, series, k, hk, htags, hname, hcarries, hnew⟩
            rw [hnone] at hget
            cases hget
    · rintro ⟨hrange, series, k, hk, htags, hname, hcarries, hv⟩
      rcases Option.or_eq_some_iff.mp hv with hnew | ⟨hnew, hold⟩
      · exact .inl ⟨hrange, series, k, hk, htags, hname, hcarries, hnew⟩
      · refine .inr ⟨?_, hrange, series, k, hk, htags, hname, hcarries, hold⟩
        rw [Option.eq_none_iff_forall_ne_some]
        intro v' hget
        obtain ⟨-, series', k', hk', htags', hname', -, hv'⟩ := (h'.get?_iff key v').mp hget
        obtain rfl := h'.eq_of_tags hk' hk (hname'.trans hname.symm) (htags'.trans htags.symm)
        rw [hnew] at hv'
        cases hv'

namespace MetricTable

def perform (t : MetricTable) : Change → Work Unit
  | .write m => t.write m
  | .expire cutoff => do
      let _ ← t.deleteBefore cutoff

def performAll (t : MetricTable) : List Change → Work Unit
  | [] => return ()
  | change :: changes => do
      t.perform change
      t.performAll changes

end MetricTable

namespace FactTable

variable {t legacy current : FactTable} {s : Storage} {T : Table} {old new : Ledger}
  {strings : List Entity} {change : Change} {changes : List Change}

def Holding (t : FactTable) (s : Storage) (series : Series) (time : Int64) : Prop :=
  ∃ k, SeriesNumbered (s.contents t.entities.table) series k ∧
    (s.contents t.table).cell? (t.rowOf k time) (t.columnOf time) ≠ none

theorem Reflects.holding_iff (h : t.Reflects s T old) {series : Series} {time : Int64}
    (htime : 0 ≤ time.toInt) :
    t.Holding s series time ↔ old series (t.resolution.bucketStart time.toInt) ≠ none := by
  rw [Holding, h.holds.contents_eq]
  constructor
  · rintro ⟨k, hk, hcell⟩
    rw [← h.cells series k time hk htime]
    simpa using hcell
  · intro hvalue
    obtain ⟨value, hsome⟩ := Option.ne_none_iff_exists'.mp hvalue
    obtain ⟨⟨k, hk⟩, -⟩ := h.entered series _ value hsome
    refine ⟨k, hk, ?_⟩
    rw [← h.cells series k time hk htime] at hvalue
    simpa using hvalue

/-- Whenever a counter is written to a bucket that has a cell in the legacy table, it has
one in the current table too. -/
def Unmixed (legacy current : FactTable) (s : Storage) (changes : List Change) : Prop :=
  ∀ earlier m later, changes = earlier ++ .write m :: later → m.kind = .counter →
    let s' := (((MetricTable.bridged legacy current).performAll earlier).run answer s).2
    legacy.Holding s' m.series m.timestamp → current.Holding s' m.series m.timestamp

structure Generations (legacy current : FactTable) : Prop where
  rolled : legacy.Rolled
  rolled' : current.Rolled
  resolution : legacy.resolution = current.resolution
  entities : legacy.entities = current.entities
  table : legacy.table ≠ current.table
  apart : legacy.entities.table ≠ legacy.table
  apart' : current.entities.table ≠ current.table

theorem Generations.query_shows (hg : Generations legacy current) {U : Table}
    (hlegacy : legacy.Mirrors s T old) (hcurrent : current.Mirrors s U new) (filter : Tags)
    (metric : String) (range : TimeRange) :
    ∃ (points : SeriesPoints) (s' : Storage),
      ((MetricTable.bridged legacy current).query filter metric range).run answer s =
        (.ok points.sum, s') ∧ s'.catalog = s.catalog ∧
      points.Shows (new.atop old) (s.contents current.entities.table)
        (TakesIn current.resolution range) filter metric := by
  obtain ⟨points, s₁, hrun₁, hcatalog, hlegible, hshows₁⟩ :=
    hlegacy.seriesPoints_shows hg.rolled filter metric range
  rw [hg.entities, hg.resolution] at hshows₁
  rw [hg.entities] at hlegible
  obtain ⟨points', s₂, hrun₂, hcatalog', -, hshows₂⟩ :=
    (hcurrent.of_catalog_eq hlegible hcatalog).seriesPoints_shows hg.rolled' filter metric range
  have hcontents : s₁.contents current.entities.table = s.contents current.entities.table := by
    simp only [contents, hcatalog]
  rw [hcontents] at hshows₂
  refine ⟨SortedMap.union points points', s₂, ?_, hcatalog'.trans hcatalog,
    hshows₁.union hshows₂⟩
  simp only [MetricTable.query, MetricTable.seriesPoints, Program.bind_eq, Program.pure_eq,
    Program.bind_assoc]
  rw [Program.run_bind_of_ok hrun₁, Program.run_bind_of_ok hrun₂]
  rfl

/-- The ledgers of both generations, with numbers left for some strings. -/
structure Bridge (legacy current : FactTable) (strings : List Entity) (old new : Ledger)
    (s : Storage) : Prop where
  older : ∃ T, legacy.Reflects s T old
  newer : ∃ T, current.Reflects s T new
  room : current.entities.Room strings s

namespace Bridge

theorem write_run (hg : Generations legacy current) (h : Bridge legacy current strings old new s)
    {m : Metric} (hvalid : m.defect? = none) (hstrings : m.series.strings ⊆ strings) :
    ∃ s', (current.write m).run answer s = (.ok (), s') ∧
      Bridge legacy current strings old (new.apply current.resolution (.write m)) s' := by
  obtain ⟨T, hlegacy⟩ := h.older
  obtain ⟨U, hcurrent⟩ := h.newer
  obtain ⟨s', U', hrun, hcurrent', hroom, hadvances⟩ :=
    hcurrent.write_run hg.rolled' hg.apart' h.room hvalid hstrings
  exact ⟨s', hrun, ⟨T, hlegacy.beside hg.rolled hadvances hroom.ready hg.entities.symm hg.table
    hg.apart⟩, ⟨U', hcurrent'⟩, hroom⟩

theorem expire_run (hg : Generations legacy current)
    (h : Bridge legacy current strings old new s) (cutoff : Int64) :
    ∃ n s', ((MetricTable.bridged legacy current).deleteBefore cutoff).run answer s = (.ok n, s') ∧
      Bridge legacy current strings (old.apply current.resolution (.expire cutoff))
        (new.apply current.resolution (.expire cutoff)) s' := by
  obtain ⟨T, hlegacy⟩ := h.older
  obtain ⟨U, hcurrent⟩ := h.newer
  obtain ⟨n, s₁, T₁, hrun₁, hlegacy₁, hroom₁, hadvances₁⟩ :=
    hlegacy.expire_run hg.rolled hg.apart (hg.entities.symm ▸ h.room) cutoff
  have hcurrent₁ := hcurrent.beside hg.rolled' hadvances₁ hroom₁.ready hg.entities hg.table.symm
    hg.apart'
  rw [hg.entities] at hroom₁
  obtain ⟨n', s₂, U₂, hrun₂, hcurrent₂, hroom₂, hadvances₂⟩ :=
    hcurrent₁.expire_run hg.rolled' hg.apart' hroom₁ cutoff
  have hlegacy₂ := hlegacy₁.beside hg.rolled hadvances₂ hroom₂.ready hg.entities.symm hg.table
    hg.apart
  rw [hg.resolution] at hlegacy₂
  refine ⟨n + n', s₂, ?_, ⟨T₁, hlegacy₂⟩, ⟨U₂, hcurrent₂⟩, hroom₂⟩
  simp only [MetricTable.deleteBefore, Program.bind_eq, Program.pure_eq]
  rw [Program.run_bind_of_ok hrun₁, Program.run_bind_of_ok hrun₂]
  rfl

theorem perform_run (hg : Generations legacy current)
    (h : Bridge legacy current strings old new s) (hvalid : change.Valid)
    (hstrings : change.strings ⊆ strings)
    (hunmixed : ∀ m, change = .write m → m.kind = .counter →
      legacy.Holding s m.series m.timestamp → current.Holding s m.series m.timestamp) :
    ∃ s' old' new', ((MetricTable.bridged legacy current).perform change).run answer s =
        (.ok (), s') ∧ Bridge legacy current strings old' new' s' ∧
      new'.atop old' = (new.atop old).apply current.resolution change := by
  cases change with
  | write m =>
      obtain ⟨s', hrun, h'⟩ := h.write_run hg hvalid hstrings
      refine ⟨s', old, _, hrun, h', Ledger.atop_write fun hkind hold => ?_⟩
      obtain ⟨T, hlegacy⟩ := h.older
      obtain ⟨U, hcurrent⟩ := h.newer
      have htime := Metric.timestamp_nonneg hvalid
      rw [← hg.resolution, ← hlegacy.holding_iff htime] at hold
      exact (hcurrent.holding_iff htime).mp (hunmixed m rfl hkind hold)
  | expire cutoff =>
      obtain ⟨n, s', hrun, h'⟩ := h.expire_run hg cutoff
      refine ⟨s', _, _, ?_, h', Ledger.atop_expire cutoff⟩
      simp only [MetricTable.perform, Program.bind_eq, Program.pure_eq]
      rw [Program.run_bind_of_ok hrun]
      rfl

theorem performAll_run (hg : Generations legacy current)
    (h : Bridge legacy current strings old new s)
    (hvalid : ∀ change ∈ changes, change.Valid)
    (hstrings : ∀ change ∈ changes, change.strings ⊆ strings)
    (hunmixed : Unmixed legacy current s changes) :
    ∃ s' old' new', ((MetricTable.bridged legacy current).performAll changes).run answer s =
        (.ok (), s') ∧ Bridge legacy current strings old' new' s' ∧
      new'.atop old' = changes.foldl (Ledger.apply current.resolution) (new.atop old) := by
  induction changes generalizing s old new with
  | nil => exact ⟨s, old, new, rfl, h, rfl⟩
  | cons change changes ih =>
      obtain ⟨hvalid₁, hvalid⟩ := List.forall_mem_cons.mp hvalid
      obtain ⟨hstrings₁, hstrings⟩ := List.forall_mem_cons.mp hstrings
      obtain ⟨s₁, old₁, new₁, hfirst, h₁, hledger⟩ := h.perform_run hg hvalid₁ hstrings₁
        fun m hm hkind => hunmixed [] m changes (by rw [hm]; rfl) hkind
      have hunmixed₁ : Unmixed legacy current s₁ changes := by
        intro earlier m later hchanges hkind
        have hnext := hunmixed (change :: earlier) m later (by rw [hchanges]; rfl) hkind
        simp only [MetricTable.performAll, Program.bind_eq] at hnext
        rwa [Program.run_bind_of_ok hfirst] at hnext
      obtain ⟨s₂, old₂, new₂, hrest, h₂, hledger₂⟩ := ih h₁ hvalid hstrings hunmixed₁
      refine ⟨s₂, old₂, new₂, ?_, h₂, ?_⟩
      · simp only [MetricTable.performAll, Program.bind_eq]
        rw [Program.run_bind_of_ok hfirst, hrest]
      · rw [hledger₂, hledger, List.foldl_cons]

theorem query_shows (hg : Generations legacy current)
    (h : Bridge legacy current strings old new s) (filter : Tags) (metric : String)
    (range : TimeRange) :
    ∃ (points : SeriesPoints) (s' : Storage),
      ((MetricTable.bridged legacy current).query filter metric range).run answer s =
        (.ok points.sum, s') ∧
      points.Shows (new.atop old) (s.contents current.entities.table)
        (TakesIn current.resolution range) filter metric := by
  obtain ⟨T, hlegacy⟩ := h.older
  obtain ⟨U, hcurrent⟩ := h.newer
  obtain ⟨points, s', hrun, -, hshows⟩ :=
    hg.query_shows hlegacy.mirrors hcurrent.mirrors filter metric range
  exact ⟨points, s', hrun, hshows⟩

end Bridge

/-- After any valid changes to the legacy table and then to the view, every query of the
view yields what it yields of a single table that has received all of the changes. -/
theorem migration_invisible (r : Resolution) (asked asked' : Nat) (salting : Salting)
    (entities : EntityTable) (legacyId currentId : TableId) (hids : legacyId ≠ currentId)
    (hlegacy : entities.table ≠ legacyId) (hcurrent : entities.table ≠ currentId)
    (direct : FactTable) (hresolution : direct.resolution = r)
    (hroll : direct.roll = Place.roll r asked')
    (hdirect : direct.entities.table ≠ direct.table) (s d : Storage)
    (changes changes' : List Change) (hvalid : ∀ change ∈ changes ++ changes', change.Valid)
    (hroom : entities.Room ((changes ++ changes').flatMap Change.strings) s)
    (hroom' : direct.entities.Room ((changes ++ changes').flatMap Change.strings) d)
    (hold : s.Holds legacyId .empty) (hnew : s.Holds currentId .empty)
    (hempty : d.Holds direct.table .empty)
    (hunmixed : Unmixed (FactTable.legacy legacyId entities r asked)
      (FactTable.current currentId entities r asked salting)
      (((FactTable.legacy legacyId entities r asked).performAll changes).run answer s).2
        changes') :
    let legacy := FactTable.legacy legacyId entities r asked
    let view := MetricTable.bridged legacy (FactTable.current currentId entities r asked salting)
    ∃ s₁ s₂ d', (legacy.performAll changes).run answer s = (.ok (), s₁) ∧
      (view.performAll changes').run answer s₁ = (.ok (), s₂) ∧
      (direct.performAll (changes ++ changes')).run answer d = (.ok (), d') ∧
      ∀ filter metric range, ∃ points s₃ d'',
        (view.query filter metric range).run answer s₂ = (.ok points, s₃) ∧
          (direct.query filter metric range).run answer d' = (.ok points, d'') := by
  intro legacy view
  let current := FactTable.current currentId entities r asked salting
  have hg : Generations legacy current :=
    ⟨rolled_of_eq (show _ = Place.roll r asked from rfl),
      rolled_of_eq (show _ = Place.roll r asked from rfl), rfl, rfl, hids, hlegacy, hcurrent⟩
  have hstrings : ∀ change ∈ changes ++ changes',
      change.strings ⊆ (changes ++ changes').flatMap Change.strings :=
    fun change hmem e he => List.mem_flatMap.mpr ⟨change, hmem, he⟩
  obtain ⟨hvalid₁, hvalid₂⟩ := List.forall_mem_append.mp hvalid
  obtain ⟨hstrings₁, hstrings₂⟩ := List.forall_mem_append.mp hstrings
  obtain ⟨s₁, T₁, hrun₁, hreflects, hroom₁, hadvances⟩ :=
    (Reflects.fresh hroom.ready hold).performAll_run hg.rolled hlegacy hroom hvalid₁ hstrings₁
  have hbridge : Bridge legacy current ((changes ++ changes').flatMap Change.strings)
      (changes.foldl (Ledger.apply r) fun _ _ => none) (fun _ _ => none) s₁ :=
    ⟨⟨T₁, hreflects⟩, ⟨.empty, .fresh hroom₁.ready
      (hadvances.others _ _ hids.symm hcurrent.symm hnew)⟩, hroom₁⟩
  rw [hrun₁] at hunmixed
  obtain ⟨s₂, old, new, hrun₂, hbridge₂, hledger⟩ :=
    hbridge.performAll_run hg hvalid₂ hstrings₂ hunmixed
  have hrolled : direct.Rolled := rolled_of_eq (hroll.trans (by rw [hresolution]))
  obtain ⟨d', D, hrun₃, hdirect₃, -⟩ :=
    (Reflects.fresh hroom'.ready hempty).performAll_run hrolled hdirect hroom' hvalid hstrings
  refine ⟨s₁, s₂, d', hrun₁, hrun₂, hrun₃, fun filter metric range => ?_⟩
  obtain ⟨points, s₃, hquery, hshows⟩ := hbridge₂.query_shows hg filter metric range
  obtain ⟨points', d'', hquery', hshows'⟩ := hdirect₃.query_shows hrolled filter metric range
  rw [hledger, Ledger.none_atop] at hshows
  rw [hresolution, List.foldl_append] at hshows'
  exact ⟨points.sum, s₃, d'', hquery, hshows.sum_eq hshows' ▸ hquery'⟩

def oldTable : FactTable := FactTable.legacy ⟨"s", "f"⟩ ⟨⟨"s", "e"⟩, 0⟩ .minute 10

def newTable : FactTable := { sampleTable with table := ⟨"s", "g"⟩ }

def bridgeStorage : Storage :=
  { catalog := sampleStorage.catalog.create ⟨"s", "g"⟩ {} }

def earlierChanges : List Change := [.write ⟨.counter, "m", 50, 1, .empty⟩]

/-- A gauge replaces the value of the legacy table, and then a counter adds to it. -/
def laterChanges : List Change :=
  [.write ⟨.gauge, "m", 59, 5, .empty⟩, .write ⟨.counter, "m", 50, 2, .empty⟩]

theorem sample_unmixed : Unmixed oldTable newTable
    ((oldTable.performAll earlierChanges).run answer bridgeStorage).2 laterChanges := by
  intro earlier m later hchanges hkind
  match earlier, hchanges with
  | [], hchanges =>
      cases hchanges
      cases hkind
  | [_], hchanges =>
      cases hchanges
      exact fun _ => ⟨⟨1, []⟩, ⟨by decide +kernel, .nil⟩, by decide +kernel⟩
  | [_, _], hchanges => cases hchanges
  | _ :: _ :: _ :: _, hchanges => cases hchanges

theorem sample_migration :
    let s := ((oldTable.performAll earlierChanges).run answer bridgeStorage).2
    let view := MetricTable.bridged oldTable newTable
    let d := ((sampleTable.performAll (earlierChanges ++ laterChanges)).run answer sampleStorage).2
    ((view.query .empty "m" ⟨0, 600⟩).run answer
        ((view.performAll laterChanges).run answer s).2).1.toOption = some [⟨0, 7⟩] ∧
      ((sampleTable.query .empty "m" ⟨0, 600⟩).run answer d).1.toOption = some [⟨0, 7⟩] := by
  intro s view d
  have hview : ((view.query .empty "m" ⟨0, 600⟩).run answer
      ((view.performAll laterChanges).run answer s).2).1.toOption = some [⟨0, 7⟩] := by
    decide +kernel
  have hblank : ∀ id ∈ [⟨"s", "e"⟩, ⟨"s", "f"⟩, ⟨"s", "g"⟩], bridgeStorage.Holds id .empty :=
    fun id hid => holds_of_blank (by revert id; decide +kernel)
  have hblank' : ∀ id ∈ [⟨"s", "e"⟩, ⟨"s", "f"⟩], sampleStorage.Holds id .empty :=
    fun id hid => holds_of_blank (by revert id; decide +kernel)
  have hvalid : ∀ change ∈ earlierChanges ++ laterChanges, change.Valid := by
    simp only [earlierChanges, laterChanges, List.cons_append, List.nil_append,
      List.forall_mem_cons]
    exact ⟨rfl, rfl, rfl, by simp⟩
  obtain ⟨s₁, s₂, d', hrun₁, hrun₂, hrun₃, hqueries⟩ := migration_invisible .minute 10 10
    ⟨16, by decide, by decide⟩ ⟨⟨"s", "e"⟩, 0⟩ ⟨"s", "f"⟩ ⟨"s", "g"⟩ (by decide) (by decide)
    (by decide) sampleTable rfl rfl (by decide) bridgeStorage sampleStorage earlierChanges
    laterChanges hvalid (.of_empty (hblank _ (by decide)) (fun _ => rfl) (by decide))
    (.of_empty (hblank' _ (by decide)) (fun _ => rfl) (by decide)) (hblank _ (by decide))
    (hblank _ (by decide)) (hblank' _ (by decide)) sample_unmixed
  obtain ⟨points, s₃, d'', hquery, hquery'⟩ := hqueries .empty "m" ⟨0, 600⟩
  have hs : s = s₁ := congrArg Prod.snd hrun₁
  have hs₂ : ((view.performAll laterChanges).run answer s₁).2 = s₂ := congrArg Prod.snd hrun₂
  have hd : d = d' := congrArg Prod.snd hrun₃
  have hresult : ((view.query .empty "m" ⟨0, 600⟩).run answer s₂).1 = .ok points :=
    congrArg Prod.fst hquery
  rw [hs, hs₂, hresult] at hview
  rw [hs, hs₂, hresult, hd, hquery']
  exact ⟨hview, hview⟩

end FactTable

end Rollup
