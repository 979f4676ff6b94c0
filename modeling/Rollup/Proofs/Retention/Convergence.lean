import Rollup.Proofs.Retention.Outages
import Rollup.Proofs.Store.Reopening

/-!
Retention converges. A later write may give a bucket that was removed too early a value that it
has nowhere else; such a bucket has ended, and stays out of the comparison (`Parallel`) until a
run that ends well removes it on its part.
-/

namespace Rollup

open Storage

namespace Clock

variable {clock clock' : Clock} {window : Duration}

/-- The cutoff of a window is where exact arithmetic puts it. -/
def Exact (clock : Clock) (window : Duration) : Prop :=
  (clock.cutoff window).toInt = clock.now.toInt - window.seconds - clock.skew.seconds

theorem exact_of_lt (hnow : 0 ≤ clock.now.toInt)
    (hwindow : window.seconds + clock.skew.seconds < 2 ^ 63) : clock.Exact window := by
  have hword : window.secondsWord.toInt = window.seconds := Int64.toInt_ofNat_of_lt (by omega)
  have hskew : clock.skew.secondsWord.toInt = clock.skew.seconds :=
    Int64.toInt_ofNat_of_lt (by omega)
  have hhigh := clock.now.toInt_lt
  have hfirst : (clock.now.toInt - window.seconds).bmod (2 ^ 64) =
      clock.now.toInt - window.seconds := Int.bmod_eq_of_le (by omega) (by omega)
  rw [Exact, cutoff, Int64.toInt_sub, Int64.toInt_sub, hword, hskew, hfirst,
    Int.bmod_eq_of_le (by omega) (by omega)]

theorem cutoff_le (h : clock.Exact window) (h' : clock'.Exact window)
    (hskew : clock.skew = clock'.skew) (hnow : clock.now.toInt ≤ clock'.now.toInt) :
    (clock.cutoff window).toInt ≤ (clock'.cutoff window).toInt := by
  rw [h, h', hskew]
  omega

end Clock

namespace Retention

inductive Episode where
  | write (call : WriteCall)
  | run (clock : Clock) (outages : List (Option Error))

namespace Episode

def isWrite : Episode → Bool
  | write _ => true
  | run .. => false

def clock? : Episode → Option Clock
  | write _ => none
  | run clock _ => some clock

def after (store : MetricStore) (config : Config) (s : Storage) : Episode → Option Storage
  | write call =>
    match (store.perform call).run answer s with
    | (.ok (), s) => some s
    | (.error _, _) => none
  | run clock outages => some (runThrough store clock config outages s).2.storage

end Episode

def after (store : MetricStore) (config : Config) (episodes : List Episode) (s : Storage) :
    Option Storage :=
  episodes.foldlM (Episode.after store config) s

def clocks (episodes : List Episode) : List Clock := episodes.filterMap Episode.clock?

/-- The bucket of a time was outside its window by one of some clocks. -/
def Outside (config : Config) (clocks : List Clock) (t : FactTable) (time : Int64) : Prop :=
  ∃ clock ∈ clocks, ∃ window, config.retentionFor t.resolution = some window ∧
    t.Expired (clock.cutoff window) time

/-- Two histories of a store have gone alike but for buckets outside their windows. -/
structure Parallel (store : MetricStore) (config : Config) (clocks : List Clock)
    (x y : Storage) : Prop where
  caches : x.caches = y.caches
  order : InOrder store x
  order' : InOrder store y
  others : ∀ id, ¬ Windowed store config id → x.catalog.find? id = y.catalog.find? id
  cells : ∀ r, ∀ t ∈ (store.table r).generations, ∀ k time, 0 ≤ time.toInt →
    ¬ Outside config clocks t time →
      (x.contents t.table).cell? (t.rowOf k time) (t.columnOf time) =
        (y.contents t.table).cell? (t.rowOf k time) (t.columnOf time)

variable {d : Datasets} {store : MetricStore} {clock : Clock} {config : Config}
  {past : List Clock} {s x x' y : Storage} {u : Unsteady} {r : Resolution} {t : FactTable} {m : Metric}
  {ms : List Metric} {episodes : List Episode}

theorem Parallel.refl (h : InOrder store s) : Parallel store config past s s :=
  ⟨rfl, h, h, fun _ _ => rfl, fun _ _ _ _ _ _ _ => rfl⟩

section Writes

variable (hnamed : ∀ r, d.Named r (store.table r)) (hseparate : store.Separate)
  (hstrings : ∀ r, ∀ t ∈ (store.table r).generations, t.table ≠ d.entityTable.table)

theorem Parallel.aside (h : Parallel store config past x y) {id : TableId}
    (hid : ∀ r, ∀ t ∈ (store.table r).generations, t.table ≠ id) (op : TableOp) :
    (answer (.table id op) x).1 = (answer (.table id op) y).1 ∧
      Parallel store config past (answer (.table id op) x).2 (answer (.table id op) y).2 := by
  have hother : ∀ {id'}, id' ≠ id → ∀ op', Request.table id op ≠ .table id' op' := by
    rintro id' hne op' ⟨⟩
    exact hne rfl
  have horder : ∀ {s}, InOrder store s → InOrder store (answer (.table id op) s).2 := by
    intro s hs r t ht
    obtain ⟨T, hT, hlaid⟩ := hs r t ht
    exact ⟨T, holds_answer (hother (hid r t ht)) hT, hlaid⟩
  obtain ⟨hsame, hfind⟩ := answer_table_congr (h.others id fun ⟨r, _, _, t, ht, htable⟩ =>
    hid r t ht htable) op
  refine ⟨hsame, h.caches, horder h.order, horder h.order', fun id' hid' => ?_,
    fun r t ht k time htime hinside => ?_⟩
  · by_cases heq : id' = id
    · rw [heq]
      exact hfind
    · have hkept : ∀ id'' op', Request.table id op = .table id'' op' → id' ≠ id'' := by
        rintro id'' op' ⟨⟩
        exact heq
      rw [find?_answer hkept, find?_answer hkept]
      exact h.others id' hid'
  · rw [contents_answer (hother (hid r t ht)), contents_answer (hother (hid r t ht))]
    exact h.cells r t ht k time htime hinside

include hnamed hseparate

theorem Parallel.entered (h : Parallel store config past x y)
    (ht : t ∈ (store.table r).generations) (htime : 0 ≤ m.timestamp.toInt) (k : SeriesNumbers) :
    Parallel store config past (x.update t.table (t.entered m k (x.contents t.table)))
      (y.update t.table (t.entered m k (y.contents t.table))) := by
  have horder : ∀ {s}, InOrder store s →
      InOrder store (s.update t.table (t.entered m k (s.contents t.table))) := by
    intro s hs
    obtain ⟨T, hT, hlaid⟩ := hs r t ht
    rw [hT.contents_eq]
    exact hs.update hnamed hseparate ht (hlaid.entered htime k)
  refine ⟨h.caches, horder h.order, horder h.order', fun id hid => ?_,
    fun r' t' ht' k' time htime' hinside => ?_⟩
  · have hfind := h.others id hid
    by_cases heq : id = t.table
    · have htable : x.catalog.table id = y.catalog.table id := by
        rw [Catalog.table, hfind, Catalog.table]
      simp only [update, Catalog.find?_put, contents, ← heq, htable, if_true]
    · rw [find?_update heq, find?_update heq]
      exact hfind
  · have hcell := h.cells r' t' ht' k' time htime' hinside
    rw [contents_update, contents_update]
    split
    · next heq =>
      obtain ⟨-, rfl⟩ := Datasets.eq_of_table_eq hnamed hseparate ht' ht heq
      rw [FactTable.entered, FactTable.entered, Table.cell?_setCell, Table.cell?_setCell]
      -- The new cell comes from the old one, so it is the same where that was.
      split
      · next hplace => rw [← hplace.1, ← hplace.2, hcell]
      · exact hcell
    · exact hcell

include hstrings

theorem Parallel.answer (hvalid : ∀ m ∈ ms, m.defect? = none) {q : Storage.Request}
    (hq : store.Asks ms q) (h : Parallel store config past x y) :
    (Storage.answer q x).1 = (Storage.answer q y).1 ∧
      Parallel store config past (Storage.answer q x).2 (Storage.answer q y).2 := by
  obtain ⟨r, m, hm, hq⟩ := hq
  have ht : (store.table r).current ∈ (store.table r).generations := by
    cases store.table r <;> simp [MetricTable.generations, MetricTable.current]
  generalize (store.table r).current = t at ht hq
  rcases hq with hq | ⟨k, rfl⟩
  · cases q with
    | known cache e =>
        refine ⟨?_, h⟩
        simp only [Storage.answer, memory, h.caches]
    | remember cache e number =>
        refine ⟨rfl, ?_, h.order, h.order', h.others, h.cells⟩
        simp only [Storage.answer, h.caches]
    | table id op =>
        refine h.aside (fun r' t' ht' => ?_) op
        have hentities : t.entities = d.entityTable := by
          rcases (hnamed r).generations ht with rfl | rfl <;> rfl
        rw [hq.1, hentities]
        exact hstrings r' t' ht'
  · have hserved : ∀ {s}, InOrder store s → ∃ a, Storage.answer (.table t.table (t.entry m k)) s =
        (.ok a, s.update t.table (t.entered m k (s.contents t.table))) := by
      intro s hs
      obtain ⟨T, hT, hlaid⟩ := hs r t ht
      obtain ⟨a, hperform⟩ := t.perform_entry m k fun cell hcell =>
        hlaid.words _ _ cell (t.length_columnOf _) hcell
      rw [hT.contents_eq]
      exact ⟨a, run_perform (t.entry m k) hT hperform⟩
    obtain ⟨a, hx⟩ := hserved h.order
    obtain ⟨b, hy⟩ := hserved h.order'
    have hunit : a = b := by
      obtain ⟨kind, name, timestamp, value, tags⟩ := m
      cases kind <;> rfl
    rw [hx, hy, hunit]
    exact ⟨rfl, h.entered hnamed hseparate ht (Metric.timestamp_nonneg (hvalid m hm)) k⟩

theorem Parallel.write {call : WriteCall} (h : Parallel store config past x y)
    (hrun : (store.perform call).run Storage.answer x = (.ok (), x')) :
    ∃ y', (store.perform call).run Storage.answer y = (.ok (), y') ∧
      Parallel store config past x' y' := by
  rw [store.perform_eq] at hrun ⊢
  -- A value is refused before anything is written, so here all have a time of this era.
  have hvalid : ∀ m ∈ call.values, m.defect? = none := by
    obtain ⟨_, _, hvalidated, -⟩ := Program.run_bind_ok hrun
    refine Classical.byContradiction fun hdefect => ?_
    obtain ⟨_, _, _, _, herror⟩ := MetricStore.validateAll_eq_error hdefect
    rw [herror] at hvalidated
    cases hvalidated
  obtain ⟨hsame, hnext⟩ := (store.addAll_only call.values).run_rel
    (fun q _ _ hq h => h.answer hnamed hseparate hstrings hvalid hq) h
  rw [hrun] at hsame hnext
  exact ⟨((store.addAll call.values).run Storage.answer y).2, Prod.ext hsame.symm rfl, hnext⟩

end Writes

theorem Outside.append {time : Int64} {later : List Clock} :
    Outside config (past ++ later) t time ↔
      Outside config past t time ∨ Outside config later t time := by
  simp only [Outside, List.mem_append, or_and_right, exists_or]

theorem Parallel.swept (hnamed : ∀ r, d.Named r (store.table r)) (hseparate : store.Separate)
    (h : Parallel store config past x y) (hswept : Swept store clock config x u) :
    Parallel store config (past ++ [clock]) u.storage y := by
  refine ⟨hswept.caches.trans h.caches, hswept.order, h.order',
    fun id hid => (hswept.others id hid).trans (h.others id hid),
    fun r t ht k time htime hinside => ?_⟩
  rw [Outside.append, not_or] at hinside
  rw [← h.cells r t ht k time htime hinside.1]
  cases hwindow : config.retentionFor r with
  | none =>
      have hid : ¬ Windowed store config t.table := by
        rintro ⟨r', window, hwindow', t', ht', htable⟩
        obtain ⟨rfl, -⟩ := Datasets.eq_of_table_eq hnamed hseparate ht' ht htable
        cases hwindow.symm.trans hwindow'
      rw [contents, Catalog.table, hswept.others _ hid]
      rfl
  | some window =>
      refine (hswept.fades r window hwindow t ht).kept ((hnamed r).rolled ht) htime ?_
      intro hexpired
      refine hinside.2 ⟨clock, List.mem_singleton_self _, window, ?_, hexpired⟩
      rw [(hnamed r).resolution ht, hwindow]

theorem Parallel.after (hnamed : ∀ r, d.Named r (store.table r)) (hseparate : store.Separate)
    (hstrings : ∀ r, ∀ t ∈ (store.table r).generations, t.table ≠ d.entityTable.table)
    (h : Parallel store config past x y) (hafter : after store config episodes x = some x') :
    ∃ y', Retention.after store config (episodes.filter Episode.isWrite) y = some y' ∧
      Parallel store config (past ++ clocks episodes) x' y' := by
  induction episodes generalizing past x y with
  | nil =>
      cases hafter
      exact ⟨y, rfl, by rwa [clocks, List.filterMap_nil, List.append_nil]⟩
  | cons episode episodes ih =>
      simp only [Retention.after, List.foldlM_cons, Option.bind_eq_bind,
        Option.bind_eq_some_iff] at hafter
      obtain ⟨x₁, hfirst, hrest⟩ := hafter
      cases episode with
      | write call =>
          simp only [Episode.after] at hfirst
          split at hfirst
          · next hrun =>
            cases hfirst
            obtain ⟨y₁, hrun', h₁⟩ := h.write hnamed hseparate hstrings hrun
            obtain ⟨y', hafter', h'⟩ := ih h₁ hrest
            refine ⟨y', ?_, h'⟩
            rw [List.filter_cons_of_pos rfl, Retention.after, List.foldlM_cons, Episode.after, hrun']
            exact hafter'
          · cases hfirst
      | run clock outages =>
          cases hfirst
          have h₁ := h.swept hnamed hseparate (run_swept hnamed hseparate h.order clock config outages)
          obtain ⟨y', hafter', h'⟩ := ih h₁ hrest
          refine ⟨y', hafter', ?_⟩
          rwa [List.append_assoc] at h'

/-- What a run comes to, on tables that would be as in `s₀` if no run had been before it. -/
structure Converges (store : MetricStore) (config : Config) (clock : Clock)
    (outages : List (Option Error)) (s₀ s : Storage) (met : Except Error Nat × Unsteady) :
    Prop where
  /-- It ends well and has met no outage, or it reports the one that stopped it. -/
  outcome : (∃ n, met.1 = .ok n) ∧ Unsteady.Spared outages met.2.outages ∨
    ∃ e, met.1 = .error (.schedulingFailure e) ∧ Unsteady.Stopped outages e met.2.outages
  removed : ∀ r window, config.retentionFor r = some window →
    ∀ t ∈ (store.table r).generations,
      t.Fades (clock.cutoff window) (s.contents t.table) (met.2.storage.contents t.table)
  others : ∀ id, ¬ Windowed store config id →
    met.2.storage.catalog.find? id = s.catalog.find? id
  /-- The tables of all time are what the writes have made of them. -/
  total : ∀ t ∈ (store.table .total).generations,
    met.2.storage.catalog.find? t.table = s.catalog.find? t.table ∧
      s.catalog.find? t.table = s₀.catalog.find? t.table
  converged : (∃ n, met.1 = .ok n) → ∀ r window, config.retentionFor r = some window →
    ∀ t ∈ (store.table r).generations, (s₀.contents t.table).Without
      (t.Doomed (clock.cutoff window)) (met.2.storage.contents t.table)

theorem not_windowed_total (hnamed : ∀ r, d.Named r (store.table r))
    (hseparate : store.Separate) (config : Config)
    (ht : t ∈ (store.table .total).generations) : ¬ Windowed store config t.table := by
  rintro ⟨r, window, hwindow, t', ht', htable⟩
  obtain ⟨rfl, -⟩ := Datasets.eq_of_table_eq hnamed hseparate ht' ht htable
  cases hwindow

theorem Parallel.converged (hnamed : ∀ r, d.Named r (store.table r))
    (h : Parallel store config past x y) (hswept : Swept store clock config x u)
    {window : Duration} (hwindow : config.retentionFor r = some window)
    (ht : t ∈ (store.table r).generations) (hcleared : Cleared t (clock.cutoff window) u.storage)
    (hpast : ∀ earlier ∈ past,
      (earlier.cutoff window).toInt ≤ (clock.cutoff window).toInt) :
    (y.contents t.table).Without (t.Doomed (clock.cutoff window)) (u.storage.contents t.table) := by
  have hrolled := (hnamed r).rolled ht
  have hfades := hswept.fades r window hwindow t ht
  have hcells : ∀ k time, 0 ≤ time.toInt → ¬ t.Expired (clock.cutoff window) time →
      (u.storage.contents t.table).cell? (t.rowOf k time) (t.columnOf time) =
        (y.contents t.table).cell? (t.rowOf k time) (t.columnOf time) := by
    intro k time htime hkept
    rw [hfades.kept hrolled htime hkept]
    -- What was outside its window by an earlier clock is outside it by this one.
    refine h.cells r t ht k time htime ?_
    rintro ⟨earlier, hearlier, window', hwindow', hexpires, hend⟩
    rw [(hnamed r).resolution ht, hwindow] at hwindow'
    cases hwindow'
    exact hkept ⟨hexpires, hend.trans (hpast earlier hearlier)⟩
  obtain ⟨T, hT, hlaid⟩ := hswept.order r t ht
  obtain ⟨U, hU, hlaid'⟩ := h.order' r t ht
  rw [hU.contents_eq] at hcells ⊢
  intro row column cell
  constructor
  · intro hcell
    obtain ⟨k, time, value, htime, rfl, rfl, -⟩ := hlaid row column cell (hT.contents_eq ▸ hcell)
    have hkept : ¬ t.Expired (clock.cutoff window) time := by
      intro hexpired
      cases (hcleared k time htime hexpired).symm.trans hcell
    rw [FactTable.doomed_iff hrolled htime, ← hcells k time htime hkept]
    exact ⟨hcell, hkept⟩
  · rintro ⟨hcell, hdoomed⟩
    obtain ⟨k, time, value, htime, rfl, rfl, -⟩ := hlaid' row column cell hcell
    rw [FactTable.doomed_iff hrolled htime] at hdoomed
    rw [hcells k time htime hdoomed, hcell]

/-- Whatever has failed in the runs before, retention converges: the writes alone would have
succeeded too, and a run that ends well leaves what they have left inside the windows. A run
that fails reports its failure, and has removed nothing but buckets that have ended. -/
theorem run_converges {cache : Nat} (hd : Datasets.ofConfig config cache = .ok d) (c : Catalog)
    (hseparate : (d.openStore c).1.Separate) (happart : config.StringsApart)
    (horder : InOrder (d.openStore c).1 s)
    (hafter : after (d.openStore c).1 config episodes s = some x)
    (hclocks : ∀ earlier ∈ clocks episodes,
      earlier.skew = clock.skew ∧ earlier.now.toInt ≤ clock.now.toInt)
    (hexact : ∀ reading ∈ clock :: clocks episodes, ∀ r window,
      config.retentionFor r = some window → reading.Exact window)
    (outages : List (Option Error)) :
    ∃ s₀, after (d.openStore c).1 config (episodes.filter Episode.isWrite) s = some s₀ ∧
      Converges (d.openStore c).1 config clock outages s₀ x
        (runThrough (d.openStore c).1 clock config outages x) := by
  have hnamed := fun r => Datasets.named_openStore (Datasets.sound_ofConfig hd).1 c r
  have hstrings : ∀ r, ∀ t ∈ ((d.openStore c).1.table r).generations,
      t.table ≠ d.entityTable.table := by
    intro r t ht
    obtain ⟨-, rfl⟩ := Datasets.sound_ofConfig hd
    rcases (hnamed r).generations ht with rfl | rfl
    · exact (Datasets.entitiesApart happart r).symm
    · exact (Datasets.entityTable_ne_legacyTable happart r).symm
  generalize (d.openStore c).1 = store at *
  have hstart : Parallel store config [] s s := .refl horder
  obtain ⟨y, hwrites, hparallel⟩ := hstart.after hnamed hseparate hstrings hafter
  have hswept := run_swept hnamed hseparate hparallel.order clock config outages
  have hmet := run_met hnamed hseparate hparallel.order clock config outages
  refine ⟨y, hwrites, ?_, hswept.fades, hswept.others, fun t ht => ?_, ?_⟩
  · rcases hmet with ⟨n, hok, hspared, -⟩ | hstopped
    · exact .inl ⟨⟨n, hok⟩, hspared⟩
    · exact .inr hstopped
  · have hid := not_windowed_total hnamed hseparate config ht
    exact ⟨hswept.others _ hid, hparallel.others _ hid⟩
  · rintro ⟨n, hok⟩ r window hwindow t ht
    rcases hmet with ⟨_, _, _, hcleared⟩ | ⟨_, hfails, -⟩
    · refine hparallel.converged hnamed hswept hwindow ht (hcleared r window hwindow t ht) ?_
      intro earlier hearlier
      obtain ⟨hskew, hnow⟩ := hclocks earlier hearlier
      refine Clock.cutoff_le ?_ ?_ hskew hnow
      · exact hexact _ (List.mem_cons_of_mem _ hearlier) r window hwindow
      · exact hexact _ (List.mem_cons_self ..) r window hwindow
    · cases hok.symm.trans hfails

def bridgedCatalog : Catalog := ({} : Catalog).create (.system "metrics.table.ts.1") {}

def bridgedStore : MetricStore := ((Datasets.usual {}).openStore bridgedCatalog).1

def bridgedStorage : Storage := { catalog := ((Datasets.usual {}).openStore bridgedCatalog).2.2 }

/-- A run fails after it has removed a bucket, and a later write fills this bucket again. -/
def interrupted : List Episode :=
  [.write (.add ⟨.counter, "m", 60, 4, .empty⟩),
    .run ⟨1000000, .zero⟩ (List.replicate 20 none ++ [some (.storageUnavailable "down")]),
    .write (.add ⟨.counter, "m", 60, 3, .empty⟩)]

theorem bridgedStorage_inOrder : InOrder bridgedStore bridgedStorage := by
  have hblank : ∀ r, ∀ t ∈ (bridgedStore.table r).generations,
      bridgedStorage.Blank t.table = true := by
    intro r
    cases r <;> decide +kernel
  exact fun r t ht => ⟨.empty, holds_of_blank (hblank r t ht), t.laid_empty⟩

theorem sample_run_converges : ∃ x s₀, after bridgedStore {} interrupted bridgedStorage = some x ∧
    after bridgedStore {} (interrupted.filter Episode.isWrite) bridgedStorage = some s₀ ∧
    (∃ n, (runThrough bridgedStore ⟨1000000, .zero⟩ {} [] x).1 = .ok n) ∧
    Converges bridgedStore {} ⟨1000000, .zero⟩ [] s₀ x
      (runThrough bridgedStore ⟨1000000, .zero⟩ {} [] x) := by
  have hd : Datasets.ofConfig {} 0 = .ok (.usual {}) := rfl
  have hseparate : bridgedStore.Separate := Datasets.separate_of_stem_ne (by decide)
    fun r => Datasets.named_openStore (Datasets.sound_ofConfig hd).1 bridgedCatalog r
  have hclocks : ∀ earlier ∈ clocks interrupted,
      earlier.skew = .zero ∧ earlier.now.toInt ≤ (1000000 : Int64).toInt := by decide +kernel
  have hexact : ∀ reading ∈ (⟨1000000, .zero⟩ : Clock) :: clocks interrupted, ∀ r window,
      ({} : Config).retentionFor r = some window → reading.Exact window := by
    have hreadings : ∀ reading ∈ (⟨1000000, .zero⟩ : Clock) :: clocks interrupted,
        reading = ⟨1000000, .zero⟩ := by decide +kernel
    have hwindows : ∀ w ∈ windows {}, w.2.seconds + Duration.zero.seconds < 2 ^ 63 := by
      decide +kernel
    intro reading hreading r window hwindow
    rw [hreadings reading hreading]
    exact Clock.exact_of_lt (by decide) (hwindows (r, window) (mem_windows.mpr hwindow))
  have hafter : (after bridgedStore {} interrupted bridgedStorage).any (fun s =>
      (runThrough bridgedStore ⟨1000000, .zero⟩ {} [] s).1.isOk) = true := by decide +kernel
  rw [Option.any_eq_true] at hafter
  obtain ⟨x, hx, hok⟩ := hafter
  obtain ⟨s₀, hwrites, hconverges⟩ := run_converges hd bridgedCatalog hseparate
    (fun r => by cases r <;> decide +kernel) bridgedStorage_inOrder hx hclocks hexact []
  refine ⟨x, s₀, hx, hwrites, ?_, hconverges⟩
  cases hmet : (runThrough bridgedStore ⟨1000000, .zero⟩ {} [] x).1 with
  | ok n => exact ⟨n, rfl⟩
  | error e =>
      rw [hmet] at hok
      cases hok

end Retention

end Rollup
