import Rollup.Proofs.Fact.Sparing
import Rollup.Proofs.Opening
import Rollup.Retention.Run

namespace Rollup

open Storage

theorem Clock.toInt_cutoff {clock : Clock} {window : Duration} (hnow : 0 ≤ clock.now.toInt)
    (hskew : clock.skew = .zero) (hwindow : window.seconds < 2 ^ 63) :
    (clock.cutoff window).toInt = clock.now.toInt - window.seconds := by
  have hzero : clock.skew.secondsWord = 0 := by rw [hskew]; rfl
  have hword : window.secondsWord.toInt = window.seconds := Int64.toInt_ofNat_of_lt hwindow
  have hhigh := clock.now.toInt_lt
  rw [cutoff, hzero, Int64.sub_zero, Int64.toInt_sub, hword,
    Int.bmod_eq_of_le (by omega) (by omega)]

namespace Retention

/-- A window whose cutoff lies no later than it should, or before the end of every bucket. -/
def Honest (clock : Clock) (r : Resolution) (window : Duration) : Prop :=
  window.seconds < 2 ^ 63 ∨ (clock.cutoff window).toInt < r.width.toInt

/-- The bucket of a time has not left the window. -/
def Inside (clock : Clock) (r : Resolution) (window : Duration) (time : Int64) : Prop :=
  clock.now.toInt - window.seconds < r.bucketStart time.toInt + r.width.toInt

/-- The buckets inside their windows hold what they held before. -/
def Kept (store : MetricStore) (clock : Clock) (config : Config) (s s' : Storage) : Prop :=
  ∀ r window, config.retentionFor r = some window → ∀ t ∈ (store.table r).generations,
    ∀ k time, 0 ≤ time.toInt → Inside clock r window time →
      (s'.contents t.table).cell? (t.rowOf k time) (t.columnOf time) =
        (s.contents t.table).cell? (t.rowOf k time) (t.columnOf time)

variable {d : Datasets} {store : MetricStore} {clock : Clock} {config : Config} {s s' : Storage}
  {r : Resolution} {window : Duration} {t : FactTable}

theorem not_expired_of_inside (hnow : 0 ≤ clock.now.toInt) (hskew : clock.skew = .zero)
    (hhonest : Honest clock t.resolution window) {time : Int64} (htime : 0 ≤ time.toInt)
    (hinside : Inside clock t.resolution window time) : ¬ t.Expired (clock.cutoff window) time := by
  rintro ⟨-, hend⟩
  rcases hhonest with hwindow | hcutoff
  · rw [Clock.toInt_cutoff hnow hskew hwindow] at hend
    rw [Inside] at hinside
    omega
  · have := t.resolution.bucketStart_nonneg htime
    omega

theorem kept_of_spares (hnamed : ∀ r, d.Named r (store.table r)) (hseparate : store.Separate)
    (hnow : 0 ≤ clock.now.toInt) (hskew : clock.skew = .zero)
    (hwindow : config.retentionFor r = some window) (hhonest : Honest clock r window)
    (ht : t ∈ (store.table r).generations) {s₀ : Storage}
    (hkept : Kept store clock config s₀ s) (hspares : t.Spares (clock.cutoff window) s s') :
    Kept store clock config s₀ s' := by
  intro r' window' hwindow' t' ht' k time htime hinside
  rw [← hkept r' window' hwindow' t' ht' k time htime hinside]
  by_cases heq : t'.table = t.table
  · obtain ⟨rfl, rfl⟩ := Datasets.eq_of_table_eq hnamed hseparate ht' ht heq
    obtain rfl : window' = window := Option.some.inj (hwindow'.symm.trans hwindow)
    have hr := (hnamed r').resolution ht'
    refine hspares.cells k time htime (not_expired_of_inside hnow hskew ?_ htime ?_)
    · rwa [hr]
    · rwa [hr]
  · rw [hspares.others _ heq]

theorem keeps_deleteBefore (hnamed : ∀ r, d.Named r (store.table r)) (hseparate : store.Separate)
    (hnow : 0 ≤ clock.now.toInt) (hskew : clock.skew = .zero)
    (hwindow : config.retentionFor r = some window) (hhonest : Honest clock r window)
    (s₀ : Storage) : (store.deleteBefore r (clock.cutoff window)).Keeps answer fallible
      (Kept store clock config s₀) fun _ => True := by
  have hone : ∀ t ∈ (store.table r).generations, (t.deleteBefore (clock.cutoff window)).Keeps
      answer fallible (Kept store clock config s₀) fun _ => True := fun t ht =>
    FactTable.deleteBefore_keeps ((hnamed r).rolled ht) fun _ _ hkept hspares =>
      kept_of_spares hnamed hseparate hnow hskew hwindow hhonest ht hkept hspares
  simp only [MetricStore.deleteBefore, MetricTable.deleteBefore]
  cases htable : store.table r with
  | direct current => exact hone current (by simp [htable, MetricTable.generations])
  | bridged legacy current =>
      refine Program.keeps_bind (hone legacy (by simp [htable, MetricTable.generations]))
        fun _ _ => ?_
      refine Program.keeps_bind (hone current (by simp [htable, MetricTable.generations]))
        fun _ _ => ?_
      exact Program.keeps_result fun _ _ => trivial

theorem mem_windows {w : Resolution × Duration} :
    w ∈ windows config ↔ config.retentionFor w.1 = some w.2 := by
  obtain ⟨r, window⟩ := w
  simp only [windows, List.mem_filterMap, Option.map_eq_some_iff, Prod.mk.injEq]
  constructor
  · rintro ⟨r', -, window', hwindow, rfl, rfl⟩
    exact hwindow
  · intro hwindow
    exact ⟨r, r.mem_all, window, hwindow, rfl, rfl⟩

theorem keeps_run (hnamed : ∀ r, d.Named r (store.table r)) (hseparate : store.Separate)
    (hnow : 0 ≤ clock.now.toInt) (hskew : clock.skew = .zero)
    (hhonest : ∀ r window, config.retentionFor r = some window → Honest clock r window)
    (s₀ : Storage) : (run store clock (windows config)).Keeps answer fallible
      (Kept store clock config s₀) fun _ => True := by
  have hdelete : (deleteExpired store clock (windows config)).Keeps answer fallible
      (Kept store clock config s₀) fun _ => True := by
    simp only [deleteExpired, Program.bind_eq, Program.pure_eq]
    refine Program.keeps_bind (Program.keeps_mapM (Q := fun _ => True) fun w hw => ?_)
      fun _ _ => Program.keeps_result fun _ _ => trivial
    have hwindow := mem_windows.mp hw
    exact keeps_deleteBefore hnamed hseparate hnow hskew hwindow (hhonest _ _ hwindow) s₀
  simp only [run, Program.bind_eq, Program.pure_eq]
  refine Program.keeps_bind (Program.keeps_attempt hdelete) fun outcome _ => ?_
  cases outcome with
  | ok removed => exact Program.keeps_result fun _ _ => trivial
  | error cause => exact Program.keeps_result fun _ _ => trivial

/-- All tables of a store are in reach and in order. -/
def InOrder (store : MetricStore) (s : Storage) : Prop :=
  ∀ r, ∀ t ∈ (store.table r).generations, ∃ T, s.Holds t.table T ∧ t.Laid T

/-- Nothing was added to any table. -/
def Shrinks (s s' : Storage) : Prop :=
  ∀ id row column, (s.contents id).cell? row column = none →
    (s'.contents id).cell? row column = none

/-- The cells of a table's ended buckets are gone. -/
def Cleared (t : FactTable) (cutoff : Int64) (s : Storage) : Prop :=
  ∀ k time, 0 ≤ time.toInt → t.Expired cutoff time →
    (s.contents t.table).cell? (t.rowOf k time) (t.columnOf time) = none

theorem Shrinks.trans {s'' : Storage} (h : Shrinks s s') (h' : Shrinks s' s'') : Shrinks s s'' :=
  fun id row column hnone => h' id row column (h id row column hnone)

theorem Cleared.shrinks {cutoff : Int64} (h : Cleared t cutoff s) (h' : Shrinks s s') :
    Cleared t cutoff s' :=
  fun k time htime hexpired => h' _ _ _ (h k time htime hexpired)

theorem InOrder.update (hnamed : ∀ r, d.Named r (store.table r)) (hseparate : store.Separate)
    (h : InOrder store s) (ht : t ∈ (store.table r).generations) {T : Table} (hlaid : t.Laid T) :
    InOrder store (s.update t.table T) := by
  intro r' t' ht'
  obtain ⟨U, hU, hlaid'⟩ := h r' t' ht'
  by_cases heq : t'.table = t.table
  · obtain ⟨-, rfl⟩ := Datasets.eq_of_table_eq hnamed hseparate ht' ht heq
    exact ⟨T, hU.update_self T, hlaid⟩
  · exact ⟨U, (holds_update_ne heq).mpr hU, hlaid'⟩

theorem deleteBefore_clears (hnamed : ∀ r, d.Named r (store.table r))
    (hseparate : store.Separate) (h : InOrder store s) (ht : t ∈ (store.table r).generations)
    (cutoff : Int64) : ∃ n s', (t.deleteBefore cutoff).run answer s = (.ok n, s') ∧
      InOrder store s' ∧ Shrinks s s' ∧ Cleared t cutoff s' := by
  obtain ⟨T, hT, hlaid⟩ := h r t ht
  have hrolled := (hnamed r).rolled ht
  obtain ⟨n, T', hrun, hwithout⟩ := FactTable.deleteBefore_run hrolled hT hlaid cutoff
  refine ⟨n, _, hrun,
    h.update hnamed hseparate ht (FactTable.laid_of_without hlaid hwithout), ?_, ?_⟩
  · intro id row column hnone
    rw [contents_update]
    split
    · next heq =>
      rw [heq, hT.contents_eq] at hnone
      rw [Option.eq_none_iff_forall_ne_some]
      intro cell hcell
      rw [((hwithout row column cell).mp hcell).1] at hnone
      cases hnone
    · exact hnone
  · intro k time htime hexpired
    rw [contents_update, if_pos rfl, Option.eq_none_iff_forall_ne_some]
    intro cell hcell
    exact ((hwithout _ _ cell).mp hcell).2 ((FactTable.doomed_iff hrolled htime).mpr hexpired)

theorem store_deleteBefore_clears (hnamed : ∀ r, d.Named r (store.table r))
    (hseparate : store.Separate) (h : InOrder store s) (r : Resolution) (cutoff : Int64) :
    ∃ n s', (store.deleteBefore r cutoff).run answer s = (.ok n, s') ∧ InOrder store s' ∧
      Shrinks s s' ∧ ∀ t ∈ (store.table r).generations, Cleared t cutoff s' := by
  simp only [MetricStore.deleteBefore, MetricTable.deleteBefore]
  cases htable : store.table r with
  | direct current =>
      obtain ⟨n, s', hrun, horder, hshrinks, hcleared⟩ :=
        deleteBefore_clears (r := r) (t := current) hnamed hseparate h
          (by simp [htable, MetricTable.generations]) cutoff
      refine ⟨n, s', hrun, horder, hshrinks, fun t ht => ?_⟩
      rw [MetricTable.generations, List.mem_singleton] at ht
      exact ht ▸ hcleared
  | bridged legacy current =>
      obtain ⟨old, s₁, hold, horder, hshrinks, hcleared⟩ :=
        deleteBefore_clears (r := r) (t := legacy) hnamed hseparate h
          (by simp [htable, MetricTable.generations]) cutoff
      obtain ⟨new, s₂, hnew, horder', hshrinks', hcleared'⟩ :=
        deleteBefore_clears (r := r) (t := current) hnamed hseparate horder
          (by simp [htable, MetricTable.generations]) cutoff
      refine ⟨old + new, s₂, ?_, horder', hshrinks.trans hshrinks', fun t ht => ?_⟩
      · simp only [Program.bind_eq, Program.pure_eq]
        rw [Program.run_bind_of_ok hold, Program.run_bind_of_ok hnew]
        rfl
      · simp only [MetricTable.generations, List.mem_cons, List.not_mem_nil, or_false] at ht
        rcases ht with rfl | rfl
        · exact hcleared.shrinks hshrinks'
        · exact hcleared'

theorem deletes_clear (hnamed : ∀ r, d.Named r (store.table r)) (hseparate : store.Separate)
    (h : InOrder store s) (clock : Clock) (ws : List (Resolution × Duration)) :
    ∃ counts s', (ws.mapM fun w => store.deleteBefore w.1 (clock.cutoff w.2)).run answer s =
        (.ok counts, s') ∧ Shrinks s s' ∧
      ∀ w ∈ ws, ∀ t ∈ (store.table w.1).generations, Cleared t (clock.cutoff w.2) s' := by
  induction ws generalizing s with
  | nil => exact ⟨[], s, rfl, fun _ _ _ h => h, by simp⟩
  | cons w ws ih =>
      obtain ⟨n, s₁, hfirst, horder, hshrinks, hcleared⟩ :=
        store_deleteBefore_clears hnamed hseparate h w.1 (clock.cutoff w.2)
      obtain ⟨counts, s₂, hrest, hshrinks', hcleared'⟩ := ih horder
      refine ⟨n :: counts, s₂, ?_, hshrinks.trans hshrinks', List.forall_mem_cons.mpr
        ⟨fun t ht => (hcleared t ht).shrinks hshrinks', hcleared'⟩⟩
      simp only [List.mapM_cons, Program.bind_eq, Program.pure_eq]
      rw [Program.run_bind_of_ok hfirst, Program.run_bind_of_ok hrest]
      rfl

theorem deleteExpired_clears (hnamed : ∀ r, d.Named r (store.table r))
    (hseparate : store.Separate) (h : InOrder store s) (clock : Clock) (config : Config) :
    ∃ n s', (deleteExpired store clock (windows config)).run answer s = (.ok n, s') ∧
      ∀ r window, config.retentionFor r = some window → ∀ t ∈ (store.table r).generations,
        Cleared t (clock.cutoff window) s' := by
  obtain ⟨counts, s', hrun, -, hcleared⟩ :=
    deletes_clear hnamed hseparate h clock (windows config)
  refine ⟨counts.foldr (· + ·) 0, s', ?_, fun r window hwindow =>
    hcleared (r, window) (mem_windows.mpr hwindow)⟩
  simp only [deleteExpired, Program.bind_eq, Program.pure_eq]
  rw [Program.run_bind_of_ok hrun]
  rfl

theorem run_eq_mapError {σ : Type} (handle : Handler interface σ)
    (ws : List (Resolution × Duration)) (x : σ) :
    (run store clock ws).run handle x =
      (((deleteExpired store clock ws).run handle x).1.mapError .schedulingFailure,
        ((deleteExpired store clock ws).run handle x).2) := by
  simp only [run, Program.bind_eq, Program.pure_eq]
  rw [Program.run_bind_of_ok (Program.run_attempt ..)]
  cases ((deleteExpired store clock ws).run handle x).1 <;> rfl

theorem run_clears (hnamed : ∀ r, d.Named r (store.table r)) (hseparate : store.Separate)
    (h : InOrder store s) (clock : Clock) (hwindow : config.retentionFor r = some window)
    (ht : t ∈ (store.table r).generations) :
    Cleared t (clock.cutoff window) ((run store clock (windows config)).run answer s).2 := by
  obtain ⟨n, s', hdelete, hcleared⟩ := deleteExpired_clears hnamed hseparate h clock config
  rw [run_eq_mapError, hdelete]
  exact hcleared r window hwindow t ht

def planted (store : MetricStore) (id : TableId) (T : Table) : Storage where
  catalog.tables := .ofList <| (Resolution.all.flatMap fun r => (store.table r).generations).map
    fun t => (t.table, ⟨{}, if t.table = id then T else .empty, true⟩)

theorem planted_holds (ht : t ∈ (store.table r).generations) (id : TableId) (T : Table) :
    (planted store id T).Holds t.table (if t.table = id then T else .empty) := by
  refine ⟨{}, ?_⟩
  have hfind : ∀ l : List FactTable, t ∈ l → Entries.find t.table (l.map fun t =>
      (t.table, (⟨{}, if t.table = id then T else .empty, true⟩ : StoredTable))) =
        some ⟨{}, if t.table = id then T else .empty, true⟩ := by
    intro l hl
    induction l with
    | nil => cases hl
    | cons u l ih =>
        by_cases heq : t.table = u.table
        · rw [List.map_cons, heq, Entries.find_cons_self]
        · rw [List.map_cons, Entries.find_cons_ne heq]
          refine ih ((List.mem_cons.mp hl).resolve_left ?_)
          rintro rfl
          exact heq rfl
  simp only [planted, Catalog.find?, SortedMap.get?_ofList, ← List.map_reverse]
  exact hfind _ (List.mem_reverse.mpr (List.mem_flatMap.mpr ⟨r, r.mem_all, ht⟩))

theorem planted_inOrder {T : Table} (hnamed : ∀ r, d.Named r (store.table r))
    (hseparate : store.Separate) (ht : t ∈ (store.table r).generations) (hlaid : t.Laid T) :
    InOrder store (planted store t.table T) := by
  intro r' t' ht'
  refine ⟨_, planted_holds ht' t.table T, ?_⟩
  split
  · next heq =>
    obtain ⟨-, rfl⟩ := Datasets.eq_of_table_eq hnamed hseparate ht' ht heq
    exact hlaid
  · exact t'.laid_empty

theorem exists_not_kept (hnamed : ∀ r, d.Named r (store.table r)) (hseparate : store.Separate)
    (hwindow : config.retentionFor r = some window) (hdishonest : ¬ Honest clock r window) :
    ∃ s, ¬ Kept store clock config s ((run store clock (windows config)).run answer s).2 := by
  simp only [Honest, not_or, Nat.not_lt, Int.not_lt] at hdishonest
  obtain ⟨t, ht⟩ : ∃ t, t ∈ (store.table r).generations := by
    rcases hnamed r with h | h <;> rw [h] <;> exact ⟨_, List.mem_cons_self ..⟩
  let k : SeriesNumbers := ⟨0, []⟩
  let T := Table.empty.setCell (t.rowOf k 0) (t.columnOf 0) (some (Bytes.ofInt64 0))
  have hlaid : t.Laid T := by
    intro row column cell hcell
    rw [Table.cell?_setCell] at hcell
    split at hcell
    · next heq =>
      exact ⟨k, 0, 0, Int.le_refl 0, heq.1, heq.2, (Option.some.inj hcell).symm⟩
    · cases hcell
  have hstart : r.bucketStart (0 : Int64).toInt = 0 := by
    cases r <;> decide
  have hexpires : r.expires = true := by
    simp only [Config.retentionFor] at hwindow
    split at hwindow
    · next h => exact h
    · cases hwindow
  have hr := (hnamed r).resolution ht
  refine ⟨planted store t.table T, fun hkept => ?_⟩
  have hcleared := run_clears hnamed hseparate
    (planted_inOrder hnamed hseparate ht hlaid) clock hwindow ht k 0 (Int.le_refl 0)
    ⟨by rw [hr]; exact hexpires, by rw [hr, hstart]; omega⟩
  have hhigh := clock.now.toInt_lt
  have hpos := r.width_pos
  rw [hkept r window hwindow t ht k 0 (Int.le_refl 0) (by rw [Inside, hstart]; omega),
    (planted_holds ht t.table T).contents_eq, if_pos rfl, Table.cell?_setCell] at hcleared
  simp at hcleared

/-- Retention keeps what is inside its windows, whatever the tables hold and whichever
requests fail, exactly as long as no cutoff wraps to one that reaches a bucket. -/
theorem run_keeps_window_iff {cache : Nat} (hd : Datasets.ofConfig config cache = .ok d)
    (c : Catalog) (hseparate : (d.openStore c).1.Separate) (hnow : 0 ≤ clock.now.toInt)
    (hskew : clock.skew = .zero) :
    (∀ s hows, Kept (d.openStore c).1 clock config s
      ((run (d.openStore c).1 clock (windows config)).steps answer fallible s hows).2) ↔
    ∀ r window, config.retentionFor r = some window → Honest clock r window := by
  have hnamed := fun r => Datasets.named_openStore (Datasets.sound_ofConfig hd).1 c r
  constructor
  · intro hkept r window hwindow
    refine Classical.byContradiction fun hdishonest => ?_
    obtain ⟨s, hlost⟩ := exists_not_kept hnamed hseparate hwindow hdishonest
    obtain ⟨n, hsteps⟩ := Program.exists_steps_eq_run answer fallible
      (run (d.openStore c).1 clock (windows config)) s
    have := hkept s (List.replicate n .served)
    rw [hsteps] at this
    exact hlost this
  · intro hhonest s hows
    exact Program.inv_steps (keeps_run hnamed hseparate hnow hskew hhonest s)
      (fun _ _ _ _ _ _ _ _ _ => rfl) hows

def endless : Config := { retention := .singleton .second (.ofSeconds (2 ^ 64 - 1)) }

/-- The cutoff of an endless window comes after now, and even the newest bucket goes. -/
theorem endless_not_kept :
    Datasets.ofConfig endless 0 = .ok (.usual endless) ∧
      ¬ ∀ s hows, Kept ((Datasets.usual endless).openStore {}).1 ⟨1000, .zero⟩ endless s
        ((run ((Datasets.usual endless).openStore {}).1 ⟨1000, .zero⟩ (windows endless)).steps
          answer fallible s hows).2 := by
  have hd : Datasets.ofConfig endless 0 = .ok (.usual endless) := rfl
  refine ⟨hd, fun hkept => ?_⟩
  have hseparate : ((Datasets.usual endless).openStore {}).1.Separate :=
    Datasets.separate_of_stem_ne (by decide)
      fun r => Datasets.named_openStore (Datasets.sound_ofConfig hd).1 {} r
  have hhonest := (run_keeps_window_iff hd {} hseparate (by decide) rfl).mp hkept
    .second (.ofSeconds (2 ^ 64 - 1)) (by decide +kernel)
  rcases hhonest with h | h
  · revert h
    decide +kernel
  · revert h
    decide +kernel

def shared : Config :=
  { factStem := "x", legacyFactStem := "x", buckets := 1, defaultRoll := 10
    retention := .singleton .second (.ofSeconds 100) }

def sharedDatasets : Datasets :=
  { config := shared, salting := ⟨1, by decide, by decide⟩, cache := 0 }

/-- A table that is opened as both generations loses a bucket inside its window: its salted
rows lie before the range of unsalted ones that a cutoff spares. -/
theorem shared_not_kept :
    let store := (sharedDatasets.openStore (({} : Catalog).create (.system "x.ts.1") {})).1
    let t := sharedDatasets.currentTable .second
    let s := planted store t.table (Table.empty.setCell (t.rowOf ⟨1, []⟩ 990) (t.columnOf 990)
      (some (Bytes.ofInt64 5)))
    Datasets.ofConfig shared 0 = .ok sharedDatasets ∧ ¬ Kept store ⟨1000, .zero⟩ shared s
      ((run store ⟨1000, .zero⟩ (windows shared)).run answer s).2 := by
  intro store t s
  refine ⟨rfl, fun hkept => ?_⟩
  have hlost := hkept .second (.ofSeconds 100) (by decide +kernel) t (by decide +kernel)
    ⟨1, []⟩ 990 (by decide) (by rw [Inside]; decide +kernel)
  revert hlost
  decide +kernel

end Retention

end Rollup
