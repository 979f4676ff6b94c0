import Rollup.Proofs.Fact.Fading
import Rollup.Proofs.Retention.Window

namespace Rollup

open Storage Program

namespace Retention

variable {d : Datasets} {store : MetricStore} {clock : Clock} {config : Config} {s : Storage} {u : Unsteady}
  {r : Resolution} {window : Duration} {t : FactTable}

/-- A request by which buckets outside their window are deleted. -/
def Cleans (store : MetricStore) (clock : Clock) (config : Config) (q : Storage.Request) : Prop :=
  ∃ r window, config.retentionFor r = some window ∧
    ∃ t ∈ (store.table r).generations, t.Deletes (clock.cutoff window) q

theorem store_deleteBefore_confined (hnamed : ∀ r, d.Named r (store.table r))
    (hwindow : config.retentionFor r = some window) :
    (store.deleteBefore r (clock.cutoff window)).Confined (Cleans store clock config)
      ScansInRange fun _ => True := by
  have hone : ∀ t ∈ (store.table r).generations, (t.deleteBefore (clock.cutoff window)).Confined
      (Cleans store clock config) ScansInRange fun _ => True := fun t ht =>
    confined_mono (fun q hq => ⟨r, window, hwindow, t, ht, hq⟩) (fun _ h => h)
      (FactTable.deleteBefore_confined ((hnamed r).rolled ht) _)
  simp only [MetricStore.deleteBefore, MetricTable.deleteBefore]
  cases htable : store.table r with
  | direct current => exact hone current (by simp [htable, MetricTable.generations])
  | bridged legacy current =>
      refine confined_bind (hone legacy (by simp [htable, MetricTable.generations])) fun _ _ => ?_
      refine confined_bind (hone current (by simp [htable, MetricTable.generations]))
        fun _ _ => confined_result fun _ _ => trivial

theorem deleteExpired_confined (hnamed : ∀ r, d.Named r (store.table r)) :
    (deleteExpired store clock (windows config)).Confined (Cleans store clock config)
      ScansInRange fun _ => True := by
  simp only [deleteExpired, bind_eq, pure_eq]
  refine confined_bind (confined_mapM (Q := fun _ => True) fun w hw => ?_)
    fun _ _ => confined_result fun _ _ => trivial
  exact store_deleteBefore_confined hnamed (mem_windows.mp hw)

theorem deleteExpired_passesOn (store : MetricStore) (clock : Clock)
    (ws : List (Resolution × Duration)) : (deleteExpired store clock ws).PassesOn := by
  refine passesOn_bind (passesOn_mapM fun w => ?_) fun _ => trivial
  simp only [MetricStore.deleteBefore, MetricTable.deleteBefore]
  split
  · exact FactTable.deleteBefore_passesOn ..
  · exact passesOn_bind (FactTable.deleteBefore_passesOn ..) fun _ =>
      passesOn_bind (FactTable.deleteBefore_passesOn ..) fun _ => trivial

/-- The table holds buckets that are to be kept for a while only. -/
def Windowed (store : MetricStore) (config : Config) (id : TableId) : Prop :=
  ∃ r window, config.retentionFor r = some window ∧
    ∃ t ∈ (store.table r).generations, t.table = id

/-- Nothing has happened since a storage but that cells of buckets outside their windows have
gone. -/
structure Swept (store : MetricStore) (clock : Clock) (config : Config) (s : Storage)
    (u : Unsteady) : Prop where
  evictions : u.evictions = []
  caches : u.storage.caches = s.caches
  order : InOrder store u.storage
  others : ∀ id, ¬ Windowed store config id → u.storage.catalog.find? id = s.catalog.find? id
  fades : ∀ r window, config.retentionFor r = some window → ∀ t ∈ (store.table r).generations,
    t.Fades (clock.cutoff window) (s.contents t.table) (u.storage.contents t.table)

theorem Swept.refl (h : InOrder store s) (outages : List (Option Error)) :
    Swept store clock config s { storage := s, outages } :=
  ⟨rfl, rfl, h, fun _ _ => rfl, fun _ _ _ t _ => .refl t _ _⟩

theorem Swept.update (hnamed : ∀ r, d.Named r (store.table r)) (hseparate : store.Separate)
    (hwindow : config.retentionFor r = some window) (ht : t ∈ (store.table r).generations)
    {T : Table} (hfades : t.Fades (clock.cutoff window) (u.storage.contents t.table) T)
    (h : Swept store clock config s u) (outages : List (Option Error)) :
    Swept store clock config s ⟨u.storage.update t.table T, outages, []⟩ := by
  have hlaid : t.Laid T := by
    obtain ⟨U, hU, hlaid⟩ := h.order r t ht
    rw [hU.contents_eq] at hfades
    exact hfades.laid hlaid
  refine ⟨rfl, h.caches, h.order.update hnamed hseparate ht hlaid, fun id hid => ?_,
    fun r' window' hwindow' t' ht' => ?_⟩
  · refine (find?_update ?_).trans (h.others id hid)
    rintro rfl
    exact hid ⟨r, window, hwindow, t, ht, rfl⟩
  · rw [contents_update]
    split
    · next heq =>
      obtain ⟨rfl, rfl⟩ := Datasets.eq_of_table_eq hnamed hseparate ht' ht heq
      obtain rfl : window' = window := Option.some.inj (hwindow'.symm.trans hwindow)
      exact (h.fades r' window' hwindow t' ht').trans hfades
    · exact h.fades r' window' hwindow' t' ht'

theorem Swept.answer (hnamed : ∀ r, d.Named r (store.table r)) (hseparate : store.Separate)
    {q : Storage.Request} (hq : Cleans store clock config q) (h : Swept store clock config s u) :
    Swept store clock config s (Unsteady.answer q u).2 := by
  obtain ⟨r, window, hwindow, t, ht, op, rfl, hclears⟩ := hq
  have hevicted : u.evicted = u.storage := by rw [Unsteady.evicted, h.evictions]; rfl
  rcases Unsteady.answer_table u t.table op with ⟨_, heq⟩ | ⟨a, T, hperform, heq⟩ <;>
    rw [heq, hevicted, h.evictions]
  · exact ⟨rfl, h.caches, h.order, h.others, h.fades⟩
  · obtain ⟨U, hU, hlaid⟩ := h.order r t ht
    rw [hU.contents_eq] at hperform
    refine h.update hnamed hseparate hwindow ht ?_ _
    rw [hU.contents_eq]
    exact hclears.fades hlaid hperform

def runThrough (store : MetricStore) (clock : Clock) (config : Config)
    (outages : List (Option Error)) (s : Storage) : Except Error Nat × Unsteady :=
  (run store clock (windows config)).run Unsteady.answer { storage := s, outages }

theorem run_swept (hnamed : ∀ r, d.Named r (store.table r)) (hseparate : store.Separate)
    (h : InOrder store s) (clock : Clock) (config : Config) (outages : List (Option Error)) :
    Swept store clock config s (runThrough store clock config outages s).2 := by
  rw [runThrough, run_eq_mapError]
  exact And.left <| (deleteExpired_confined hnamed).run
    (fun q u hq hu => ⟨hu.answer hnamed hseparate hq, fun _ => Unsteady.scansInRange_answer q⟩)
    (.refl h outages)

/-- How a run ends: in peace and with all ended buckets gone, or with the failure that ended it. -/
theorem run_met (hnamed : ∀ r, d.Named r (store.table r)) (hseparate : store.Separate)
    (h : InOrder store s) (clock : Clock) (config : Config) (outages : List (Option Error)) :
    let met := runThrough store clock config outages s
    (∃ n, met.1 = .ok n ∧ Unsteady.Spared outages met.2.outages ∧
      ∀ r window, config.retentionFor r = some window → ∀ t ∈ (store.table r).generations,
        Cleared t (clock.cutoff window) met.2.storage) ∨
    ∃ e, met.1 = .error (.schedulingFailure e) ∧ Unsteady.Stopped outages e met.2.outages := by
  intro met
  have hmet : met = _ := run_eq_mapError ..
  rcases Unsteady.run_of_passesOn (u := { storage := s, outages })
    (deleteExpired_passesOn store clock (windows config)) rfl with
      ⟨hsame, hstorage, hspared⟩ | ⟨e, hfails, hstopped⟩
  · obtain ⟨n, s', hdelete, hcleared⟩ :=
      deleteExpired_clears hnamed hseparate h clock config
    rw [hdelete] at hsame hstorage
    rw [hmet, hsame]
    refine .inl ⟨n, rfl, hspared, fun r window hwindow t ht => ?_⟩
    rw [hstorage]
    exact hcleared r window hwindow t ht
  · rw [hmet, hfails]
    exact .inr ⟨e, rfl, hstopped⟩

end Retention

end Rollup
