import Rollup.Proofs.Fact.Reach
import Rollup.Proofs.Store.Batches
import Rollup.Proofs.Store.Writes

/-!
How values are cut into batches makes no difference. Once the series of a value has its numbers,
its writes at the other resolutions are single operations on other tables, which commute with
whatever is written in between.
-/

namespace Rollup

open Storage Entity EntityTable Unsteady

namespace FactTable

variable {t : FactTable} {m : Metric} {k : SeriesNumbers} {id : TableId} {p : Work Unit}
  {u v : Unsteady}

def BucketColumn (column : Bytes) : Prop := column.length = 2

theorem entry_within (t : FactTable) (m : Metric) (k : SeriesNumbers) :
    (t.entry m k).Within BucketColumn := by
  unfold entry
  cases m.kind <;> exact length_columnOf t m.timestamp

theorem write_clear (t : FactTable) (m : Metric) (hid : t.table ≠ id) :
    (t.write m).Only (Clear id BucketColumn) := by
  refine Program.only_mono (fun q hq op heq => ?_) (t.write_only m)
  rcases hq with hq | ⟨k, rfl⟩
  · subst heq
    refine hq.2.within.mono fun column hcolumn hlength => ?_
    cases (Entity.length_of_mem_columns hcolumn).symm.trans hlength
  · cases heq
    exact absurd rfl hid

theorem enter_comm_run (hclear : p.Only (Clear t.table BucketColumn)) (s : Storage) :
    let after := (p.bind fun _ => t.enter m k).run Storage.answer s
    let before := ((t.enter m k).bind fun _ => p).run Storage.answer s
    (∃ s', after = (.ok (), s') ∧ before = (.ok (), s')) ∨
      ∃ e s' e' s'', after = (.error e, s') ∧ before = (.error e', s'') := by
  intro after before
  obtain ⟨hsame, hnext, hend⟩ := run_comm (t.entry_within m k) hclear s
  have henter : ∀ s, (t.enter m k).run Storage.answer s =
      ((Storage.answer (.table t.table (t.entry m k)) s).1.map fun _ => (),
        (Storage.answer (.table t.table (t.entry m k)) s).2) := fun s => rfl
  rcases hp : p.run Storage.answer s with ⟨e | _, s₁⟩ <;>
    rcases hq : Storage.answer (.table t.table (t.entry m k)) s with ⟨e' | a, s₂⟩ <;>
    rw [hp, hq] at hsame hnext hend
  · exact .inr ⟨e, s₁, e', s₂, Program.run_bind_of_error hp,
      Program.run_bind_of_error ((henter s).trans (by rw [hq]; rfl))⟩
  · refine .inr ⟨e, s₁, e, (p.run Storage.answer s₂).2, Program.run_bind_of_error hp, ?_⟩
    exact (Program.run_bind_of_ok ((henter s).trans (by rw [hq]; rfl))).trans (Prod.ext hsame rfl)
  · refine .inr ⟨e', (Storage.answer (.table t.table (t.entry m k)) s₁).2, e', s₂, ?_,
      Program.run_bind_of_error ((henter s).trans (by rw [hq]; rfl))⟩
    exact (Program.run_bind_of_ok hp).trans ((henter s₁).trans (by rw [hnext]; rfl))
  · refine .inl ⟨(Storage.answer (.table t.table (t.entry m k)) s₁).2, ?_, ?_⟩
    · exact (Program.run_bind_of_ok hp).trans ((henter s₁).trans (by rw [hnext]; rfl))
    · exact (Program.run_bind_of_ok ((henter s).trans (by rw [hq]; rfl))).trans
        (Prod.ext hsame hend)

theorem enter_comm (hclear : p.Only (Clear t.table BucketColumn))
    (hp : Interchangeable t.entities.table p p) (huv : Abreast t.entities.table u v) :
    Concur t.entities.table ((p.bind fun _ => t.enter m k).run Unsteady.answer u)
      (((t.enter m k).bind fun _ => p).run Unsteady.answer v) := by
  let w : Unsteady := ⟨u.storage, [], []⟩
  have hw : Quiet t.entities.table w := ⟨rfl, huv.left.reach, huv.left.remembers⟩
  have henter := t.interchangeable_enter m k t.entities.table
  have hafter := hp.bind fun _ : Unit => henter
  -- with memories and evictions out of the way the orders are compared on the storage alone
  refine (hafter u w ⟨huv.left, hw, rfl⟩).trans (Concur.trans ?_
    ((henter.bind fun _ : Unit => hp) w v ⟨hw, huv.right, huv.catalog⟩))
  have hself := hafter w w ⟨hw, hw, rfl⟩
  rw [run_steady] at hself
  rw [run_steady, run_steady]
  rcases t.enter_comm_run (m := m) (k := k) hclear u.storage with
    ⟨s', hlast, hfirst⟩ | ⟨e, s', e', s'', hlast, hfirst⟩
  · rw [hlast] at hself ⊢
    rw [hfirst]
    exact hself
  · rw [hlast, hfirst]
    exact .failed ..

theorem write_comm (hm : m.defect? = none) (hclear : p.Only (Clear t.table BucketColumn))
    (hp : Interchangeable t.entities.table p p)
    (hkept : ∀ (u : Unsteady) (e : Entity) id,
      NumberedAs (u.storage.contents t.entities.table) e id →
        NumberedAs ((p.run Unsteady.answer u).2.storage.contents t.entities.table) e id)
    (hk : SeriesNumbered (u.storage.contents t.entities.table) m.series k)
    (huv : Abreast t.entities.table u v) :
    Concur t.entities.table ((p.bind fun _ => t.write m).run Unsteady.answer u)
      (((t.write m).bind fun _ => p).run Unsteady.answer v) := by
  have hu : Abreast t.entities.table u u := huv.trans huv.symm
  have hlast : Concur t.entities.table ((p.bind fun _ => t.write m).run Unsteady.answer u)
      ((p.bind fun _ => t.enter m k).run Unsteady.answer u) := by
    refine (hp u u hu).bind fun _ u₁ v₁ hrun h₁ => ?_
    have hk₁ := hk.mono (hkept u)
    rw [hrun] at hk₁
    exact (write_concur hm h₁.left hk₁).trans (t.interchangeable_enter m k _ u₁ v₁ h₁)
  refine hlast.trans ((enter_comm hclear hp hu).trans (Concur.trans ?_
    (((t.interchangeable_write m).bind fun _ => hp) u v huv)))
  exact (write_concur hm huv.left hk).symm.bind fun _ u₁ v₁ _ h₁ => hp u₁ v₁ h₁

end FactTable

namespace MetricStore

variable {store : MetricStore} {entities : EntityTable} {m : Metric} {ms : List Metric}
  {k : SeriesNumbers} {ws : List (Resolution × Metric)} {rs : List Resolution} {u v : Unsteady}

theorem writeEach_clear {id : TableId}
    (h : ∀ w ∈ ws, (store.table w.1).current.table ≠ id) :
    (store.writeEach ws).Only (Clear id FactTable.BucketColumn) := by
  induction ws with
  | nil => exact Program.only_result _
  | cons w ws ih =>
      obtain ⟨hw, hws⟩ := List.forall_mem_cons.mp h
      exact Program.only_bind (FactTable.write_clear _ w.2 hw) fun _ => ih hws

section

variable (hentities : ∀ r, (store.table r).current.entities = entities)
include hentities

theorem interchangeable_write (r : Resolution) (m : Metric) :
    Interchangeable entities.table ((store.table r).write m) ((store.table r).write m) :=
  hentities r ▸ (store.table r).current.interchangeable_write m

theorem interchangeable_writeEach (ws : List (Resolution × Metric)) :
    Interchangeable entities.table (store.writeEach ws) (store.writeEach ws) := by
  induction ws with
  | nil => exact .result _
  | cons w ws ih =>
      exact (interchangeable_write hentities w.1 w.2).bind fun _ => ih

variable (hapart : ∀ r r', r ≠ r' →
  (store.table r).current.table ≠ (store.table r').current.table)
include hapart

theorem writeEach_swap (hm : m.defect? = none) (hws : ∀ w ∈ ws, w.1 ∉ rs)
    (hk : SeriesNumbered (u.storage.contents entities.table) m.series k)
    (huv : Abreast entities.table u v) :
    Concur entities.table ((store.writeEach (ws ++ rs.map (·, m))).run Unsteady.answer u)
      ((store.writeEach (rs.map (·, m) ++ ws)).run Unsteady.answer v) := by
  induction rs generalizing u v with
  | nil =>
      rw [List.map_nil, List.append_nil, List.nil_append]
      exact interchangeable_writeEach hentities ws u v huv
  | cons r rs ih =>
      have hclear : (store.writeEach ws).Only
          (Clear (store.table r).current.table FactTable.BucketColumn) :=
        writeEach_clear fun w hw => hapart _ _ fun heq => hws w hw (heq ▸ List.mem_cons_self ..)
      have hfirst := FactTable.write_comm (t := (store.table r).current) hm hclear
        (hentities r ▸ interchangeable_writeEach hentities ws)
        (fun u e id => hentities r ▸ writeEach_numberedAs hentities ws) (hentities r ▸ hk)
        (hentities r ▸ huv.trans huv.symm)
      have hsplit : store.writeEach (ws ++ (r :: rs).map (·, m)) =
          ((store.writeEach ws).bind fun _ => (store.table r).current.write m).bind fun _ =>
            store.writeEach (rs.map (·, m)) := by
        rw [writeEach_append, Program.bind_assoc]
        rfl
      have hjoin : store.writeEach ((r :: rs).map (·, m) ++ ws) =
          ((store.table r).current.write m).bind fun _ =>
            store.writeEach (rs.map (·, m) ++ ws) := rfl
      -- the first of the writes moves past the batch, the rest by induction
      rw [hsplit, hjoin]
      rw [hentities] at hfirst
      refine (hfirst.bind fun _ u₁ v₁ _ h₁ =>
        interchangeable_writeEach hentities (rs.map (·, m)) u₁ v₁ h₁).trans ?_
      rw [Program.bind_assoc]
      refine (interchangeable_write hentities r m u v huv).bind fun _ u₁ v₁ hrun h₁ => ?_
      rw [← writeEach_append]
      refine ih (fun w hw hr => hws w hw (List.mem_cons_of_mem _ hr))
        (hk.mono fun e id hid => ?_) h₁
      have hkept := write_numberedAs hentities r m hid
      rwa [hrun] at hkept

theorem interchangeable_first (hm : m.defect? = none) (hrs : rs.Nodup) :
    Interchangeable entities.table
      (store.writeEach (rs.flatMap fun r => (m :: ms).map (r, ·)))
      (store.writeEach (rs.map (·, m) ++ rs.flatMap fun r => ms.map (r, ·))) := by
  induction rs with
  | nil => exact .result _
  | cons r rs ih =>
      obtain ⟨hr, hrs⟩ := List.nodup_cons.mp hrs
      have hbatch : store.writeEach ((r :: rs).flatMap fun r => (m :: ms).map (r, ·)) =
          ((store.table r).current.write m).bind fun _ => (store.writeEach (ms.map (r, ·))).bind
            fun _ => store.writeEach (rs.flatMap fun r => (m :: ms).map (r, ·)) := by
        rw [← writeEach_append]
        rfl
      have hsingle : store.writeEach ((r :: rs).map (·, m) ++
            (r :: rs).flatMap fun r => ms.map (r, ·)) =
          ((store.table r).current.write m).bind fun _ =>
            (store.writeEach (rs.map (·, m) ++ ms.map (r, ·))).bind fun _ =>
              store.writeEach (rs.flatMap fun r => ms.map (r, ·)) := by
        rw [← writeEach_append, List.append_assoc]
        rfl
      rw [hbatch, hsingle]
      intro u v huv
      refine (interchangeable_write hentities r m u v huv).bind fun _ u₁ v₁ hrun h₁ => ?_
      refine ((interchangeable_writeEach hentities (ms.map (r, ·))).bind fun _ => ih hrs) u₁ v₁ h₁
        |>.trans ?_
      rw [writeEach_append, ← Program.bind_assoc, ← writeEach_append]
      -- after its first write the series has its numbers
      rcases (store.table r).current.write_run_cases m u with
        ⟨e, u₂, herror, -⟩ | ⟨k, u₂, hok, -, hnumbered⟩
      · cases herror.symm.trans hrun
      · cases hok.symm.trans hrun
        rw [hentities] at hnumbered
        have hk := (hnumbered huv.left.remembers).2
        rw [h₁.contents_eq] at hk
        refine (writeEach_swap hentities hapart hm (by simp [hr]) hk
          (h₁.symm.trans h₁)).bind fun _ u₃ v₃ _ h₃ => ?_
        exact interchangeable_writeEach hentities _ u₃ v₃ h₃

theorem interchangeable_writes (hvalid : ∀ m ∈ ms, m.defect? = none) :
    Interchangeable entities.table (store.writeEach (writes ms))
      (store.writeEach (ms.flatMap fun m => Resolution.all.map (·, m))) := by
  induction ms with
  | nil => exact .result _
  | cons m ms ih =>
      obtain ⟨hm, hms⟩ := List.forall_mem_cons.mp hvalid
      refine (interchangeable_first hentities hapart hm (by decide)).trans ?_
      rw [List.flatMap_cons, writeEach_append, writeEach_append]
      exact (interchangeable_writeEach hentities _).bind fun _ => ih hms

theorem interchangeable_performAll {calls : List WriteCall}
    (hvalid : ∀ m ∈ calls.flatMap WriteCall.values, m.defect? = none) :
    Interchangeable entities.table (store.performAll calls)
      (store.writeEach ((calls.flatMap WriteCall.values).flatMap fun m =>
        Resolution.all.map (·, m))) := by
  induction calls with
  | nil => exact .result _
  | cons call calls ih =>
      rw [List.flatMap_cons, List.forall_mem_append] at hvalid
      obtain ⟨hcall, hcalls⟩ := hvalid
      rw [List.flatMap_cons, List.flatMap_append, writeEach_append, performAll, perform_eq,
        addAll_eq, validateAll_eq hcall]
      exact (interchangeable_writes hentities hapart hcall).bind fun _ => ih hcalls

end

theorem writeEach_run (hentities : ∀ r, (store.table r).current.entities = entities)
    {strings : List Entity} {s : Storage} (hroom : entities.Room strings s)
    (hserves : ∀ r, s.Serves (store.table r).current.table)
    (hws : ∀ w ∈ ws, w.2.defect? = none ∧ w.2.series.strings ⊆ strings) :
    ∃ s', (store.writeEach ws).run Storage.answer s = (.ok (), s') := by
  induction ws generalizing s with
  | nil => exact ⟨s, rfl⟩
  | cons w ws ih =>
      obtain ⟨⟨hvalid, hstrings⟩, hws⟩ := List.forall_mem_cons.mp hws
      obtain ⟨s₁, hwrite, hroom₁⟩ := FactTable.write_run (t := (store.table w.1).current)
        (hentities w.1 ▸ hroom) hstrings (hserves w.1) hvalid
      rw [hentities] at hroom₁
      have hserves₁ : ∀ r, s₁.Serves (store.table r).current.table := fun r => by
        have hkept := FactTable.serves_write (t := (store.table w.1).current) (m := w.2) (hserves r)
        rwa [hwrite] at hkept
      obtain ⟨s', hrest⟩ := ih hroom₁ hserves₁ hws
      exact ⟨s', (Program.run_bind_of_ok hwrite).trans hrest⟩

/-- Calls that write the same valid values in the same order, one by one or in batches of any
sizes, succeed alike, whatever memories hold and drop meanwhile, and when they succeed they
leave the same tables, those of the numbers included. They do succeed as long as there are
numbers for all strings of the values. -/
theorem batching_immaterial {d : Datasets} (hnamed : ∀ r, d.Named r (store.table r))
    (hvalid : ∀ m ∈ ms, m.defect? = none) {calls : List WriteCall}
    (hvalues : calls.flatMap WriteCall.values = ms) (huv : Abreast d.entityTable.table u v) :
    let batch := (store.addAll ms).run Unsteady.answer u
    let cut := (store.performAll calls).run Unsteady.answer v
    (batch.1 = .ok () ↔ cut.1 = .ok ()) ∧
    (batch.1 = .ok () → ∀ id, batch.2.storage.contents id = cut.2.storage.contents id) ∧
    (d.entityTable.Room (ms.flatMap (·.series.strings)) u.storage →
      (∀ r, u.storage.Serves (d.currentTable r).table) → batch.1 = .ok ()) := by
  intro batch cut
  have hentities : ∀ r, (store.table r).current.entities = d.entityTable := fun r =>
    (hnamed r).entities
  have hapart : ∀ r r', r ≠ r' →
      (store.table r).current.table ≠ (store.table r').current.table := by
    intro r r' hne
    rw [(hnamed r).current, (hnamed r').current]
    exact Datasets.currentTable_ne hne
  subst hvalues
  have hbatch : store.addAll (calls.flatMap WriteCall.values) =
      store.writeEach (writes (calls.flatMap WriteCall.values)) := by
    rw [addAll_eq, validateAll_eq hvalid]
    rfl
  have hmet : Concur d.entityTable.table batch cut := by
    refine Interchangeable.trans ?_ (interchangeable_performAll hentities hapart hvalid).symm
      u v huv
    rw [hbatch]
    exact interchangeable_writes hentities hapart hvalid
  refine ⟨?_, ?_, fun hroom hserves => ?_⟩
  · clear_value batch cut
    cases hmet with
    | failed => simp
    | done a h => simp
  · clear_value batch cut
    cases hmet with
    | failed => nofun
    | done a h => exact fun _ => h.contents_eq
  · have hquiet : Quiet d.entityTable.table ⟨u.storage, [], []⟩ :=
      ⟨rfl, huv.left.reach, huv.left.remembers⟩
    have hsame := interchangeable_writeEach hentities
      (writes (calls.flatMap WriteCall.values)) u _ ⟨huv.left, hquiet, rfl⟩
    have hwrites : ∀ w ∈ writes (calls.flatMap WriteCall.values), w.2.defect? = none ∧
        w.2.series.strings ⊆ (calls.flatMap WriteCall.values).flatMap (·.series.strings) := by
      intro w hw
      obtain ⟨r, -, hw⟩ := List.mem_flatMap.mp hw
      obtain ⟨m, hm, rfl⟩ := List.mem_map.mp hw
      exact ⟨hvalid m hm, fun e he => List.mem_flatMap.mpr ⟨m, hm, he⟩⟩
    obtain ⟨s', hrun⟩ :=
      writeEach_run hentities hroom (fun r => (hnamed r).current ▸ hserves r) hwrites
    rw [run_steady, hrun, ← hbatch] at hsame
    change Concur _ batch _ at hsame
    clear_value batch
    cases hsame with
    | done a h => rfl

def sampleCut : List WriteCall :=
  [.add ⟨.counter, "a", 60, 4, .empty⟩,
    .addAll [⟨.gauge, "b", 60, 2, .singleton "h" "x"⟩, ⟨.counter, "a", 3600, 1, .empty⟩]]

theorem sample_batching_immaterial :
    let store := ((Datasets.usual {}).openStore {}).1
    ∃ u v, (store.addAll (sampleCut.flatMap WriteCall.values)).run Unsteady.answer
        ⟨newStorage, [], []⟩ = (.ok (), u) ∧
      (store.performAll sampleCut).run Unsteady.answer ⟨newStorage, [], []⟩ = (.ok (), v) ∧
      ∀ id, u.storage.contents id = v.storage.contents id := by
  intro store
  have hd : Datasets.ofConfig {} 0 = .ok (.usual {}) := rfl
  have hnamed : ∀ r, (Datasets.usual {}).Named r (store.table r) := fun r =>
    Datasets.named_openStore (Datasets.sound_ofConfig hd).1 {} r
  have hquiet : Quiet (Datasets.usual {}).entityTable.table ⟨newStorage, [], []⟩ :=
    ⟨rfl, by decide +kernel, fun _ _ _ hmemory => by cases hmemory⟩
  have hvalid : ∀ m ∈ sampleCut.flatMap WriteCall.values, m.defect? = none := by decide
  have hroom : (Datasets.usual {}).entityTable.Room
      ((sampleCut.flatMap WriteCall.values).flatMap (·.series.strings)) newStorage :=
    .of_empty (holds_of_blank (by decide +kernel)) (fun _ => rfl) (by decide)
  have hserves : ∀ r, newStorage.Serves ((Datasets.usual {}).currentTable r).table := fun r =>
    ⟨.empty, holds_of_blank (by cases r <;> decide +kernel), Table.words_empty⟩
  obtain ⟨hboth, hsame, hok⟩ :=
    batching_immaterial hnamed hvalid rfl ⟨hquiet, hquiet, rfl⟩
  have hbatch := hok hroom hserves
  have hcut := hboth.mp hbatch
  have htables := hsame hbatch
  rcases hx : (store.addAll (sampleCut.flatMap WriteCall.values)).run Unsteady.answer
    ⟨newStorage, [], []⟩ with ⟨x, u⟩
  rcases hy : (store.performAll sampleCut).run Unsteady.answer ⟨newStorage, [], []⟩ with ⟨y, v⟩
  rw [hx] at hbatch htables
  rw [hy] at hcut htables
  cases hbatch
  cases hcut
  exact ⟨u, v, rfl, rfl, htables⟩

def noting : Handler interface (Storage × Bool) := fun q x =>
  let met := Storage.answer q x.1
  (met.1, met.2, x.2 || !met.1.isOk)

def exhaustedStorage : Storage :=
  newStorage.update (Datasets.usual {}).entityTable.table
    (Table.empty.setCell (counterRow .metric) counterColumn (some (Bytes.ofInt64 4294967294)))

/-- No table operation fails, but the number of the second value cannot be given out. The
batch has then written its first value at the finest resolution only. -/
theorem exhausted_batch_stops_short :
    let store := ((Datasets.usual {}).openStore {}).1
    let values : List Metric := [⟨.counter, "a", 0, 1, .empty⟩, ⟨.counter, "b", 0, 1, .empty⟩]
    let minutes := ((Datasets.usual {}).currentTable .minute).table
    let batch := (store.addAll values).run noting (exhaustedStorage, false)
    let singly := (store.performAll (values.map .add)).run noting (exhaustedStorage, false)
    (∀ m ∈ values, m.defect? = none) ∧ batch.2.2 = false ∧ singly.2.2 = false ∧
      batch.2.1.contents minutes ≠ singly.2.1.contents minutes := by
  refine ⟨by decide, by decide +kernel, by decide +kernel, fun heq => ?_⟩
  exact absurd (congrArg Table.rowCount heq) (by decide +kernel)

end MetricStore

end Rollup
