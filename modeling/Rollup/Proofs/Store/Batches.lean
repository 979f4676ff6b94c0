import Rollup.Proofs.Fact.Attempts
import Rollup.Proofs.Store.Ledgers

namespace Rollup

open Storage Entity EntityTable

namespace MetricStore

variable {store : MetricStore} {entities : EntityTable} {ms : List Metric} {u u' v : Unsteady}
  {ws : List (Resolution × Metric)} {effects : List ((Resolution × Metric) × SeriesNumbers)}

def writes (ms : List Metric) : List (Resolution × Metric) :=
  Resolution.all.flatMap fun r => ms.map fun m => (r, m)

def writeEach (store : MetricStore) : List (Resolution × Metric) → Work Unit
  | [] => return ()
  | w :: ws => do
    (store.table w.1).write w.2
    store.writeEach ws

theorem writeEach_append (store : MetricStore) (ws ws' : List (Resolution × Metric)) :
    store.writeEach (ws ++ ws') = (store.writeEach ws).bind fun _ => store.writeEach ws' := by
  induction ws with
  | nil => rfl
  | cons w ws ih => simp only [List.cons_append, writeEach, Program.bind_eq, Program.bind_assoc, ih]

theorem writeAllTo_eq (store : MetricStore) (ms : List Metric) (rs : List Resolution) :
    store.writeAllTo ms rs =
      store.writeEach (rs.flatMap fun r => ms.map fun m => (r, m)) := by
  have hone : ∀ r, (store.table r).writeAll ms = store.writeEach (ms.map fun m => (r, m)) := by
    intro r
    simp only [MetricTable.writeAll]
    induction ms with
    | nil => rfl
    | cons m ms ih => simp only [FactTable.writeAll, List.map_cons, writeEach, ih]; rfl
  induction rs with
  | nil => rfl
  | cons r rs ih =>
      rw [writeAllTo, List.flatMap_cons, writeEach_append, hone, ih]
      rfl

theorem addAll_eq (store : MetricStore) (ms : List Metric) : store.addAll ms =
    (Program.result (validateAll ms)).bind fun _ => store.writeEach (writes ms) := by
  simp only [addAll, writeAllTo_eq, writes, Program.bind_eq]

theorem validateAll_append_cons {before after : List Metric} {m : Metric} {defect : MetricDefect}
    (hbefore : ∀ m' ∈ before, m'.defect? = none) (hm : m.defect? = some defect) :
    validateAll (before ++ m :: after) = .error (.invalidMetric defect.message) := by
  induction before with
  | nil =>
      simp only [List.nil_append, validateAll, Metric.validate, hm]
      rfl
  | cons m' before ih =>
      obtain ⟨hm', hbefore⟩ := List.forall_mem_cons.mp hbefore
      simp only [List.cons_append, validateAll, Metric.validate_eq hm', ih hbefore]
      rfl

/-- The tables after values have entered their cells, each under the numbers of its series. -/
def enteredAll (store : MetricStore) (effects : List ((Resolution × Metric) × SeriesNumbers))
    (tables : TableId → Table) : TableId → Table :=
  effects.foldl (fun tables w => (store.table w.1.1).current.enteredInto w.1.2 w.2 tables) tables

theorem sameBeside_enteredAll {tables tables' : TableId → Table}
    (h : entities.SameBeside tables tables') (store : MetricStore)
    (effects : List ((Resolution × Metric) × SeriesNumbers)) :
    entities.SameBeside (store.enteredAll effects tables) (store.enteredAll effects tables') := by
  induction effects generalizing tables tables' with
  | nil => exact h
  | cons w effects ih => exact ih (FactTable.sameBeside_enteredInto h _ _ _)

variable (hentities : ∀ r, (store.table r).current.entities = entities)
include hentities

theorem write_numberedAs (r : Resolution) (m : Metric) {e : Entity} {id : UInt32}
    (h : NumberedAs (u.storage.contents entities.table) e id) :
    NumberedAs ((((store.table r).write m).run Unsteady.answer u).2.storage.contents
      entities.table) e id := by
  rw [← hentities r] at h ⊢
  exact (store.table r).current.write_numberedAs m h

theorem writeEach_numberedAs (ws : List (Resolution × Metric)) {e : Entity} {id : UInt32}
    (h : NumberedAs (u.storage.contents entities.table) e id) :
    NumberedAs (((store.writeEach ws).run Unsteady.answer u).2.storage.contents entities.table)
      e id := by
  induction ws generalizing u with
  | nil => exact h
  | cons w ws ih =>
      have hkept := write_numberedAs hentities w.1 w.2 h
      rcases hwrite : ((store.table w.1).write w.2).run Unsteady.answer u with ⟨err | _, v⟩ <;>
        rw [hwrite] at hkept
      · rwa [writeEach, Program.bind_eq, Program.run_bind_of_error hwrite]
      · rw [writeEach, Program.bind_eq, Program.run_bind_of_ok hwrite]
        exact ih hkept

theorem of_writeEach_ok (hrun : (store.writeEach ws).run Unsteady.answer u = (.ok (), v)) :
    ∃ effects : List ((Resolution × Metric) × SeriesNumbers), effects.map Prod.fst = ws ∧
      entities.SameBeside (store.enteredAll effects u.storage.contents) v.storage.contents ∧
      (Remembers entities.table u.storage → ∀ w ∈ effects,
        SeriesNumbered (v.storage.contents entities.table) w.1.2.series w.2) := by
  induction ws generalizing u with
  | nil =>
      cases hrun
      exact ⟨[], rfl, .refl _ _, by simp⟩
  | cons w ws ih =>
      obtain ⟨_, u₁, hwrite, hrest⟩ := Program.run_bind_ok hrun
      rcases (store.table w.1).current.write_run_cases w.2 u with
        ⟨e, u₂, herror, -⟩ | ⟨k, u₂, hok, hentered, hnumbered⟩
      · cases herror.symm.trans hwrite
      · cases hok.symm.trans hwrite
        rw [hentities] at hentered hnumbered
        obtain ⟨effects, rfl, hsame, hall⟩ := ih hrest
        refine ⟨(w, k) :: effects, rfl, ?_, fun hu => ?_⟩
        · exact (sameBeside_enteredAll hentered store effects).trans hsame
        · obtain ⟨hu₁, hk⟩ := hnumbered hu
          refine List.forall_mem_cons.mpr ⟨hk.mono fun e id hid => ?_, hall hu₁⟩
          have hkept := writeEach_numberedAs hentities (effects.map Prod.fst) hid
          rwa [hrest] at hkept

omit hentities in
theorem of_writeEach_error {e : Error}
    (hrun : (store.writeEach ws).run Unsteady.answer u = (.error e, u')) :
    ∃ done r m rest v, ws = done ++ (r, m) :: rest ∧
      (store.writeEach done).run Unsteady.answer u = (.ok (), v) ∧
      ((store.table r).write m).run Unsteady.answer v = (.error e, u') := by
  induction ws generalizing u with
  | nil => cases hrun
  | cons w ws ih =>
      rw [writeEach, Program.bind_eq] at hrun
      rcases hwrite : ((store.table w.1).write w.2).run Unsteady.answer u with ⟨err | _, v⟩
      · rw [Program.run_bind_of_error hwrite] at hrun
        cases hrun
        exact ⟨[], w.1, w.2, ws, u, rfl, rfl, hwrite⟩
      · rw [Program.run_bind_of_ok hwrite] at hrun
        obtain ⟨done, r, m, rest, v', rfl, hdone, hfails⟩ := ih hrun
        refine ⟨w :: done, r, m, rest, v', rfl, ?_, hfails⟩
        rw [writeEach, Program.bind_eq, Program.run_bind_of_ok hwrite, hdone]

/-- An invalid batch is refused for its first defect and changes nothing. A valid batch that
fails, whichever table operations failed, does so with the error of one write, and has
entered the values of the writes before that one and nothing else; strings keep their
numbers. A single write changes one cell if it succeeds and none if it fails. -/
theorem addAll_fails_cleanly (ms : List Metric) (u : Unsteady) :
    (∀ before m after defect, ms = before ++ m :: after →
      (∀ m' ∈ before, m'.defect? = none) → m.defect? = some defect →
      (store.addAll ms).run Unsteady.answer u = (.error (.invalidMetric defect.message), u)) ∧
    (∀ e u', (∀ m ∈ ms, m.defect? = none) →
      (store.addAll ms).run Unsteady.answer u = (.error e, u') →
      ∃ effects r m rest v, writes ms = effects.map Prod.fst ++ (r, m) :: rest ∧
        (store.writeEach (effects.map Prod.fst)).run Unsteady.answer u = (.ok (), v) ∧
        ((store.table r).write m).run Unsteady.answer v = (.error e, u') ∧
        entities.SameBeside (store.enteredAll effects u.storage.contents) u'.storage.contents ∧
        (Remembers entities.table u.storage → ∀ w ∈ effects,
          SeriesNumbered (u'.storage.contents entities.table) w.1.2.series w.2) ∧
        ∀ e id, NumberedAs (u.storage.contents entities.table) e id →
          NumberedAs (u'.storage.contents entities.table) e id) ∧
    ∀ (t : FactTable) (m : Metric),
      (∃ e u', (t.write m).run Unsteady.answer u = (.error e, u') ∧
        t.entities.SameBeside u.storage.contents u'.storage.contents) ∨
      ∃ k u', (t.write m).run Unsteady.answer u = (.ok (), u') ∧
        t.entities.SameBeside (t.enteredInto m k u.storage.contents) u'.storage.contents ∧
        (Remembers t.entities.table u.storage →
          SeriesNumbered (u'.storage.contents t.entities.table) m.series k) := by
  refine ⟨?_, ?_, fun t m => ?_⟩
  · rintro before m after defect rfl hbefore hm
    rw [addAll_eq, validateAll_append_cons hbefore hm]
    rfl
  · intro e u' hvalid hrun
    rw [addAll_eq, validateAll_eq hvalid] at hrun
    obtain ⟨done, r, m, rest, v, hwrites, hdone, hfails⟩ := of_writeEach_error hrun
    obtain ⟨effects, rfl, hentered, hnumbered⟩ := of_writeEach_ok hentities hdone
    have hkept : ∀ e id, NumberedAs (v.storage.contents entities.table) e id →
        NumberedAs (u'.storage.contents entities.table) e id := by
      intro e id hid
      have hkept := write_numberedAs hentities r m hid
      rwa [hfails] at hkept
    rcases (store.table r).current.write_run_cases m v with
      ⟨e', v', herror, hsame⟩ | ⟨k, v', hok, -⟩
    · cases herror.symm.trans hfails
      rw [hentities] at hsame
      refine ⟨effects, r, m, rest, v, hwrites, hdone, hfails, hentered.trans hsame,
        fun hu w hw => (hnumbered hu w hw).mono hkept, fun e id hid => ?_⟩
      have hbefore := writeEach_numberedAs hentities (effects.map Prod.fst) hid
      rw [hdone] at hbefore
      exact hkept e id hbefore
    · cases hok.symm.trans hfails
  · rcases t.write_run_cases m u with hfails | ⟨k, u', hok, hentered, hnumbered⟩
    · exact .inl hfails
    · exact .inr ⟨k, u', hok, hentered, fun hu => (hnumbered hu).2⟩

omit hentities

def sampleBatch : List Metric :=
  [⟨.counter, "a", 60, 4, .empty⟩, ⟨.counter, "b", 60, 2, .singleton "h" "x"⟩]

/-- The table of seconds is out of reach when the second value is to enter it. -/
theorem sample_fails_cleanly :
    let store := ((Datasets.usual {}).openStore {}).1
    let entities := (Datasets.usual {}).entityTable
    let u : Unsteady :=
      ⟨newStorage, List.replicate 17 none ++ [some (.storageUnavailable "down")], []⟩
    (store.addAll (sampleBatch ++ [⟨.gauge, "", 60, 1, .empty⟩])).run Unsteady.answer u =
        (.error (.invalidMetric "metric name is empty"), u) ∧
      ∃ e u' effects r m rest, (store.addAll sampleBatch).run Unsteady.answer u = (.error e, u') ∧
        writes sampleBatch = effects.map Prod.fst ++ (r, m) :: rest ∧
        entities.SameBeside (store.enteredAll effects newStorage.contents) u'.storage.contents ∧
        ∀ w ∈ effects, SeriesNumbered (u'.storage.contents entities.table) w.1.2.series w.2 := by
  intro store entities u
  have hd : Datasets.ofConfig {} 0 = .ok (.usual {}) := rfl
  have hentities : ∀ r, (store.table r).current.entities = entities := fun r =>
    Datasets.entities_openStore (Datasets.sound_ofConfig hd).1 {} r
  have hvalid : ∀ m ∈ sampleBatch, m.defect? = none := by decide
  refine ⟨(addAll_fails_cleanly hentities _ u).1 sampleBatch _ [] .emptyName rfl hvalid rfl, ?_⟩
  have hfails : ((store.addAll sampleBatch).run Unsteady.answer u).1.isOk = false := by
    decide +kernel
  rcases hmet : (store.addAll sampleBatch).run Unsteady.answer u with ⟨e | _, u'⟩
  · obtain ⟨effects, r, m, rest, v, hwrites, -, -, hentered, hnumbered, -⟩ :=
      (addAll_fails_cleanly hentities sampleBatch u).2.1 e u' hvalid hmet
    exact ⟨e, u', effects, r, m, rest, rfl, hwrites, hentered,
      hnumbered fun _ _ _ hmemory => by cases hmemory⟩
  · rw [hmet] at hfails
    cases hfails

end MetricStore

end Rollup
