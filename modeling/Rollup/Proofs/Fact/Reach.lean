import Rollup.Proofs.Fact.Attempts
import Rollup.Proofs.Storage.Commute

namespace Rollup

open Storage Entity EntityTable

namespace Unsteady

variable {table : TableId} {u u' v v' w : Unsteady} {α β : Type} {p q r : Work α}

/-- No outage is to come, the table of the numbers is in reach, and memories hold nothing but
its numbers. -/
structure Quiet (table : TableId) (u : Unsteady) : Prop where
  steady : u.outages = []
  reach : (u.storage.catalog.table table).available = true
  remembers : Remembers table u.storage

/-- Two quiet moments with the same tables. -/
structure Abreast (table : TableId) (u v : Unsteady) : Prop where
  left : Quiet table u
  right : Quiet table v
  catalog : u.storage.catalog = v.storage.catalog

theorem Abreast.symm (h : Abreast table u v) : Abreast table v u :=
  ⟨h.right, h.left, h.catalog.symm⟩

theorem Abreast.trans (h : Abreast table u v) (h' : Abreast table v w) : Abreast table u w :=
  ⟨h.left, h'.right, h.catalog.trans h'.catalog⟩

theorem Abreast.contents_eq (h : Abreast table u v) (id : TableId) :
    u.storage.contents id = v.storage.contents id := by
  rw [contents, h.catalog, contents]

/-- Two calls have both failed, or they have come to the same value and the same tables. -/
inductive Concur (table : TableId) :
    Except Error α × Unsteady → Except Error α × Unsteady → Prop where
  | failed (e e' : Error) (u v : Unsteady) : Concur table (.error e, u) (.error e', v)
  | done (a : α) {u v : Unsteady} (h : Abreast table u v) : Concur table (.ok a, u) (.ok a, v)

namespace Concur

variable {x y z : Except Error α × Unsteady}

theorem symm (h : Concur table x y) : Concur table y x := by
  cases h with
  | failed e e' u v => exact .failed e' e v u
  | done a h => exact .done a h.symm

theorem trans (h : Concur table x y) (h' : Concur table y z) : Concur table x z := by
  cases h with
  | failed e e' u v =>
      cases h' with
      | failed e' e'' v w => exact .failed e e'' u w
  | done a h =>
      cases h' with
      | done a h' => exact .done a (h.trans h')

theorem bind {f g : α → Work β} (h : Concur table (p.run answer u) (q.run answer v))
    (hf : ∀ a u' v', p.run answer u = (.ok a, u') → Abreast table u' v' →
      Concur table ((f a).run answer u') ((g a).run answer v')) :
    Concur table ((p.bind f).run answer u) ((q.bind g).run answer v) := by
  rcases hp : p.run answer u with ⟨e | a, u'⟩ <;> rcases hq : q.run answer v with ⟨e' | a', v'⟩ <;>
    rw [hp, hq] at h
  · rw [Program.run_bind_of_error hp, Program.run_bind_of_error hq]
    exact .failed e e' u' v'
  · cases h
  · cases h
  · cases h with
    | done a h =>
        rw [Program.run_bind_of_ok hp, Program.run_bind_of_ok hq]
        exact hf a u' v' hp h

end Concur

def Interchangeable (table : TableId) (p q : Work α) : Prop :=
  ∀ u v, Abreast table u v → Concur table (p.run answer u) (q.run answer v)

namespace Interchangeable

theorem symm (h : Interchangeable table p q) : Interchangeable table q p :=
  fun u v huv => (h v u huv.symm).symm

theorem trans (h : Interchangeable table p q) (h' : Interchangeable table q r) :
    Interchangeable table p r :=
  fun u v huv => (h u v huv).trans (h' v v (huv.symm.trans huv))

theorem result (outcome : Except Error α) :
    Interchangeable table (.result outcome) (.result outcome) := by
  intro u v huv
  cases outcome with
  | error e => exact .failed e e u v
  | ok a => exact .done a huv

theorem bind {f g : α → Work β} (hp : Interchangeable table p q)
    (hf : ∀ a, Interchangeable table (f a) (g a)) :
    Interchangeable table (p.bind f) (q.bind g) :=
  fun u v huv => (hp u v huv).bind fun a u' v' _ h => hf a u' v' h

theorem mapM {l : List β} {f : β → Work α} (h : ∀ b, Interchangeable table (f b) (f b)) :
    Interchangeable table (l.mapM f) (l.mapM f) := by
  induction l with
  | nil => exact .result _
  | cons b l ih =>
      simp only [List.mapM_cons, Program.bind_eq, Program.pure_eq]
      exact (h b).bind fun _ => ih.bind fun _ => .result _

end Interchangeable

/-- A table operation that changes the number of no string. -/
def Harmless (table : TableId) (q : Storage.Request) : Prop :=
  ∃ id op, q = .table id op ∧ ∀ T a T', id = table → T.perform op = .ok (a, T') →
    ∀ e number, NumberedAs T e number → NumberedAs T' e number

theorem Quiet.answer (h : Quiet table u) {q : Storage.Request} (hq : Harmless table q) :
    Quiet table (answer q u).2 := by
  obtain ⟨id, op, rfl, hkept⟩ := hq
  have hnumbers : ∀ e number, NumberedAs (u.storage.contents table) e number →
      NumberedAs ((Unsteady.answer (.table id op) u).2.storage.contents table) e number := by
    intro e number hid
    rcases u.answer_table id op with ⟨err, heq⟩ | ⟨a, T, hperform, heq⟩ <;> rw [heq]
    · rwa [contents_evicted]
    · rw [contents_update]
      split
      · next htable => exact hkept _ a T htable.symm hperform e number (htable ▸ hid)
      · rwa [contents_evicted]
  refine ⟨?_, ?_, h.remembers.answer_table hnumbers⟩
  · simp only [Unsteady.answer, outagesAfter, h.steady, List.tail_nil]
  · rcases u.answer_table id op with ⟨err, heq⟩ | ⟨a, T, -, heq⟩ <;> rw [heq]
    · rw [catalog_evicted]
      exact h.reach
    · rw [available_update, catalog_evicted]
      exact h.reach

theorem interchangeable_of_harmless (hp : p.Only (Harmless table)) :
    Interchangeable table p p := by
  intro u v huv
  have hquiet : ∀ {u}, Quiet table u → Quiet table (p.run answer u).2 := fun h =>
    hp.run (Quiet table) (fun _ _ hq hu => hu.answer hq) h
  have halike : u.Alike v := ⟨huv.catalog, huv.left.steady.trans huv.right.steady.symm⟩
  obtain ⟨hsame, hcatalog, -⟩ :=
    run_alike (Program.only_mono (fun _ ⟨id, op, hq, _⟩ => ⟨id, op, hq⟩) hp) halike
  have hu := hquiet huv.left
  have hv := hquiet huv.right
  rcases hrun : p.run answer u with ⟨e | a, u'⟩ <;>
    rcases hrun' : p.run answer v with ⟨e' | a', v'⟩ <;>
    rw [hrun, hrun'] at hsame <;> rw [hrun] at hu hcatalog <;> rw [hrun'] at hv hcatalog
  · exact .failed e e' u' v'
  · cases hsame
  · cases hsame
  · cases hsame
    exact .done a ⟨hu, hv, hcatalog⟩

end Unsteady

open Unsteady

namespace EntityTable

variable {t : EntityTable} {u v : Unsteady} {e : Entity} {id : UInt32}

theorem Numbers.harmless {q : Storage.Request} (h : t.Numbers q) : Harmless t.table q := by
  obtain ⟨op, rfl, hop⟩ := h
  exact ⟨t.table, op, rfl, fun T a T' _ hperform _ _ => hop.numberedAs hperform⟩

theorem interchangeable_readOrAllocate (t : EntityTable) (e : Entity) :
    Interchangeable t.table (t.readOrAllocate e) (t.readOrAllocate e) :=
  interchangeable_of_harmless
    (Program.only_mono (fun _ h => h.harmless) (t.readOrAllocate_numbers e))

theorem readOrAllocate_run_quiet (hu : Quiet t.table u)
    (hid : NumberedAs (u.storage.contents t.table) e id) :
    ∃ u', (t.readOrAllocate e).run Unsteady.answer u = (.ok id, u') ∧ Abreast t.table u' u := by
  have hget : ((get t.table e.nameRow idColumn).run Unsteady.answer u).1 =
      .ok (some (Bytes.ofUInt32 id)) := by
    rw [NumberedAs, ← contents_evicted] at hid
    simp only [Storage.get, perform, Program.request, Program.run_call, Program.run_result,
      Unsteady.answer, outage?, hu.steady, List.head?_nil, Option.join_none, answer_table_eq,
      catalog_evicted, hu.reach, if_true, Table.perform, hid]
  have hread : (t.read e).run Unsteady.answer u =
      (.ok (some id), ((get t.table e.nameRow idColumn).run Unsteady.answer u).2) := by
    simp only [read, Program.bind_eq]
    rw [Program.run_bind_of_ok (Prod.ext hget rfl)]
    simp only [readId_ofUInt32]
    rfl
  have hfound : (t.readOrAllocate e).run Unsteady.answer u =
      (.ok id, ((get t.table e.nameRow idColumn).run Unsteady.answer u).2) :=
    Program.run_bind_of_ok hread
  obtain ⟨u', hcatalog, ⟨err, hrun⟩ | hrun⟩ := Question.readOrAllocate_run_of_numbered hid
  · cases hrun.symm.trans hfound
  · have hall := interchangeable_readOrAllocate t e u u ⟨hu, hu, rfl⟩
    rw [hrun] at hall
    cases hall with
    | done a h => exact ⟨u', hrun, h.left, hu, hcatalog⟩

theorem interchangeable_resolve_readOrAllocate (t : EntityTable) (e : Entity) :
    Interchangeable t.table (t.resolve e) (t.readOrAllocate e) := by
  intro u v huv
  let u₁ : Unsteady := ⟨u.evicted, u.outages, u.evictions.tail⟩
  have hu₁ : Abreast t.table u₁ v :=
    ⟨⟨huv.left.steady, u.catalog_evicted ▸ huv.left.reach, huv.left.remembers.evicted⟩, huv.right,
      u.catalog_evicted.trans huv.catalog⟩
  have hknown : (known t.cache e).run Unsteady.answer u = (.ok (u.evicted.memory t.cache e), u₁) :=
    rfl
  rw [resolve_eq, throughMemory, Program.run_bind_of_ok hknown]
  cases hmemory : u.evicted.memory t.cache e with
  | some id =>
      -- what the memory says, the other side reads from the table
      have hid := hu₁.left.remembers t.cache e id hmemory
      rw [hu₁.contents_eq] at hid
      obtain ⟨v', hrun, hv'⟩ := readOrAllocate_run_quiet huv.right hid
      rw [hrun]
      exact .done id (hu₁.trans hv'.symm)
  | none =>
      have hmet := interchangeable_readOrAllocate t e u₁ v hu₁
      rcases hrun : (t.readOrAllocate e).run Unsteady.answer u₁ with ⟨err | id, u'⟩
      · rw [hrun] at hmet
        generalize (t.readOrAllocate e).run Unsteady.answer v = y at hmet ⊢
        cases hmet with
        | failed e e' u v =>
            rw [Program.run_bind_of_error hrun]
            exact .failed ..
      · have hid := readOrAllocate_run_ok hrun
        rw [hrun] at hmet
        generalize (t.readOrAllocate e).run Unsteady.answer v = y at hmet ⊢
        rw [Program.run_bind_of_ok hrun]
        cases hmet with
        | done a h =>
            rw [← contents_evicted] at hid
            refine .done id ⟨⟨h.left.steady, ?_, h.left.remembers.evicted.noted hid⟩, h.right, ?_⟩
            · exact u'.catalog_evicted ▸ h.left.reach
            · exact u'.catalog_evicted.trans h.catalog

theorem interchangeable_resolve (t : EntityTable) (e : Entity) :
    Interchangeable t.table (t.resolve e) (t.resolve e) :=
  (t.interchangeable_resolve_readOrAllocate e).trans
    (t.interchangeable_resolve_readOrAllocate e).symm

theorem resolve_run_quiet (hu : Quiet t.table u)
    (hid : NumberedAs (u.storage.contents t.table) e id) :
    ∃ u', (t.resolve e).run Unsteady.answer u = (.ok id, u') ∧ Abreast t.table u' u := by
  obtain ⟨u₁, hrun, hu₁⟩ := readOrAllocate_run_quiet hu hid
  have hmet := t.interchangeable_resolve_readOrAllocate e u u ⟨hu, hu, rfl⟩
  rw [hrun] at hmet
  generalize hresolve : (t.resolve e).run Unsteady.answer u = x at hmet
  cases hmet with
  | done a h => exact ⟨_, rfl, h.trans hu₁⟩

end EntityTable

namespace FactTable

variable {t : FactTable} {u : Unsteady} {m : Metric} {k : SeriesNumbers} {series : Series}

theorem interchangeable_resolveTag (t : FactTable) (tag : String × String) :
    Interchangeable t.entities.table (t.resolveTag tag) (t.resolveTag tag) :=
  (t.entities.interchangeable_resolve _).bind fun _ =>
    (t.entities.interchangeable_resolve _).bind fun _ => .result _

theorem interchangeable_numbers (t : FactTable) (series : Series) :
    Interchangeable t.entities.table (t.numbers series) (t.numbers series) :=
  (t.entities.interchangeable_resolve _).bind fun _ =>
    (Interchangeable.mapM t.interchangeable_resolveTag).bind fun _ => .result _

theorem interchangeable_enter (t : FactTable) (m : Metric) (k : SeriesNumbers) (table : TableId) :
    Interchangeable table (t.enter m k) (t.enter m k) := by
  refine interchangeable_of_harmless ⟨⟨t.table, t.entry m k, rfl, ?_⟩, fun _ _ =>
    Program.only_result _⟩
  intro T a T' _ hperform e number hid
  rw [of_perform_entry hperform]
  exact numberedAs_entered.mpr hid

theorem interchangeable_write (t : FactTable) (m : Metric) :
    Interchangeable t.entities.table (t.write m) (t.write m) := by
  rw [write_eq]
  exact (Interchangeable.result _).bind fun _ => (t.interchangeable_numbers _).bind fun k =>
    t.interchangeable_enter m k _

theorem resolveTag_run_quiet (hu : Quiet t.entities.table u) {tag : String × String}
    {ids : UInt32 × UInt32} (hids : TagNumbers (u.storage.contents t.entities.table) tag ids) :
    ∃ u', (t.resolveTag tag).run Unsteady.answer u = (.ok ids, u') ∧
      Abreast t.entities.table u' u := by
  obtain ⟨u₁, hname, hu₁⟩ := EntityTable.resolve_run_quiet hu hids.1
  obtain ⟨u₂, hvalue, hu₂⟩ :=
    EntityTable.resolve_run_quiet hu₁.left (hu₁.contents_eq _ ▸ hids.2)
  refine ⟨u₂, ?_, hu₂.trans hu₁⟩
  simp only [resolveTag, Program.bind_eq]
  rw [Program.run_bind_of_ok hname, Program.run_bind_of_ok hvalue]
  rfl

theorem resolveTags_run_quiet (hu : Quiet t.entities.table u) {tags : List (String × String)}
    {ids : List (UInt32 × UInt32)}
    (hids : List.Forall₂ (TagNumbers (u.storage.contents t.entities.table)) tags ids) :
    ∃ u', (tags.mapM t.resolveTag).run Unsteady.answer u = (.ok ids, u') ∧
      Abreast t.entities.table u' u := by
  induction tags generalizing u ids with
  | nil =>
      cases hids
      exact ⟨u, rfl, hu, hu, rfl⟩
  | cons tag tags ih =>
      cases hids with
      | cons hfirst hrest =>
          obtain ⟨u₁, hrun, hu₁⟩ := resolveTag_run_quiet hu hfirst
          obtain ⟨u₂, hrun', hu₂⟩ := ih hu₁.left (hu₁.contents_eq _ ▸ hrest)
          refine ⟨u₂, ?_, hu₂.trans hu₁⟩
          simp only [List.mapM_cons, Program.bind_eq, Program.pure_eq]
          rw [Program.run_bind_of_ok hrun, Program.run_bind_of_ok hrun']
          rfl

theorem numbers_run_quiet (hu : Quiet t.entities.table u)
    (hk : SeriesNumbered (u.storage.contents t.entities.table) series k) :
    ∃ u', (t.numbers series).run Unsteady.answer u = (.ok k, u') ∧
      Abreast t.entities.table u' u := by
  obtain ⟨u₁, hmetric, hu₁⟩ := EntityTable.resolve_run_quiet hu hk.1
  obtain ⟨u₂, htags, hu₂⟩ := resolveTags_run_quiet hu₁.left (hu₁.contents_eq _ ▸ hk.2)
  refine ⟨u₂, ?_, hu₂.trans hu₁⟩
  simp only [numbers, Program.bind_eq]
  rw [Program.run_bind_of_ok hmetric, Program.run_bind_of_ok htags]
  rfl

theorem write_concur (hm : m.defect? = none) (hu : Quiet t.entities.table u)
    (hk : SeriesNumbered (u.storage.contents t.entities.table) m.series k) :
    Concur t.entities.table ((t.write m).run Unsteady.answer u)
      ((t.enter m k).run Unsteady.answer u) := by
  obtain ⟨u₁, hnumbers, hu₁⟩ := numbers_run_quiet hu hk
  rw [write_eq, Metric.validate_eq hm]
  simp only [Program.bind]
  rw [Program.run_bind_of_ok hnumbers]
  exact t.interchangeable_enter m k _ u₁ u hu₁

end FactTable

end Rollup
