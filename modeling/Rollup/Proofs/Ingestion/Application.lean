import Rollup.Proofs.Ingestion.Journal

namespace Rollup.Ingestion

open Storage Entity Program

variable {α β κ : Type}

/-- Who takes part: the processor, the table of its strings, the partitions that it serves,
and which partitions each of its calls has for itself. -/
structure Setting (κ : Type) where
  processor : Processor
  entities : EntityTable
  served : List Nat
  owns : κ → Nat → Prop
  /-- The partition that a call takes its steps for. -/
  call : κ → Option Nat

namespace Setting

/-- A call relies on the offsets of its partitions. An onlooker, who is no call, sees
nothing but growth. -/
def discipline (c : Setting κ) : Discipline (Option κ) Journaled Unit where
  within x := x.state.bus.Bounded
  inv x _ := Kept c.processor c.entities c.served x
  rely i x y := Grown c.processor x.1 y.1 ∧
    ∀ j, i = some j → ∀ partition, c.owns j partition → Same c.processor partition x.1 y.1
  refl _ _ := ⟨.refl _ _, fun _ _ partition _ => .refl _ partition _⟩
  trans _ _ _ _ h h' := ⟨h.1.trans h'.1,
    fun j hj partition howns => (h.2 j hj partition howns).trans (h'.2 j hj partition howns)⟩

/-- Storage work that leaves all offsets alone; if it ends well, `Q` holds. -/
def Does (c : Setting κ) (j : κ) (Q : α → Journaled → Prop) (w : Storage.Work α)
    (x : Journaled) : Prop :=
  w.Ensures c.discipline (enterStorage (c.call j)) Storage.fallible (some j) (fun a y => Q a y.1) (x, ())

variable {c : Setting κ} {j : κ} {x y : Journaled} {Q : α → Journaled → Prop}

theorem rely_of_calm (h : Calm c.processor c.entities x y) (i : Option κ) :
    c.discipline.rely i (x, ()) (y, ()) :=
  ⟨h.toGrown, fun _ _ partition _ => h.same partition⟩

theorem does_result {outcome : Except Error α}
    (h : ∀ y, Grown c.processor x y → ∀ a, outcome = .ok a → Q a y) :
    c.Does j Q (.result outcome) x :=
  ensures_result fun y hy _ => h y.1 hy.1

theorem does_bind {R : β → Journaled → Prop} {w : Storage.Work α} {f : α → Storage.Work β}
    (hw : c.Does j Q w x)
    (hf : ∀ a y, Kept c.processor c.entities c.served y → Grown c.processor x y → Q a y →
      c.Does j R (f a) y) : c.Does j R (w.bind f) x :=
  ensures_bind hw fun a y hinv hrely ha => hf a y.1 hinv hrely.1 ha

theorem does_request {q : Storage.Request} {Q : q.Answer → Journaled → Prop}
    (hQ : ∀ a y z, c.discipline.rely (some j) (y, ()) (z, ()) → Q a y → Q a z)
    (h : ∀ y, Grown c.processor x y → Kept c.processor c.entities c.served y →
      Calm c.processor c.entities y (enterStorage (c.call j) q y).2 ∧
        ∀ a, (enterStorage (c.call j) q y).1 = .ok a → Q a (enterStorage (c.call j) q y).2) :
    c.Does j Q (Program.request (I := Storage.interface) q) x := by
  refine ensures_request (fun a y z hz _ ha => hQ a y.1 z.1 hz ha) fun y hy hinv => ?_
  obtain ⟨hcalm, hanswer⟩ := h y.1 hy.1 hinv
  exact ⟨(), hinv.calm hcalm, rely_of_calm hcalm, hanswer⟩

theorem does_perform {id : TableId} (op : TableOp) {Q : op.Answer → Journaled → Prop}
    (hQ : ∀ a y z, c.discipline.rely (some j) (y, ()) (z, ()) → Q a y → Q a z)
    (h : ∀ y, Grown c.processor x y → Kept c.processor c.entities c.served y → ∀ a T,
      (y.state.storage.contents id).perform op = .ok (a, T) →
        Settled (y.state.storage.contents id) T ∧
          Q a (y.next (c.call j) { y.state with storage := y.state.storage.update id T })) :
    c.Does j Q (perform id op) x := by
  refine does_request (q := .table id op) hQ fun y hy hinv => ?_
  simp only [enterStorage]
  rcases answer_table y.state.storage id op with ⟨e, herror⟩ | ⟨a, T, hperform, hok⟩
  · rw [herror]
    refine ⟨calm_next rfl rfl rfl, fun a ha => ?_⟩
    cases ha
  · rw [hok]
    obtain ⟨hsettled, hpost⟩ := h y hy hinv a T hperform
    refine ⟨calm_update hsettled, fun a' ha' => ?_⟩
    cases ha'
    exact hpost

theorem does_get {id : TableId} {row column : Bytes} :
    c.Does j (fun found y => column = idColumn → ∀ cell, found = some cell →
      (y.state.storage.contents id).cell? row idColumn = some cell) (get id row column) x := by
  refine does_perform (.get row column) ?_ ?_
  · intro found y z hz hfound hcolumn cell hcell
    exact hz.1.numbers id row cell (hfound hcolumn cell hcell)
  · intro y _ _ found T hperform
    cases hperform
    refine ⟨.refl _, ?_⟩
    rintro rfl cell hcell
    simp only [Journaled.next, contents_update, if_true]
    exact hcell

variable {e : Entity}

def Known (c : Setting κ) (e : Entity) (id : UInt32) (y : Journaled) : Prop :=
  NumberedAs (y.state.storage.contents c.entities.table) e id

theorem Known.grown {id : UInt32} {z : Journaled} (h : c.Known e id y)
    (hz : Grown c.processor y z) : c.Known e id z :=
  hz.numberedAs h

theorem does_read (e : Entity) (x : Journaled) :
    c.Does j (fun found y => ∀ id, found = some id → c.Known e id y) (c.entities.read e) x := by
  simp only [EntityTable.read, Program.bind_eq, Program.pure_eq]
  refine does_bind does_get fun found y _ _ hfound => ?_
  cases found with
  | none =>
      refine does_result fun z _ found hend id hid => ?_
      cases hend
      cases hid
  | some cell =>
      refine does_result fun z hz found hend id hid => ?_
      subst hid
      cases hread : readId cell with
      | error err =>
          rw [hread] at hend
          cases hend
      | ok id' =>
          rw [hread] at hend
          cases hend
          rw [readId_eq_ok_iff] at hread
          have hid : c.Known e id y := (hfound rfl cell rfl).trans (congrArg some hread)
          exact hid.grown hz

theorem does_yieldClaim (e : Entity) (reserved : UInt32) (x : Journaled) :
    c.Does j (fun id y => c.Known e id y) (c.entities.yieldClaim e reserved) x := by
  simp only [EntityTable.yieldClaim, Program.bind_eq]
  refine ensures_bind (ensures_attempt (Q := fun _ _ => True) ?_) ?_
  · refine does_perform (Q := fun _ _ => True) (.swap ..) (fun _ _ _ _ h => h) ?_
    intro y _ _ a T hperform
    simp only [Table.perform] at hperform
    split at hperform
    · cases hperform
      exact ⟨settled_setCell _ (by decide) (fun h => absurd h (by decide)), trivial⟩
    · cases hperform
      exact ⟨.refl _, trivial⟩
  · intro _ y _ _ _
    refine does_bind (x := y.1) does_get fun found z _ _ hfound => ?_
    cases found with
    | none =>
        refine does_result fun w _ id hend => ?_
        cases hend
    | some cell =>
        refine does_result fun w hw id hread => ?_
        rw [readId_eq_ok_iff] at hread
        have hid : c.Known e id z := (hfound rfl cell rfl).trans (congrArg some hread)
        exact hid.grown hw

theorem does_allocate (e : Entity) (x : Journaled) :
    c.Does j (fun id y => c.Known e id y) (c.entities.allocate e) x := by
  simp only [EntityTable.allocate, Program.bind_eq]
  refine does_bind (Q := fun _ _ => True) ?_ fun next y _ _ _ => ?_
  · refine does_perform (.incrementAndGet ..) (fun _ _ _ _ h => h) ?_
    intro y _ _ a T hperform
    obtain ⟨-, rfl⟩ := Table.of_add_ok hperform
    exact ⟨settled_setCell _ (by decide) (fun h => absurd h (by decide)), trivial⟩
  · split
    · refine does_bind (Q := fun _ _ => True) ?_ fun _ z _ _ _ => ?_
      · refine does_perform (.put ..) (fun _ _ _ _ h => h) ?_
        intro z _ _ a T hperform
        cases hperform
        exact ⟨settled_setCell _ (by decide) (fun h => absurd h (by decide)), trivial⟩
      · refine does_bind (Q := fun claimed w => claimed = true →
          c.Known e next.toUInt64.toUInt32 w) ?_ fun claimed w _ _ hclaimed => ?_
        · refine does_perform (.swap ..) (fun _ _ _ hz h hc => Known.grown (h hc) hz.1) ?_
          intro w _ _ claimed T hperform
          simp only [Table.perform] at hperform
          split at hperform
          · next hfree =>
            cases hperform
            refine ⟨settled_setCell _ (by decide) (fun _ => hfree), fun _ => ?_⟩
            simp only [Known, NumberedAs, Journaled.next, contents_update, if_true,
              Table.cell?_setCell, and_self]
          · cases hperform
            refine ⟨.refl _, fun h => ?_⟩
            cases h
        · cases claimed with
          | true =>
              refine does_result fun v hv id hend => ?_
              cases hend
              exact Known.grown (hclaimed rfl) hv
          | false => exact does_yieldClaim e _ w
    · refine does_result fun z _ id hend => ?_
      cases hend

theorem does_resolve (e : Entity) (x : Journaled) :
    c.Does j (fun id y => c.Known e id y) (c.entities.resolve e) x := by
  simp only [EntityTable.resolve, Program.bind_eq, Program.pure_eq]
  refine does_bind (Q := fun found y => ∀ id, found = some id → c.Known e id y) ?_
    fun found y _ _ hfound => ?_
  · refine does_request (q := .known ..) ?_ ?_
    · intro found y z hz h id hid
      exact Known.grown (h id hid) hz.1
    · intro y _ hinv
      refine ⟨calm_next rfl rfl rfl, ?_⟩
      intro found hend id hid
      subst hid
      exact hinv.remembered e id (Except.ok.inj hend)
  · cases found with
    | some id =>
        refine does_result fun z hz id' hend => ?_
        cases hend
        exact Known.grown (hfound id rfl) hz
    | none =>
        refine does_bind (Q := fun id z => c.Known e id z) ?_ fun id z _ _ hid => ?_
        · simp only [EntityTable.readOrAllocate, Program.bind_eq, Program.pure_eq]
          refine does_bind (does_read e y) fun found z _ _ hfound => ?_
          cases found with
          | some id =>
              refine does_result fun w hw id' hend => ?_
              cases hend
              exact Known.grown (hfound id rfl) hw
          | none => exact does_allocate e z
        · refine does_bind (Q := fun _ w => c.Known e id w) ?_ fun _ w _ _ hid => ?_
          · refine does_request (q := .remember ..) (fun _ _ _ hz h => Known.grown h hz.1) ?_
            intro w hw _
            have hid := Known.grown hid hw
            exact ⟨calm_noted fun _ => hid, fun _ _ => hid⟩
          · refine does_result fun v hv id' hend => ?_
            cases hend
            exact Known.grown hid hv

variable {t : FactTable} {o : Occurrence} {os : List Occurrence} {m : Metric}
  {partition : Nat} {message : Message}

theorem does_resolveTag (ht : t.entities = c.entities) (tag : String × String) (x : Journaled) :
    c.Does j (fun ids y => TagNumbers (y.state.storage.contents c.entities.table) tag ids)
      (t.resolveTag tag) x := by
  simp only [FactTable.resolveTag, Program.bind_eq, Program.pure_eq, ht]
  refine does_bind (does_resolve ⟨.tagName, tag.1⟩ x) fun name y _ _ hname => ?_
  refine does_bind (does_resolve ⟨.tagValue, tag.2⟩ y) fun value z _ hz hvalue => ?_
  refine does_result fun w hw ids hend => ?_
  cases hend
  exact ⟨(hname.grown hz).grown hw, hvalue.grown hw⟩

theorem settled_columnOf (t : FactTable) (T : Table) (row : Bytes) (time : Int64)
    (value : Option Bytes) : Settled T (T.setCell row (t.columnOf time) value) := by
  have hlength : (t.columnOf time).length = 2 := by
    simp [FactTable.columnOf, Place.encodeOffset]
  refine settled_setCell T ?_ ?_
  · intro h
    rw [h] at hlength
    cases hlength
  · intro h
    rw [h] at hlength
    cases hlength

theorem does_write
    (ht : (c.processor.store.table o.resolution).current.entities = c.entities)
    (hcall : c.call j = some o.partition) (hvalue : o.value? = some m)
    (hmessage : x.state.bus.Holds (c.processor.config.topic o.partition) o.message)
    (hentered : c.processor.Entered os x.journal) :
    c.Does j (fun _ y => c.processor.Entered (os ++ [o]) y.journal)
      ((c.processor.store.table o.resolution).current.write m) x := by
  generalize htable : (c.processor.store.table o.resolution).current = t at ht
  simp only [FactTable.write, Program.bind_eq, ht]
  refine does_bind (Q := fun _ _ => True) (does_result fun _ _ _ _ => trivial)
    fun _ y hy hxy _ => ?_
  refine does_bind (does_resolve ⟨.metric, m.name⟩ y) fun metric z hz hyz hmetric => ?_
  refine does_bind (Q := fun ids w => List.Forall₂
      (TagNumbers (w.state.storage.contents c.entities.table)) m.tags.entries ids) ?_
    fun ids w _ hzw hids => ?_
  · refine ensures_mapM ?_ (fun tag _ w _ _ => does_resolveTag ht tag w.1) hz
    intro tag ids w v hv h
    exact h.mono fun _ _ => hv.1.numberedAs
  · let k : SeriesNumbers := ⟨metric, ids⟩
    -- the last step finds the numbers and the message still there
    have hlast : ∀ v, Grown c.processor w v → ∀ T,
        T = (v.state.storage.contents t.table).setCell (t.rowOf k m.timestamp)
          (t.columnOf m.timestamp) (some (Bytes.ofInt64 (m.applied
            (((v.state.storage.contents t.table).cell? (t.rowOf k m.timestamp)
              (t.columnOf m.timestamp)).map Bytes.toInt64)))) →
        Settled (v.state.storage.contents t.table) T ∧
          c.processor.Entered (os ++ [o]) (v.next (c.call j)
            { v.state with storage := v.state.storage.update t.table T }).journal := by
      rintro v hwv T rfl
      have hxv : Grown c.processor x v := ((hxy.trans hyz).trans hzw).trans hwv
      refine ⟨settled_columnOf t _ _ _ _, (hentered.mono hxv.journal).concat
        ⟨hcall, hxv.holds hmessage, m, hvalue, ?_⟩⟩
      rw [htable]
      refine ⟨k, ?_, rfl⟩
      rw [ht]
      exact ⟨(hmetric.grown hzw).grown hwv, hids.imp fun _ _ h => h.mono fun _ _ => hwv.numberedAs⟩
    have hstable : ∀ (y z : Journaled), c.discipline.rely (some j) (y, ()) (z, ()) →
        c.processor.Entered (os ++ [o]) y.journal → c.processor.Entered (os ++ [o]) z.journal :=
      fun _ _ hz h => h.mono hz.1.journal
    cases hkind : m.kind with
    | counter =>
        refine does_perform (.increment ..) (fun _ => hstable) ?_
        intro v hwv _ a T hperform
        simp only [Table.perform, Except.map] at hperform
        split at hperform
        · cases hperform
        · next added hadd =>
          cases hperform
          obtain ⟨hupdated, hT⟩ := Table.of_add_ok hadd
          refine hlast v hwv _ ?_
          rw [hT, hupdated]
          simp only [Metric.applied, hkind]
          rfl
    | gauge =>
        refine does_perform (.put ..) (fun _ => hstable) ?_
        intro v hwv _ a T hperform
        cases hperform
        refine hlast v hwv _ ?_
        simp only [Metric.applied, hkind]
        rfl

theorem does_writeAll {r : Resolution} {ms : List Metric} {os' : List Occurrence}
    (ht : (c.processor.store.table r).current.entities = c.entities)
    (hcall : c.call j = some partition)
    (hvalues : List.Forall₂ (fun o m => o.partition = partition ∧ o.message = message ∧
      o.resolution = r ∧ o.value? = some m) os' ms)
    (hmessage : x.state.bus.Holds (c.processor.config.topic partition) message)
    (hentered : c.processor.Entered os x.journal) :
    c.Does j (fun _ y => c.processor.Entered (os ++ os') y.journal)
      ((c.processor.store.table r).current.writeAll ms) x := by
  induction hvalues generalizing x os with
  | nil =>
      refine does_result fun y hy _ _ => ?_
      rw [List.append_nil]
      exact hentered.mono hy.journal
  | @cons o m os' ms ho _ ih =>
      obtain ⟨rfl, rfl, rfl, hvalue⟩ := ho
      simp only [FactTable.writeAll, Program.bind_eq]
      refine does_bind (does_write ht hcall hvalue hmessage hentered) fun _ y _ hxy hm => ?_
      rw [List.append_cons]
      exact ih (hxy.holds hmessage) hm

/-- Each value of a batch that was written has a step of its own at every resolution. -/
theorem does_addAll (hstore : ∀ r, (c.processor.store.table r).current.entities = c.entities)
    {batch : List Metric} (hbatch : Batch.decode message.payload = .ok batch)
    (hcall : c.call j = some partition)
    (hmessage : x.state.bus.Holds (c.processor.config.topic partition) message)
    (hentered : c.processor.Entered os x.journal) :
    c.Does j (fun _ y => c.processor.Entered (os ++ Occurrence.all partition message) y.journal)
      (c.processor.store.addAll batch) x := by
  have hvalues : ∀ r, List.Forall₂ (fun (o : Occurrence) m => o.partition = partition ∧
      o.message = message ∧ o.resolution = r ∧ o.value? = some m)
      (Occurrence.first batch.length partition message r) batch := by
    intro r
    refine List.forall₂_iff_get.mpr ⟨by simp [Occurrence.first], fun place _ hlt => ?_⟩
    simp [Occurrence.first, Occurrence.value?, hbatch, hlt]
  have hall : ∀ (rs : List Resolution) (os : List Occurrence) (x : Journaled),
      x.state.bus.Holds (c.processor.config.topic partition) message →
      c.processor.Entered os x.journal →
      c.Does j (fun _ y => c.processor.Entered
        (os ++ rs.flatMap (Occurrence.first batch.length partition message)) y.journal)
        (c.processor.store.writeAllTo batch rs) x := by
    intro rs
    induction rs with
    | nil =>
        intro os x _ hentered
        refine does_result fun y hy _ _ => ?_
        rw [List.flatMap_nil, List.append_nil]
        exact hentered.mono hy.journal
    | cons r rs ih =>
        intro os x hmessage hentered
        simp only [MetricStore.writeAllTo, Program.bind_eq]
        refine does_bind (does_writeAll (hstore r) hcall (hvalues r) hmessage hentered)
          fun _ y _ hxy hr => ?_
        rw [List.flatMap_cons, ← List.append_assoc]
        exact ih _ y (hxy.holds hmessage) hr
  simp only [MetricStore.addAll, Program.bind_eq, Occurrence.all, hbatch]
  refine does_bind (Q := fun _ _ => True) (does_result fun _ _ _ _ => trivial)
    fun _ y _ hxy _ => ?_
  exact hall Resolution.all os y (hxy.holds hmessage) (hentered.mono hxy.journal)

end Setting

end Rollup.Ingestion
