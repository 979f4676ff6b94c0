import Rollup.Proofs.Ingestion.Application
import Rollup.Proofs.Ingestion.Offsets

namespace Rollup.Ingestion

open Storage Program

variable {α κ : Type} {c : Setting κ} {j : κ} {x y z : Journaled} {context : Context}
  {p : Processor} {partition : Nat} {message : Message}

theorem safe_onStorage {D : Discipline (Option κ) Journaled Unit} {i : Option κ}
    {post : Except Error α → Journaled × Unit → Prop} {w : Storage.Work α} {call : Option Nat}
    {x : Journaled × Unit}
    (h : w.Safe D (enterStorage call) Storage.fallible i post x) :
    (onStorage w).Safe D (enter context call) fallible i post x := by
  induction w generalizing x with
  | result outcome => exact h
  | call q resume ih =>
      intro y hrely hinv how hwithin
      have hmet : treat (enter context call) fallible (.storage q) y.1 how =
          treat (enterStorage call) Storage.fallible q y.1 how := by
        cases how <;> rfl
      rw [hmet] at hwithin ⊢
      obtain ⟨g, hinv', hothers, hrest⟩ := h y hrely hinv how hwithin
      exact ⟨g, hinv', hothers, ih _ hrest⟩

theorem ensures_onStorage {Q : α → Journaled → Prop} {w : Storage.Work α} (h : c.Does j Q w x) :
    (onStorage w).Ensures c.discipline (enter context (c.call j)) fallible (some j)
      (fun a y => Q a y.1) (x, ()) :=
  safe_onStorage h

theorem ensures_aside {q : Request} {Q : q.Answer → Journaled → Prop}
    (hbus : ∀ s, (answer context q s).2.bus = s.bus)
    (hstorage : ∀ s, (answer context q s).2.storage = s.storage)
    (hoffsets : ∀ s, (answer context q s).2.offsets = s.offsets)
    (hQ : ∀ a y z, c.discipline.rely (some j) (y, ()) (z, ()) → Q a y → Q a z)
    (h : ∀ y, c.discipline.rely (some j) (x, ()) (y, ()) →
      Kept c.processor c.entities c.served y → ∀ a,
        (answer context q y.state).1 = .ok a → Q a (y.next (c.call j) (answer context q y.state).2)) :
    (Program.request (I := interface) q).Ensures c.discipline (enter context (c.call j)) fallible (some j)
      (fun a y => Q a y.1) (x, ()) := by
  refine ensures_request (fun a y z hz _ ha => hQ a y.1 z.1 hz ha) fun y hy hinv => ?_
  have hcalm : Calm c.processor c.entities y.1 (y.1.next (c.call j) (answer context q y.1.state).2) :=
    calm_next (hbus _) (hstorage _) (hoffsets _)
  exact ⟨(), hinv.calm hcalm, Setting.rely_of_calm hcalm, fun a ha => h y.1 hy hinv a ha⟩

theorem ensures_increment (name : String) (delta : Int64) (x : Journaled) :
    (increment name delta).Ensures c.discipline (enter context (c.call j)) fallible (some j)
      (fun _ _ => True) (x, ()) :=
  ensures_aside (q := .increment name delta) (Q := fun _ _ => True) (fun _ => rfl)
    (fun _ => rfl) (fun _ => rfl) (fun _ _ _ _ h => h) fun _ _ _ _ _ => trivial

theorem ensures_gauge (name : String) (value : Int64) (x : Journaled) :
    (gauge name value).Ensures c.discipline (enter context (c.call j)) fallible (some j)
      (fun _ _ => True) (x, ()) :=
  ensures_aside (q := .gauge name value) (Q := fun _ _ => True) (fun _ => rfl)
    (fun _ => rfl) (fun _ => rfl) (fun _ _ _ _ h => h) fun _ _ _ _ _ => trivial

theorem ensures_committed (howns : c.owns j partition) (x : Journaled) :
    (committed partition).Ensures c.discipline (enter context (c.call j)) fallible (some j)
      (fun after y => y.1.state.offsets.get? partition = after) (x, ()) := by
  refine ensures_aside (q := .committed partition)
    (Q := fun after y => y.state.offsets.get? partition = after)
    (fun _ => rfl) (fun _ => rfl) (fun _ => rfl) ?_ ?_
  · intro after y z hz h
    rw [(hz.2 j rfl partition howns).2, h]
  · intro y _ _ after hafter
    exact Except.ok.inj hafter

theorem ensures_fetch (howns : c.owns j partition) (hserved : partition ∈ c.served)
    {after : Option Nat} (hafter : x.state.offsets.get? partition = after) :
    (fetch (c.processor.config.topic partition) after c.processor.config.fetchLimit).Ensures
      c.discipline (enter context (c.call j)) fallible (some j) (fun messages y =>
        ∀ last, messages.getLast? = some last →
          Drawn c.processor partition messages last.offset y.1) (x, ()) := by
  refine ensures_aside (q := .fetch _ after _) (Q := fun messages y =>
      ∀ last, messages.getLast? = some last → Drawn c.processor partition messages last.offset y)
    (fun _ => rfl) (fun _ => rfl) (fun _ => rfl) ?_ ?_
  · intro messages y z hz h last hlast
    exact (h last hlast).mono hz.1 (hz.2 j rfl partition howns)
  · intro y hy hinv messages hmessages last hlast
    have hfetched := Bus.fetched_of_fetch hmessages hlast
    rw [← hafter, ← (hy.2 j rfl partition howns).2] at hfetched
    have hcalm : Calm c.processor c.entities y (y.next (c.call j) y.state) := calm_next rfl rfl rfl
    exact (drawn_of_fetched hinv hserved hfetched).mono hcalm.toGrown (hcalm.same partition)

theorem ensures_apply {os : List Occurrence}
    (hstore : ∀ r, (c.processor.store.table r).current.entities = c.entities)
    (hcall : c.call j = some partition)
    (hmessage : x.state.bus.Holds (c.processor.config.topic partition) message)
    (hentered : c.processor.Entered os x.journal) :
    (c.processor.apply message).Ensures c.discipline (enter context (c.call j)) fallible (some j)
      (fun _ y => c.processor.Entered (os ++ Occurrence.all partition message) y.1.journal)
      (x, ()) := by
  simp only [Processor.apply, Program.bind_eq, Program.pure_eq]
  split
  · next batch hbatch =>
    refine ensures_bind
      (ensures_onStorage (Setting.does_addAll hstore hbatch hcall hmessage hentered)) ?_
    intro _ y _ _ happlied
    exact ensures_result fun z hz _ _ _ => happlied.mono hz.1.journal
  · next fault hfault =>
    refine ensures_bind (ensures_increment _ _ x) fun _ y _ hy _ => ?_
    refine ensures_result fun z hz _ _ _ => ?_
    rw [Occurrence.all, hfault, List.append_nil]
    exact hentered.mono (hy.1.journal.trans hz.1.journal)

theorem ensures_mapM_apply {messages : List Message} {os : List Occurrence}
    (hstore : ∀ r, (c.processor.store.table r).current.entities = c.entities)
    (hcall : c.call j = some partition)
    (hmessages : ∀ message ∈ messages,
      x.state.bus.Holds (c.processor.config.topic partition) message)
    (hentered : c.processor.Entered os x.journal) :
    (messages.mapM c.processor.apply).Ensures c.discipline (enter context (c.call j)) fallible
      (some j) (fun _ y => c.processor.Entered
        (os ++ messages.flatMap (Occurrence.all partition)) y.1.journal) (x, ()) := by
  induction messages generalizing x os with
  | nil =>
      refine ensures_result fun y hy _ _ _ => ?_
      rw [List.flatMap_nil, List.append_nil]
      exact hentered.mono hy.1.journal
  | cons message messages ih =>
      obtain ⟨hmessage, hmessages⟩ := List.forall_mem_cons.mp hmessages
      simp only [List.mapM_cons, Program.bind_eq, Program.pure_eq]
      refine ensures_bind (ensures_apply hstore hcall hmessage hentered) fun _ y _ hy happlied => ?_
      have hrest := ih (x := y.1) (fun message hmem => hy.1.holds (hmessages message hmem)) happlied
      refine ensures_bind hrest fun _ z _ _ hall => ?_
      refine ensures_result fun w hw _ _ _ => ?_
      rw [List.flatMap_cons, ← List.append_assoc]
      exact hall.mono hw.1.journal

theorem ensures_applyAll {messages : List Message} {os : List Occurrence}
    (hstore : ∀ r, (c.processor.store.table r).current.entities = c.entities)
    (hcall : c.call j = some partition)
    (hmessages : ∀ message ∈ messages,
      x.state.bus.Holds (c.processor.config.topic partition) message)
    (hentered : c.processor.Entered os x.journal) :
    (c.processor.applyAll messages).Ensures c.discipline (enter context (c.call j)) fallible
      (some j) (fun _ y => c.processor.Entered
        (os ++ messages.flatMap (Occurrence.all partition)) y.1.journal) (x, ()) := by
  simp only [Processor.applyAll, Program.bind_eq, Program.pure_eq]
  refine ensures_bind (ensures_mapM_apply hstore hcall hmessages hentered) fun _ y _ _ hall => ?_
  exact ensures_result fun z hz _ _ _ => hall.mono hz.1.journal

/-- The processor has taken up the saved offset of a partition. -/
def Level (p : Processor) (y : Journaled) (partition : Nat) : Prop :=
  ∀ offset, p.saved? y.state partition = some offset →
    y.state.offsets.get? partition = some offset

theorem Level.of_same (h : Level p x partition) (hsame : Same p partition x y) :
    Level p y partition := by
  intro offset hsaved
  rw [hsame.1] at hsaved
  rw [hsame.2]
  exact h offset hsaved

theorem rely_of_same (hothers : ∀ j', j' ≠ j → ¬ c.owns j' partition)
    (hgrown : Grown c.processor x y)
    (hsame : ∀ partition', partition' ≠ partition → Same c.processor partition' x y)
    {i : Option κ} (hi : i ≠ some j) : c.discipline.rely i (x, ()) (y, ()) := by
  refine ⟨hgrown, fun j' hj' partition' howns => hsame partition' ?_⟩
  rintro rfl
  refine hothers j' ?_ howns
  rintro rfl
  exact hi hj'

theorem safe_perform {id : TableId} (op : TableOp) {Q : op.Answer → Journaled → Prop}
    (hQ : ∀ a y z, c.discipline.rely (some j) (y, ()) (z, ()) → Q a y → Q a z)
    (h : ∀ y, c.discipline.rely (some j) (x, ()) (y, ()) →
      Kept c.processor c.entities c.served y → y.state.bus.Bounded → ∀ a T,
        (y.state.storage.contents id).perform op = .ok (a, T) → ∀ z,
          z = y.next (c.call j) { y.state with storage := y.state.storage.update id T } →
            Kept c.processor c.entities c.served z ∧
              (∀ i, i ≠ some j → c.discipline.rely i (y, ()) (z, ())) ∧ Q a z) :
    (perform id op).Safe c.discipline (enterStorage (c.call j)) Storage.fallible (some j)
      (fun outcome y => ∀ a, outcome = .ok a → Q a y.1) (x, ()) := by
  refine safe_answer (fun a y z hz _ ha => hQ a y.1 z.1 hz ha) ?_
  intro y hy hinv hwithin
  rcases answer_table y.1.state.storage id op with ⟨e, herror⟩ | ⟨a, T, hperform, hok⟩
  · have hcalm : Calm c.processor c.entities y.1 (y.1.next (c.call j) y.1.state) :=
      calm_next rfl rfl rfl
    simp only [enterStorage, herror]
    refine ⟨(), hinv.calm hcalm, fun i _ => Setting.rely_of_calm hcalm i, fun a ha => ?_⟩
    cases ha
  · simp only [enterStorage, hok]
    obtain ⟨hkept, hothers, hpost⟩ := h y.1 hy hinv hwithin a T hperform _ rfl
    refine ⟨(), hkept, hothers, fun a' ha' => ?_⟩
    cases ha'
    exact hpost

theorem safe_save {messages : List Message} (progress : Progress)
    (howns : c.owns j partition) (hothers : ∀ j', j' ≠ j → ¬ c.owns j' partition)
    (hx : Kept c.processor c.entities c.served x)
    (hdrawn : Drawn c.processor partition messages progress.offset x)
    (hentered : c.processor.Entered ((c.processor.settled x.state partition ++ messages).flatMap
      (Occurrence.all partition)) x.journal) :
    (onStorage (c.processor.progress.save (c.processor.saved partition) progress)).Safe
      c.discipline (enter context (c.call j)) fallible (some j)
      (fun outcome y => ∀ a, outcome = .ok a →
        c.processor.saved? y.1.state partition = some progress.offset) (x, ()) := by
  refine safe_onStorage (safe_perform (.put ..)
    (Q := fun _ y => c.processor.saved? y.state partition = some progress.offset) ?_ ?_)
  · intro _ y z hz hsaved
    rw [(hz.2 j rfl partition howns).1, hsaved]
  · intro y hy hinv hbounded _ T hperform z hz
    cases hperform
    obtain rfl : z = y.saving c.processor (c.call j) partition progress := hz
    have hsame := hy.2 j rfl partition howns
    have hdrawn := hdrawn.mono hy.1 hsame
    have hmax : progress.offset ≤ Progress.maxOffset := by
      obtain ⟨log, hlog, hlt, -⟩ := hdrawn.log
      have := hbounded _ log hlog
      omega
    rw [← settled_of_same (hx.held partition) hy.1.logs hsame.1] at hentered
    obtain ⟨hkept, hgrown, hsame⟩ := hinv.saving hdrawn (hentered.mono hy.1.journal) hmax
    refine ⟨hkept, fun i hi => rely_of_same hothers hgrown hsame hi, ?_⟩
    rw [saved?_saving hmax, if_pos rfl]

theorem safe_commit (howns : c.owns j partition) (hothers : ∀ j', j' ≠ j → ¬ c.owns j' partition)
    {offset : Nat} (hsaved : c.processor.saved? x.state partition = some offset) :
    (commit partition offset).Safe c.discipline (enter context (c.call j)) fallible (some j)
      (fun outcome y => ∀ a, outcome = .ok a → Level c.processor y.1 partition ∧
        ∀ partition', partition' ≠ partition → c.owns j partition' →
          Same c.processor partition' x y.1) (x, ()) := by
  refine safe_answer (Q := fun _ y => Level c.processor y.1 partition ∧
    ∀ partition', partition' ≠ partition → c.owns j partition' →
      Same c.processor partition' x y.1) ?_ ?_
  · intro _ y z hz _ ⟨hlevel, hsame⟩
    refine ⟨hlevel.of_same (hz.2 j rfl partition howns), ?_⟩
    intro partition' hne hmine
    exact (hsame partition' hne hmine).trans (hz.2 j rfl partition' hmine)
  · intro y hy hinv _
    rw [← (hy.2 j rfl partition howns).1] at hsaved
    obtain ⟨hkept, hgrown, hsame⟩ := hinv.committing hsaved
    refine ⟨(), hkept, fun i hi => rely_of_same hothers hgrown hsame hi, fun a _ => ⟨?_, ?_⟩⟩
    · intro offset' hsaved'
      obtain rfl : offset = offset' := Option.some.inj (hsaved.symm.trans hsaved')
      simp [enter, answer, Journaled.next, SortedMap.get?_insert]
    · intro partition' hne hmine
      exact (hy.2 j rfl partition' hmine).trans (hsame partition' hne)

variable {entities : EntityTable}

def serving (p : Processor) (entities : EntityTable) (partitions : List Nat) : Setting Nat :=
  ⟨p, entities, partitions, Eq, some⟩

def restoring (p : Processor) (entities : EntityTable) : Setting Unit :=
  ⟨p, entities, [], fun _ _ => True, fun _ => none⟩

theorem safe_processOnce (hstore : ∀ r, (p.store.table r).current.entities = entities)
    {partitions : List Nat} (hserved : partition ∈ partitions) (worker : String)
    (assigned : List Nat) (context : Context) (x : Journaled) :
    (Processor.processOnce { p with worker, partitions := assigned, context } partition).Safe
      (serving p entities partitions).discipline (enter context (some partition)) fallible (some partition)
      (fun _ _ => True) (x, ()) := by
  have howns : (serving p entities partitions).owns partition partition := rfl
  have hothers : ∀ j', j' ≠ partition → ¬ (serving p entities partitions).owns j' partition :=
    fun _ hne h => hne h
  simp only [Processor.processOnce, Program.bind_eq, Program.pure_eq]
  refine safe_bind_of_ensures (ensures_committed howns x) ?_ (fun _ _ => trivial)
  intro after y _ _ hafter
  refine safe_bind_of_ensures (ensures_fetch howns hserved hafter) ?_ (fun _ _ => trivial)
  intro messages z hinv _ hdrawn
  split
  · exact fun _ _ _ => trivial
  · next last hlast =>
    have hdrawn := hdrawn last hlast
    refine safe_bind_of_ensures (ensures_applyAll hstore rfl (fun _ hmem => hdrawn.holds hmem)
      (hinv.taken partition)) ?_ (fun _ _ => trivial)
    intro written w hinv' hw hentered
    have hsame := hw.2 partition rfl partition howns
    rw [← settled_of_same (hinv.held partition) hw.1.logs hsame.1, ← List.flatMap_append]
      at hentered
    refine safe_bind (safe_save ⟨last.offset, worker⟩ howns hothers hinv'
      (hdrawn.mono hw.1 hsame) hentered) ?_ (fun _ _ _ _ => trivial)
    intro _ v _ hsaved
    refine safe_bind (safe_commit howns hothers (hsaved () rfl)) ?_ (fun _ _ _ _ => trivial)
    intro _ u _ _
    refine safe_bind_of_ensures (ensures_increment _ _ u.1) ?_ (fun _ _ => trivial)
    intro _ t _ _ _
    refine safe_bind_of_ensures (ensures_gauge _ _ t.1) ?_ (fun _ _ => trivial)
    exact fun _ _ _ _ _ _ _ _ => trivial

theorem ensures_readOffset (howns : c.owns j partition) (x : Journaled) :
    (onStorage (c.processor.progress.readOffset (c.processor.saved partition))).Ensures
      c.discipline (enter context (c.call j)) fallible (some j)
      (fun found y => c.processor.saved? y.1.state partition = found) (x, ()) := by
  have hstable : ∀ (found : Option Nat) (y z : Journaled),
      c.discipline.rely (some j) (y, ()) (z, ()) →
        c.processor.saved? y.state partition = found →
          c.processor.saved? z.state partition = found := by
    intro found y z hz h
    rw [(hz.2 j rfl partition howns).1, h]
  refine safe_onStorage ?_
  simp only [ProgressTable.readOffset, ProgressTable.read, Program.bind_eq, Program.pure_eq]
  refine ensures_bind (Q := fun found y =>
    c.processor.saved? y.1.state partition = found.map (·.offset)) ?_ ?_
  · refine ensures_bind (Q := fun cell y => c.processor.saved? y.1.state partition =
      (cell.bind Progress.decode?).map (·.offset)) ?_ ?_
    · refine Setting.does_perform (.get ..) (Q := fun cell y =>
        c.processor.saved? y.state partition = (cell.bind Progress.decode?).map (·.offset))
        (fun cell y z hz h => hstable _ y z hz h) ?_
      intro y _ _ cell T hperform
      cases hperform
      refine ⟨.refl _, ?_⟩
      simp only [Processor.saved?, ProgressTable.held?, Journaled.next, contents_update, if_true]
    · intro cell y _ _ hcell
      cases cell with
      | none =>
          refine ensures_result fun z hz _ found hend => ?_
          cases hend
          exact hstable _ y.1 z.1 hz hcell
      | some cell =>
          cases hdecode : Progress.decode? cell with
          | none =>
              simp only [hdecode]
              refine ensures_result fun z _ _ found hend => ?_
              cases hend
          | some progress =>
              simp only [hdecode]
              refine ensures_result fun z hz _ found hend => ?_
              cases hend
              rw [Option.bind_some, hdecode] at hcell
              exact hstable _ y.1 z.1 hz hcell
  · intro found y _ _ hfound
    refine ensures_result fun z hz _ offset hend => ?_
    cases hend
    exact hstable _ y.1 z.1 hz hfound

theorem safe_restoreAll (worker : String) (assigned : List Nat) (context : Context)
    (partitions : List Nat) (level : List Nat) (x : Journaled)
    (hlevel : ∀ partition ∈ level, Level p x partition) :
    (Processor.restoreAll { p with worker, partitions := assigned, context } partitions).Safe
      (restoring p entities).discipline (enter context none) fallible (some ())
      (fun outcome y => ∀ a, outcome = .ok a →
        ∀ partition ∈ level ++ partitions, Level p y.1 partition) (x, ()) := by
  have hsame : ∀ {x y}, (restoring p entities).discipline.rely (some ()) x y →
      ∀ partition, Same p partition x.1 y.1 :=
    fun hrely partition => hrely.2 () rfl partition trivial
  induction partitions generalizing level x with
  | nil =>
      intro y hrely _ _ _ partition hmem
      rw [List.append_nil] at hmem
      exact (hlevel partition hmem).of_same (hsame hrely partition)
  | cons partition partitions ih =>
      have hothers : ∀ j' : Unit, j' ≠ () → ¬ (restoring p entities).owns j' partition :=
        fun _ hne => absurd rfl hne
      -- once the partition is level, the rest goes on from one level partition more
      have hrest : ∀ y : Journaled, (∀ partition' ∈ level, Level p y partition') →
          Level p y partition →
          (Processor.restoreAll { p with worker, partitions := assigned, context } partitions).Safe
            (restoring p entities).discipline (enter context none) fallible (some ())
            (fun outcome z => ∀ a, outcome = .ok a →
              ∀ partition' ∈ level ++ partition :: partitions, Level p z.1 partition') (y, ()) := by
        intro y hlevel hpartition
        refine safe_mono ?_ (ih (level ++ [partition]) y ?_)
        · intro outcome z _ h a ha partition' hmem
          rw [List.append_cons] at hmem
          exact h a ha partition' hmem
        · intro partition' hmem
          rcases List.mem_append.mp hmem with hmem | hmem
          · exact hlevel partition' hmem
          · rw [List.mem_singleton.mp hmem]
            exact hpartition
      simp only [Processor.restoreAll, Program.bind_eq]
      refine safe_bind_of_ensures (Q := fun _ _ => True) ?_ ?_ (fun e y a h => nomatch h)
      · exact ensures_aside (q := .topicExists _) (Q := fun _ _ => True) (fun _ => rfl)
          (fun _ => rfl) (fun _ => rfl) (fun _ _ _ _ h => h) fun _ _ _ _ _ => trivial
      · intro found y _ hxy _
        have hlevel := fun partition' hmem =>
          (hlevel partition' hmem).of_same (hsame hxy partition')
        split
        · refine safe_bind_of_ensures
            (ensures_readOffset (c := restoring p entities) trivial y.1) ?_
            (fun e z a h => nomatch h)
          intro offset z _ hyz hoffset
          have hlevel := fun partition' hmem =>
            (hlevel partition' hmem).of_same (hsame hyz partition')
          have hoffset : p.saved? z.1.state partition = offset := hoffset
          cases offset with
          | none =>
              refine hrest z.1 hlevel fun offset hsaved => ?_
              rw [hoffset] at hsaved
              cases hsaved
          | some offset =>
              refine safe_bind (safe_commit (c := restoring p entities) trivial hothers hoffset) ?_
                (fun e w _ _ a h => nomatch h)
              intro _ w _ hw
              obtain ⟨hpartition, hsame'⟩ := hw () rfl
              refine hrest w.1 ?_ hpartition
              intro partition' hmem
              by_cases heq : partition' = partition
              · rw [heq]
                exact hpartition
              · exact (hlevel partition' hmem).of_same (hsame' partition' heq trivial)
        · intro z _ _ a h
          cases h

end Rollup.Ingestion
