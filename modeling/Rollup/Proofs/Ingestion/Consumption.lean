import Mathlib.Logic.Function.Iterate
import Rollup.Proofs.Fact.Steps
import Rollup.Proofs.Ingestion.Delivery
import Rollup.Proofs.Store.Ledgers

namespace Rollup

open Storage Entity

namespace Batch

/-- A payload is passed over if it is no batch, and written if all its values are valid. -/
def Passable (payload : Bytes) : Prop :=
  ∀ batch, decode payload = .ok batch → ∀ m ∈ batch, m.defect? = none

instance (payload : Bytes) : Decidable (Passable payload) :=
  match h : decode payload with
  | .error _ => isTrue fun batch hbatch => by rw [h] at hbatch; cases hbatch
  | .ok batch => decidable_of_iff (∀ m ∈ batch, m.defect? = none) (by
      simp [Passable, h])

def Blocks (payload : Bytes) (defect : MetricDefect) : Prop :=
  ∃ batch, decode payload = .ok batch ∧ ∃ m ∈ batch, m.defect? = some defect

theorem Blocks.not_passable {payload : Bytes} {defect : MetricDefect}
    (h : Blocks payload defect) : ¬ Passable payload := by
  obtain ⟨batch, hbatch, m, hm, hdefect⟩ := h
  intro hpassable
  rw [hpassable batch hbatch m hm] at hdefect
  cases hdefect

def strings (payload : Bytes) : List Entity :=
  match decode payload with
  | .ok batch => if Passable payload then batch.flatMap (·.series.strings) else []
  | .error _ => []

theorem strings_subset {payload : Bytes} {batch : List Metric} (h : Passable payload)
    (hbatch : decode payload = .ok batch) {m : Metric} (hm : m ∈ batch) :
    m.series.strings ⊆ strings payload := by
  intro e he
  simp only [strings, hbatch, if_pos h, List.mem_flatMap]
  exact ⟨m, hm, he⟩

end Batch

theorem Bus.map_payload_messagesFrom (start : Nat) (log : List Bytes) :
    (messagesFrom start log).map (·.payload) = log := by
  induction log generalizing start with
  | nil => rfl
  | cons payload log ih => rw [messagesFrom, List.map_cons, ih]

namespace Ingestion

variable {p : Processor} {entities : EntityTable} {strings : List Entity} {s : Storage}
  {x : State} {context : Context} {partition : Nat} {log : List Bytes}

/-- The tables that the processor writes are in reach and in order, and there are numbers
left for the strings. -/
structure Orderly (p : Processor) (entities : EntityTable) (strings : List Entity)
    (s : Storage) : Prop where
  room : entities.Room strings s
  facts : ∀ r, s.Serves (p.store.table r).current.table
  progress : s.Serves p.progress.table

section Writes

variable (hstore : ∀ r, (p.store.table r).current.entities = entities)
include hstore

theorem write_run (h : Orderly p entities strings s) {m : Metric} (hvalid : m.defect? = none)
    (hstrings : m.series.strings ⊆ strings) (r : Resolution) :
    ∃ s', ((p.store.table r).current.write m).run Storage.answer s = (.ok (), s') ∧
      Orderly p entities strings s' := by
  have hroom := h.room
  rw [← hstore r] at hroom
  obtain ⟨s', hrun, hroom'⟩ := FactTable.write_run hroom hstrings (h.facts r) hvalid
  have hserves : ∀ id, s.Serves id → s'.Serves id := by
    intro id hid
    have := FactTable.serves_write (t := (p.store.table r).current) (m := m) hid
    rwa [hrun] at this
  exact ⟨s', hrun, hstore r ▸ hroom', fun r' => hserves _ (h.facts r'), hserves _ h.progress⟩

theorem writeAll_run (h : Orderly p entities strings s) {ms : List Metric}
    (hms : ∀ m ∈ ms, m.defect? = none ∧ m.series.strings ⊆ strings) (r : Resolution) :
    ∃ s', ((p.store.table r).writeAll ms).run Storage.answer s = (.ok (), s') ∧
      Orderly p entities strings s' := by
  simp only [MetricTable.writeAll]
  induction ms generalizing s with
  | nil => exact ⟨s, rfl, h⟩
  | cons m ms ih =>
      obtain ⟨⟨hvalid, hstrings⟩, hms⟩ := List.forall_mem_cons.mp hms
      obtain ⟨s₁, hfirst, h₁⟩ := write_run hstore h hvalid hstrings r
      obtain ⟨s₂, hrest, h₂⟩ := ih h₁ hms
      refine ⟨s₂, ?_, h₂⟩
      simp only [FactTable.writeAll, Program.bind_eq]
      rw [Program.run_bind_of_ok hfirst, hrest]

theorem writeAllTo_run (h : Orderly p entities strings s) {ms : List Metric}
    (hms : ∀ m ∈ ms, m.defect? = none ∧ m.series.strings ⊆ strings) (rs : List Resolution) :
    ∃ s', (p.store.writeAllTo ms rs).run Storage.answer s = (.ok (), s') ∧
      Orderly p entities strings s' := by
  induction rs generalizing s with
  | nil => exact ⟨s, rfl, h⟩
  | cons r rs ih =>
      obtain ⟨s₁, hfirst, h₁⟩ := writeAll_run hstore h hms r
      obtain ⟨s₂, hrest, h₂⟩ := ih h₁
      refine ⟨s₂, ?_, h₂⟩
      simp only [MetricStore.writeAllTo, Program.bind_eq]
      rw [Program.run_bind_of_ok hfirst, hrest]

end Writes

theorem run_onStorage {α : Type} (context : Context) (w : Storage.Work α) (x : State) :
    (onStorage w).run (answer context) x =
      ((w.run Storage.answer x.storage).1,
        { x with storage := (w.run Storage.answer x.storage).2 }) := by
  induction w generalizing x with
  | result outcome => rfl
  | call q resume ih => exact ih _ _

/-- The bus and the offsets are as before, and the storage is in order again. -/
structure Cleared (p : Processor) (entities : EntityTable) (strings : List Entity)
    (x x' : State) : Prop where
  bus : x'.bus = x.bus
  offsets : x'.offsets = x.offsets
  orderly : Orderly p entities strings x'.storage

theorem Cleared.trans {x' x'' : State} (h : Cleared p entities strings x x')
    (h' : Cleared p entities strings x' x'') : Cleared p entities strings x x'' :=
  ⟨h'.bus.trans h.bus, h'.offsets.trans h.offsets, h'.orderly⟩

/-- Work on messages ends well if all of them are passable, and otherwise with the defect
of some value. -/
inductive EndsAs {α : Type} (payloads : List Bytes) (outcome : Except Error α) : Prop where
  | passed (a : α) (hall : ∀ payload ∈ payloads, Batch.Passable payload) (heq : outcome = .ok a)
  | blocked (payload : Bytes) (hmem : payload ∈ payloads) (defect : MetricDefect)
      (hblocks : Batch.Blocks payload defect)
      (heq : outcome = .error (.invalidMetric defect.message))

section Calls

variable (hstore : ∀ r, (p.store.table r).current.entities = entities)
include hstore

theorem apply_run (context : Context) (h : Orderly p entities strings x.storage) {message : Message}
    (hstrings : Batch.strings message.payload ⊆ strings) :
    ∃ outcome x', (p.apply message).run (answer context) x = (outcome, x') ∧
      Cleared p entities strings x x' ∧ EndsAs [message.payload] outcome := by
  cases hbatch : Batch.decode message.payload with
  | error fault =>
      simp only [Processor.apply, hbatch]
      refine ⟨_, _, rfl, ⟨rfl, rfl, h⟩, .passed 0 ?_ rfl⟩
      simp [Batch.Passable, hbatch]
  | ok batch =>
      simp only [Processor.apply, hbatch, MetricStore.addAll, Program.bind_eq, Program.pure_eq]
      by_cases hvalid : ∀ m ∈ batch, m.defect? = none
      · have hpassable : Batch.Passable message.payload := by
          intro batch' hbatch'
          obtain rfl : batch = batch' := Except.ok.inj (hbatch.symm.trans hbatch')
          exact hvalid
        obtain ⟨s', hrun, hs'⟩ := writeAllTo_run hstore h
          (fun m (hm : m ∈ batch) => ⟨hvalid m hm, fun e he =>
            hstrings (Batch.strings_subset hpassable hbatch hm he)⟩) Resolution.all
        rw [MetricStore.validateAll_eq hvalid]
        refine ⟨.ok batch.length, { x with storage := s' }, ?_, ⟨rfl, rfl, hs'⟩,
          .passed _ (by simpa using hpassable) rfl⟩
        rw [Program.run_bind, run_onStorage]
        simp only [Program.bind, hrun]
        rfl
      · obtain ⟨m, hm, defect, hblocks, heq⟩ := MetricStore.validateAll_eq_error hvalid
        rw [heq]
        exact ⟨_, _, rfl, ⟨rfl, rfl, h⟩, .blocked _ (List.mem_singleton_self _) defect
          ⟨batch, hbatch, m, hm, hblocks⟩ rfl⟩

theorem applyEach_run (context : Context) (h : Orderly p entities strings x.storage)
    {messages : List Message}
    (hstrings : ∀ message ∈ messages, Batch.strings message.payload ⊆ strings) :
    ∃ outcome x', (messages.mapM p.apply).run (answer context) x = (outcome, x') ∧
      Cleared p entities strings x x' ∧ EndsAs (messages.map (·.payload)) outcome := by
  induction messages generalizing x with
  | nil => exact ⟨.ok [], x, rfl, ⟨rfl, rfl, h⟩, .passed [] (by simp) rfl⟩
  | cons message messages ih =>
      obtain ⟨hfirst, hrest⟩ := List.forall_mem_cons.mp hstrings
      obtain ⟨outcome, x₁, hrun, hcleared, hends⟩ := apply_run hstore context h hfirst
      simp only [List.mapM_cons, List.map_cons, Program.bind_eq, Program.pure_eq]
      cases hends with
      | blocked payload hmem defect hblocks heq =>
          subst heq
          obtain rfl := List.mem_singleton.mp hmem
          rw [Program.run_bind_of_error hrun]
          exact ⟨_, x₁, rfl, hcleared, .blocked _ (List.mem_cons_self ..) defect hblocks rfl⟩
      | passed n hpassable heq =>
          subst heq
          obtain ⟨outcome, x₂, hrun', hcleared', hends'⟩ := ih hcleared.orderly hrest
          rw [Program.run_bind_of_ok hrun]
          cases hends' with
          | passed ns hall heq =>
              subst heq
              rw [Program.run_bind_of_ok hrun']
              refine ⟨.ok (n :: ns), x₂, rfl, hcleared.trans hcleared', .passed _ ?_ rfl⟩
              exact List.forall_mem_cons.mpr ⟨List.forall_mem_singleton.mp hpassable, hall⟩
          | blocked payload hmem defect hblocks heq =>
              subst heq
              rw [Program.run_bind_of_error hrun']
              exact ⟨_, x₂, rfl, hcleared.trans hcleared',
                .blocked payload (List.mem_cons_of_mem _ hmem) defect hblocks rfl⟩

end Calls

/-- The number of messages of a log that a processor has dealt with. -/
def State.position (x : State) (partition : Nat) : Nat := Bus.next (x.offsets.get? partition)

/-- The log of a partition, with the storage ready for all of its messages. -/
structure Prepared (p : Processor) (entities : EntityTable) (partition : Nat)
    (log : List Bytes) (x : State) : Prop where
  published : x.bus.log (p.config.topic partition) = .ok log
  orderly : Orderly p entities (log.flatMap Batch.strings) x.storage

def batch (p : Processor) (partition : Nat) (log : List Bytes) (x : State) : List Bytes :=
  (log.drop (x.position partition)).take p.config.fetchLimit

theorem length_batch (p : Processor) (partition : Nat) (log : List Bytes) (x : State) :
    (batch p partition log x).length =
      min (log.length - x.position partition) p.config.fetchLimit := by
  rw [batch, List.length_take, List.length_drop, Nat.min_comm]

def settle (p : Processor) (partition : Nat) (messages : List Message) (last : Nat)
    (written : Nat) : Work Nat := do
  onStorage (p.progress.save (p.saved partition) ⟨last, p.worker⟩)
  commit partition last
  increment "process.count" (Int64.ofNat written)
  gauge "process.offset" (Int64.ofNat last)
  return messages.length

theorem processOnce_run_eq {messages : List Message} {last : Message}
    (hfetch : x.bus.fetch (p.config.topic partition) (x.offsets.get? partition)
      p.config.fetchLimit = .ok messages) (hlast : messages.getLast? = some last) :
    (p.processOnce partition).run (answer context) x =
      ((p.applyAll messages).bind (settle p partition messages last.offset)).run
        (answer context) x := by
  simp only [Processor.processOnce, committed, fetch, Program.request, Program.bind_eq,
    Program.bind, Program.run_call, answer, hfetch, hlast]
  rfl

theorem settle_run (context : Context) (partition : Nat)
    (h : Orderly p entities strings x.storage) (messages : List Message) (last written : Nat) :
    ∃ x', (settle p partition messages last written).run (answer context) x =
        (.ok messages.length, x') ∧ x'.bus = x.bus ∧ x'.offsets.get? partition = some last ∧
      Orderly p entities strings x'.storage := by
  obtain ⟨T, hT, -⟩ := h.progress
  let progress : Progress := ⟨last, p.worker⟩
  let s' := x.storage.update p.progress.table
    (T.setCell (p.saved partition).row ProgressTable.column (some progress.encode))
  have hsave : (p.progress.save (p.saved partition) progress).run Storage.answer x.storage =
      (.ok (), s') := run_put hT ..
  have hserves : ∀ id, x.storage.Serves id → s'.Serves id := by
    intro id hid
    have hput : (Storage.answer (.table p.progress.table (.put (p.saved partition).row
        ProgressTable.column progress.encode)) x.storage).2 = s' := congrArg Prod.snd hsave
    rw [← hput]
    refine FactTable.serves_answer (fun id' op heq => ?_) hid
    cases heq
    exact TableOp.tame_put (by decide)
  have horderly : Orderly p entities strings s' := by
    refine ⟨h.room.update hT fun row column hcolumn => ?_, fun r => hserves _ (h.facts r),
      hserves _ h.progress⟩
    refine (Table.cell?_setCell ..).trans (if_neg fun heq => ?_)
    rw [heq.2] at hcolumn
    exact absurd hcolumn (by decide)
  simp only [settle, Program.bind_eq, Program.pure_eq]
  rw [Program.run_bind, run_onStorage, hsave]
  refine ⟨_, rfl, rfl, ?_, horderly⟩
  simp [SortedMap.get?_insert]

theorem processOnce_run (context : Context)
    (hstore : ∀ r, (p.store.table r).current.entities = entities)
    (h : Prepared p entities partition log x) (hne : batch p partition log x ≠ []) :
    ∃ outcome x', (p.processOnce partition).run (answer context) x = (outcome, x') ∧
      Prepared p entities partition log x' ∧
      ((∀ payload ∈ batch p partition log x, Batch.Passable payload) ∧
          outcome = .ok (batch p partition log x).length ∧
          x'.offsets.get? partition =
            some (x.position partition + (batch p partition log x).length - 1) ∨
        ∃ payload ∈ batch p partition log x, ∃ defect, Batch.Blocks payload defect ∧
          outcome = .error (.invalidMetric defect.message) ∧ x'.offsets = x.offsets) := by
  have hfetch : x.bus.fetch (p.config.topic partition) (x.offsets.get? partition)
      p.config.fetchLimit =
        .ok (Bus.messagesFrom (x.position partition) (batch p partition log x)) := by
    simp only [Bus.fetch, h.published]
    rfl
  generalize hpayloads : batch p partition log x = payloads at hne hfetch ⊢
  have hmap := Bus.map_payload_messagesFrom (x.position partition) payloads
  obtain ⟨last, hlast⟩ : ∃ last,
      (Bus.messagesFrom (x.position partition) payloads).getLast? = some last := by
    refine ⟨_, List.getLast?_eq_some_getLast fun hnil => hne ?_⟩
    rw [← hmap, hnil]
    rfl
  have hend := Bus.getLast?_messagesFrom hlast
  rw [processOnce_run_eq hfetch hlast]
  generalize Bus.messagesFrom (x.position partition) payloads = messages at hmap
  have hstrings : ∀ message ∈ messages,
      Batch.strings message.payload ⊆ log.flatMap Batch.strings := by
    intro message hmessage e he
    have hpayload : message.payload ∈ batch p partition log x := by
      rw [hpayloads, ← hmap]
      exact List.mem_map_of_mem hmessage
    exact List.mem_flatMap.mpr
      ⟨_, List.mem_of_mem_drop (List.mem_of_mem_take hpayload), he⟩
  obtain ⟨outcome, x₁, hrun, hcleared, hends⟩ :=
    applyEach_run hstore context h.orderly hstrings
  have hpublished : x₁.bus.log (p.config.topic partition) = .ok log := by
    rw [hcleared.bus]
    exact h.published
  simp only [Processor.applyAll, Program.bind_eq, Program.pure_eq, Program.bind_assoc]
  rw [hmap] at hends
  cases hends with
  | passed written hall heq =>
      subst heq
      obtain ⟨x₂, hsettle, hbus, hoffset, horderly⟩ := settle_run context partition
        hcleared.orderly messages last.offset (written.foldr (· + ·) 0)
      have hlength : messages.length = payloads.length := by
        rw [← hmap, List.length_map]
      rw [Program.run_bind_of_ok hrun]
      refine ⟨_, x₂, hsettle, ⟨hbus ▸ hpublished, horderly⟩, .inl ⟨hall, ?_, ?_⟩⟩
      · rw [hlength]
      · rw [hoffset, ← hend, Nat.add_sub_cancel]
  | blocked payload hmem defect hblocks heq =>
      subst heq
      rw [Program.run_bind_of_error hrun]
      exact ⟨_, x₁, rfl, ⟨hpublished, hcleared.orderly⟩,
        .inr ⟨payload, hmem, defect, hblocks, rfl, hcleared.offsets⟩⟩

def afterCalls (p : Processor) (context : Context) (partition n : Nat) (x : State) : State :=
  (fun x => ((p.processOnce partition).run (answer context) x).2)^[n] x

theorem afterCalls_succ (n : Nat) : afterCalls p context partition (n + 1) x =
    ((p.processOnce partition).run (answer context) (afterCalls p context partition n x)).2 :=
  Function.iterate_succ_apply' ..

theorem batch_ne_nil (hlimit : 1 ≤ p.config.fetchLimit)
    (hunread : x.position partition < log.length) : batch p partition log x ≠ [] := by
  rw [← List.length_pos_iff, length_batch]
  omega

theorem position_of_offset {offset : Nat} (h : x.offsets.get? partition = some offset) :
    x.position partition = offset + 1 := by
  rw [State.position, h]
  rfl

/-- Calls advance through a log of passable messages up to its end. -/
theorem exists_consumed (hstore : ∀ r, (p.store.table r).current.entities = entities)
    (hlimit : 1 ≤ p.config.fetchLimit) (h : Prepared p entities partition log x)
    (hle : x.position partition ≤ log.length)
    (hall : ∀ payload ∈ log.drop (x.position partition), Batch.Passable payload) :
    ∃ n, (afterCalls p context partition n x).position partition = log.length := by
  -- on the messages left, of which each call takes some
  generalize hrest : log.length - x.position partition = rest
  induction rest using Nat.strong_induction_on generalizing x with
  | _ rest ih =>
      by_cases hunread : x.position partition < log.length
      · have hne := batch_ne_nil hlimit hunread
        obtain ⟨outcome, x', hrun, h', hcases⟩ :=
          processOnce_run context hstore h hne
        have hlength := length_batch p partition log x
        rcases hcases with ⟨-, -, hoffset⟩ | ⟨payload, hmem, defect, ⟨ms, hms, m, hm, hdefect⟩, -⟩
        · have hposition := position_of_offset hoffset
          have hsub : ∀ payload ∈ log.drop (x'.position partition), Batch.Passable payload := by
            intro payload hmem
            refine hall payload ?_
            rw [hposition, show x.position partition + (batch p partition log x).length - 1 + 1 =
              x.position partition + (batch p partition log x).length by omega,
              ← List.drop_drop] at hmem
            exact List.mem_of_mem_drop hmem
          obtain ⟨n, hn⟩ := ih _ (by omega) h' (by omega) hsub rfl
          refine ⟨n + 1, ?_⟩
          rw [afterCalls, Function.iterate_succ_apply, hrun]
          exact hn
        · have hnone := hall payload (List.mem_of_mem_take hmem) ms hms m hm
          rw [hdefect] at hnone
          cases hnone
      · exact ⟨0, by rw [afterCalls, Function.iterate_zero_apply]; omega⟩

theorem position_afterCalls_le (context : Context)
    (hstore : ∀ r, (p.store.table r).current.entities = entities)
    (hlimit : 1 ≤ p.config.fetchLimit) (h : Prepared p entities partition log x) {i : Nat}
    {payload : Bytes} (hpayload : log[i]? = some payload) (hbad : ¬ Batch.Passable payload)
    (hle : x.position partition ≤ i) (n : Nat) :
    (afterCalls p context partition n x).position partition ≤ i ∧
      Prepared p entities partition log (afterCalls p context partition n x) := by
  induction n with
  | zero => exact ⟨hle, h⟩
  | succ n ih =>
      rw [afterCalls_succ]
      generalize afterCalls p context partition n x = y at ih
      obtain ⟨hle, h⟩ := ih
      obtain ⟨hlt, -⟩ := List.getElem?_eq_some_iff.mp hpayload
      obtain ⟨outcome, y', hrun, h', hcases⟩ :=
        processOnce_run context hstore h (batch_ne_nil hlimit (by omega))
      rw [hrun]
      refine ⟨?_, h'⟩
      rcases hcases with ⟨hall, -, hoffset⟩ | ⟨-, -, -, -, -, hoffsets⟩
      · have hlength := length_batch p partition log y
        rw [position_of_offset hoffset]
        by_contra hgt
        have hget : (batch p partition log y)[i - y.position partition]? = some payload := by
          rw [batch, List.getElem?_take_of_lt (by omega), List.getElem?_drop,
            Nat.add_sub_cancel' hle, hpayload]
        exact hbad (hall payload (List.mem_of_getElem? hget))
      · rw [State.position, hoffsets]
        exact hle

/-- A call takes its whole batch and moves the committed offset to the last message of it
exactly if no value of the batch is invalid, and finitely many calls consume the log exactly
if no value of it is. -/
theorem consumes_iff (p : Processor) (entities : EntityTable)
    (hstore : ∀ r, (p.store.table r).current.entities = entities) (context : Context)
    (partition : Nat) (log : List Bytes) (x : State) (h : Prepared p entities partition log x)
    (hlimit : 1 ≤ p.config.fetchLimit) (hunread : x.position partition < log.length) :
    let taken := min (log.length - x.position partition) p.config.fetchLimit
    let after := (p.processOnce partition).run (answer context) x
    ((after.1 = .ok taken ∧
        after.2.offsets.get? partition = some (x.position partition + taken - 1)) ↔
      ∀ payload ∈ (log.drop (x.position partition)).take p.config.fetchLimit,
        Batch.Passable payload) ∧
    ((∃ payload ∈ (log.drop (x.position partition)).take p.config.fetchLimit,
        ¬ Batch.Passable payload) →
      (∃ payload ∈ (log.drop (x.position partition)).take p.config.fetchLimit, ∃ defect,
        Batch.Blocks payload defect ∧ after.1 = .error (.invalidMetric defect.message)) ∧
      after.2.offsets = x.offsets) ∧
    ((∃ n, (afterCalls p context partition n x).position partition = log.length) ↔
      ∀ payload ∈ log.drop (x.position partition), Batch.Passable payload) := by
  intro taken after
  obtain ⟨outcome, x', hrun, -, hcases⟩ :=
    processOnce_run context hstore h (batch_ne_nil hlimit hunread)
  have hafter : after = (outcome, x') := hrun
  rw [length_batch] at hcases
  rw [hafter]
  refine ⟨?_, ?_, ?_, exists_consumed hstore hlimit h (Nat.le_of_lt hunread)⟩
  · rcases hcases with ⟨hall, houtcome, hoffset⟩ | ⟨payload, hmem, defect, hblocks, houtcome, -⟩
    · exact iff_of_true ⟨houtcome, hoffset⟩ hall
    · refine iff_of_false (fun hok => ?_) fun hall => ?_
      · cases houtcome.symm.trans hok.1
      · exact hblocks.not_passable (hall payload hmem)
  · rintro ⟨payload, hmem, hbad⟩
    rcases hcases with ⟨hall, -⟩ | ⟨payload', hmem', defect, hblocks, houtcome, hoffsets⟩
    · exact absurd (hall payload hmem) hbad
    · exact ⟨⟨payload', hmem', defect, hblocks, houtcome⟩, hoffsets⟩
  · rintro ⟨n, hn⟩ payload hmem
    by_contra hbad
    obtain ⟨i, hi, hpayload⟩ := List.mem_iff_getElem.mp hmem
    rw [List.getElem_drop] at hpayload
    rw [List.length_drop] at hi
    have hget : log[x.position partition + i]? = some payload := by
      rw [List.getElem?_eq_getElem (by omega), hpayload]
    have hle := (position_afterCalls_le context hstore hlimit h hget hbad
      (Nat.le_add_right ..) n).1
    omega

def poisonedPayload : Bytes :=
  match Batch.encode [⟨.counter, "m", 50, -1, .empty⟩] with
  | .ok payload => payload
  | .error _ => []

def poisonedLog : List Bytes := [poisonedPayload, samplePayload]

def poisonedState : State where
  storage := { catalog := ((Datasets.usual {}).setUp {}).2 }
  bus := { topics := .singleton (sampleProcessor.config.topic 0) poisonedLog }

theorem poisoned_prepared : Prepared sampleProcessor (Datasets.usual {}).entityTable 0
    poisonedLog poisonedState := by
  have hserves : ∀ id, poisonedState.storage.Blank id = true → poisonedState.storage.Serves id :=
    fun id hid => ⟨.empty, holds_of_blank hid, Table.words_empty⟩
  refine ⟨rfl, .of_empty (holds_of_blank ?_) (fun _ => rfl) ?_, fun r => ?_, hserves _ ?_⟩
  · decide +kernel
  · decide +kernel
  · refine hserves _ ?_
    cases r <;> decide +kernel
  · decide +kernel

theorem poisoned_not_consumed :
    ((sampleProcessor.processOnce 0).run (answer .root) poisonedState).1 ≠ .ok 2 ∧
      ((sampleProcessor.processOnce 0).run (answer .root) poisonedState).2.offsets = .empty ∧
      ∀ n, (afterCalls sampleProcessor .root 0 n poisonedState).position 0 ≠ 2 := by
  have hsound : (Datasets.usual {}).Sound := by
    intro r table h
    cases h
  have hbad : ¬ Batch.Passable poisonedPayload := by decide +kernel
  obtain ⟨htaken, hblocked, hconsumed⟩ := consumes_iff sampleProcessor
    (Datasets.usual {}).entityTable (Datasets.entities_openStore hsound {}) .root 0 poisonedLog
    poisonedState poisoned_prepared (by decide) (by decide)
  have hmem : poisonedPayload ∈ (poisonedLog.drop (poisonedState.position 0)).take
      sampleProcessor.config.fetchLimit := by
    have hfirst : ((poisonedLog.drop (poisonedState.position 0)).take
        sampleProcessor.config.fetchLimit).head? = some poisonedPayload := rfl
    exact List.mem_of_mem_head? hfirst
  obtain ⟨⟨-, -, defect, -, hdefect⟩, hoffsets⟩ := hblocked ⟨_, hmem, hbad⟩
  refine ⟨?_, hoffsets, fun n hn => ?_⟩
  · rw [hdefect]
    simp
  · exact hbad (hconsumed.mp ⟨n, hn⟩ _ (List.mem_of_mem_take hmem))

end Ingestion

end Rollup
