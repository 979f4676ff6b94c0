import Rollup.Proofs.Ingestion.Consumption
import Rollup.Proofs.Progress.Saves
import Rollup.Proofs.Storage.Column

namespace Rollup

open Storage Entity

def Batch.readable (payloads : List Bytes) : List (List Metric) :=
  payloads.filterMap fun payload => (Batch.decode payload).toOption

theorem Batch.readable_append (payloads more : List Bytes) :
    readable (payloads ++ more) = readable payloads ++ readable more :=
  List.filterMap_append

theorem ProgressTable.column_notMem : ProgressTable.column ∉ Entity.columns := by
  decide

namespace MetricStore

variable {store : MetricStore}

theorem Asks.avoids {ms : List Metric} {q : Storage.Request} (h : store.Asks ms q) :
    Avoids ProgressTable.column q := by
  rintro id op rfl
  obtain ⟨r, m, -, h | ⟨k, h⟩⟩ := h
  · exact h.2.within.mono fun column hcolumn heq => ProgressTable.column_notMem (heq ▸ hcolumn)
  · cases h
    have hcolumn : (store.table r).current.columnOf m.timestamp ≠ ProgressTable.column := by
      intro heq
      have hlength := FactTable.length_columnOf (store.table r).current m.timestamp
      rw [heq] at hlength
      cases hlength
    simp only [FactTable.entry]
    cases m.kind <;> exact hcolumn

theorem writes_append {s s' : Storage} {batches more : List (List Metric)}
    (h : (forM batches store.addAll).run answer s = (.ok (), s')) :
    (forM (batches ++ more) store.addAll).run answer s = (forM more store.addAll).run answer s' := by
  rw [List.forM_append, Program.bind_eq, Program.run_bind_of_ok h]

theorem writes_only (store : MetricStore) (batches : List (List Metric)) :
    (forM batches store.addAll).Only (Avoids ProgressTable.column) := by
  induction batches with
  | nil => exact Program.only_result _
  | cons ms batches ih =>
      exact Program.only_bind
        (Program.only_mono (fun _ hq => hq.avoids) (store.addAll_only ms)) fun _ => ih

theorem writes_alike {s s' t : Storage} {id : TableId} {batches : List (List Metric)}
    (h : s.SameBut id ProgressTable.column t)
    (hrun : (forM batches store.addAll).run answer t = (.ok (), s')) :
    ∃ s₁, (forM batches store.addAll).run answer s = (.ok (), s₁) ∧
      s₁.SameBut id ProgressTable.column s' := by
  obtain ⟨houtcome, halike⟩ := h.run (store.writes_only batches)
  rw [hrun] at houtcome halike
  exact ⟨((forM batches store.addAll).run answer s).2, Prod.ext houtcome.symm rfl, halike⟩

end MetricStore

namespace ProgressTable

variable {t : ProgressTable} {s s' : Storage} {partition : Partition}

theorem sameBut_keeping (t : ProgressTable) (s : Storage) (partition : Partition)
    (progress : Progress) : s.SameBut t.table column (t.keeping s partition progress) :=
  .of_update fun row column' hcolumn' => by
    rw [Table.cell?_setCell, if_neg fun heq => hcolumn' heq.2]

theorem of_save_run {progress : Progress}
    (h : (t.save partition progress).run answer s = (.ok (), s')) :
    s' = t.keeping s partition progress := by
  rw [save_run] at h
  split at h <;> cases h
  rfl

theorem of_readOffset_run {offset : Option Nat}
    (h : (t.readOffset partition).run answer s = (.ok offset, s')) :
    offset = t.held? s partition ∧ s' = s.update t.table (s.contents t.table) := by
  simp only [readOffset, read, Program.bind_eq, Program.pure_eq, Program.bind_assoc] at h
  obtain ⟨cell, s₁, hget, hrest⟩ := Program.run_bind_ok h
  rw [get_run] at hget
  split at hget <;> cases hget
  simp only [held?]
  cases hcell : (s.contents t.table).cell? partition.row column with
  | none =>
      rw [hcell] at hrest
      cases hrest
      exact ⟨rfl, rfl⟩
  | some cell =>
      rw [hcell] at hrest
      simp only [Option.bind_some]
      cases hdecode : Progress.decode? cell with
      | none =>
          simp only [hdecode] at hrest
          cases hrest
      | some progress =>
          simp only [hdecode] at hrest
          cases hrest
          exact ⟨rfl, rfl⟩

end ProgressTable

namespace Ingestion

variable {p : Processor} {x x' x'' : State} {context : Context} {partition : Nat}

theorem of_onStorage_run {α : Type} {w : Storage.Work α} {a : α}
    (h : (onStorage w).run (answer context) x = (.ok a, x')) :
    ∃ s, w.run Storage.answer x.storage = (.ok a, s) ∧ x' = { x with storage := s } := by
  rw [run_onStorage] at h
  obtain ⟨houtcome, hstate⟩ := Prod.mk.inj h
  exact ⟨_, Prod.ext houtcome rfl, hstate.symm⟩

/-- Nothing has changed but the storage, to which the batches among payloads were written. -/
structure Wrote (p : Processor) (payloads : List Bytes) (x x' : State) : Prop where
  storage : (forM (Batch.readable payloads) p.store.addAll).run Storage.answer x.storage =
    (.ok (), x'.storage)
  bus : x'.bus = x.bus
  offsets : x'.offsets = x.offsets

theorem Wrote.append {payloads more : List Bytes} (h : Wrote p payloads x x')
    (h' : Wrote p more x' x'') : Wrote p (payloads ++ more) x x'' := by
  refine ⟨?_, h'.bus.trans h.bus, h'.offsets.trans h.offsets⟩
  rw [Batch.readable_append, MetricStore.writes_append h.storage, h'.storage]

theorem Wrote.saved? {payloads : List Bytes} (h : Wrote p payloads x x') (partition : Nat) :
    p.saved? x' partition = p.saved? x partition := by
  have hcell := cell?_run x.storage p.progress.table (p.saved partition).row
    (p.store.writes_only (Batch.readable payloads))
  rw [h.storage] at hcell
  simp only [Processor.saved?, ProgressTable.held?, hcell]

theorem of_apply_run {message : Message} {n : Nat}
    (h : (p.apply message).run (answer context) x = (.ok n, x')) :
    Wrote p [message.payload] x x' := by
  cases hdecode : Batch.decode message.payload with
  | error fault =>
      have hnone : Batch.readable [message.payload] = [] := by
        simp [Batch.readable, hdecode, Except.toOption]
      simp only [Processor.apply, hdecode] at h
      cases h
      exact ⟨by rw [hnone]; rfl, rfl, rfl⟩
  | ok batch =>
      have hsome : Batch.readable [message.payload] = [batch] := by
        simp [Batch.readable, hdecode, Except.toOption]
      simp only [Processor.apply, hdecode, Program.bind_eq, Program.pure_eq] at h
      obtain ⟨_, x₁, hwrite, hend⟩ := Program.run_bind_ok h
      cases hend
      obtain ⟨s, hrun, rfl⟩ := of_onStorage_run hwrite
      have hsingle : forM [batch] p.store.addAll = p.store.addAll batch := Program.bind_pure _
      exact ⟨by rw [hsome, hsingle, hrun], rfl, rfl⟩

theorem of_applyEach_run {messages : List Message} {ns : List Nat}
    (h : (messages.mapM p.apply).run (answer context) x = (.ok ns, x')) :
    Wrote p (messages.map (·.payload)) x x' := by
  induction messages generalizing x ns with
  | nil =>
      cases h
      exact ⟨rfl, rfl, rfl⟩
  | cons message messages ih =>
      simp only [List.mapM_cons, Program.bind_eq, Program.pure_eq] at h
      obtain ⟨n, x₁, hfirst, hrest⟩ := Program.run_bind_ok h
      obtain ⟨ns', x₂, hothers, hend⟩ := Program.run_bind_ok hrest
      cases hend
      exact (of_apply_run hfirst).append (ih hothers)

theorem of_settle_run {messages : List Message} {last written n : Nat}
    (h : (settle p partition messages last written).run (answer context) x = (.ok n, x')) :
    n = messages.length ∧ x'.bus = x.bus ∧ x'.offsets = x.offsets.insert partition last ∧
      x'.storage = p.progress.keeping x.storage (p.saved partition) ⟨last, p.worker⟩ := by
  obtain ⟨_, x₁, hsave, hrest⟩ := Program.run_bind_ok h
  obtain ⟨s, hrun, rfl⟩ := of_onStorage_run hsave
  cases hrest
  exact ⟨rfl, rfl, rfl, ProgressTable.of_save_run hrun⟩

theorem of_processOnce_run {n : Nat}
    (h : (p.processOnce partition).run (answer context) x = (.ok n, x')) :
    ∃ log, x.bus.log (p.config.topic partition) = .ok log ∧
      n = (batch p partition log x).length ∧
      (n = 0 ∧ x' = x ∨
        0 < n ∧ ∃ y, Wrote p (batch p partition log x) x y ∧ x'.bus = x.bus ∧
          x'.offsets = x.offsets.insert partition (x.position partition + n - 1) ∧
          x'.storage = p.progress.keeping y.storage (p.saved partition)
            ⟨x.position partition + n - 1, p.worker⟩) := by
  cases hfetch : x.bus.fetch (p.config.topic partition) (x.offsets.get? partition)
      p.config.fetchLimit with
  | error e =>
      simp only [Processor.processOnce, committed, fetch, Program.request, Program.bind_eq,
        Program.bind, Program.run_call, answer, hfetch] at h
      cases h
  | ok messages =>
      obtain ⟨log, hlog, hmessages⟩ := Bus.of_fetch_ok hfetch
      have hpayloads : messages.map (·.payload) = batch p partition log x := by
        rw [hmessages, Bus.map_payload_messagesFrom]
        rfl
      have hlength : messages.length = (batch p partition log x).length := by
        rw [← hpayloads, List.length_map]
      refine ⟨log, hlog, ?_⟩
      cases hlast : messages.getLast? with
      | none =>
          rw [List.getLast?_eq_none_iff.mp hlast] at hfetch hlength
          simp only [Processor.processOnce, committed, fetch, Program.request, Program.bind_eq,
            Program.bind, Program.run_call, answer, hfetch] at h
          cases h
          exact ⟨hlength, .inl ⟨rfl, rfl⟩⟩
      | some last =>
          rw [processOnce_run_eq hfetch hlast] at h
          have hend : last.offset + 1 = x.position partition + messages.length := by
            rw [hmessages] at hlast
            have := Bus.getLast?_messagesFrom hlast
            rw [hlength]
            exact this
          simp only [Processor.applyAll, Program.bind_eq, Program.pure_eq,
            Program.bind_assoc] at h
          obtain ⟨ns, y, happly, hsettle⟩ := Program.run_bind_ok h
          have hwrote := of_applyEach_run happly
          rw [hpayloads] at hwrote
          obtain ⟨hn, hbus, hoffsets, hstorage⟩ := of_settle_run hsettle
          have hposition : last.offset = x.position partition + n - 1 := by omega
          rw [hposition] at hoffsets hstorage
          refine ⟨hn.trans hlength, .inr ⟨?_, y, hwrote, hbus.trans hwrote.bus, ?_, hstorage⟩⟩
          · rw [hn]
            exact List.length_pos_of_mem (List.mem_of_getLast? hlast)
          · rw [hoffsets, hwrote.offsets]

/-- The saved offsets of some partitions have been taken up, and no cell has changed. -/
structure Resumed (p : Processor) (partitions : List Nat) (x x' : State) : Prop where
  bus : x'.bus = x.bus
  contents : x'.storage.contents = x.storage.contents
  alike : x.storage.SameBut p.progress.table ProgressTable.column x'.storage
  offsets : ∀ partition, x'.offsets.get? partition =
    if partition ∈ partitions then (p.saved? x partition).or (x.offsets.get? partition)
    else x.offsets.get? partition

theorem saved?_of_contents_eq (h : x'.storage.contents = x.storage.contents) (partition : Nat) :
    p.saved? x' partition = p.saved? x partition := by
  simp only [Processor.saved?, ProgressTable.held?, h]

theorem Resumed.cons {partitions : List Nat} (h : Resumed p [partition] x x')
    (h' : Resumed p partitions x' x'') : Resumed p (partition :: partitions) x x'' where
  bus := h'.bus.trans h.bus
  contents := h'.contents.trans h.contents
  alike := h.alike.trans h'.alike
  offsets other := by
    rw [h'.offsets, h.offsets, saved?_of_contents_eq h.contents]
    simp only [List.mem_cons, List.not_mem_nil, or_false]
    by_cases heq : other = partition
    · subst heq
      cases p.saved? x other <;> simp
    · simp [heq]

theorem of_restoreAll_run {partitions : List Nat}
    (h : (p.restoreAll partitions).run (answer context) x = (.ok (), x')) :
    Resumed p partitions x x' := by
  induction partitions generalizing x with
  | nil =>
      cases h
      exact ⟨rfl, rfl, .refl _ _ _, fun _ => rfl⟩
  | cons partition partitions ih =>
      simp only [Processor.restoreAll, Program.bind_eq] at h
      obtain ⟨found, x₁, hfound, h⟩ := Program.run_bind_ok h
      cases hfound
      split at h
      · obtain ⟨saved, x₂, hread, h⟩ := Program.run_bind_ok h
        obtain ⟨s, hrun, rfl⟩ := of_onStorage_run hread
        obtain ⟨hsaved, rfl⟩ := ProgressTable.of_readOffset_run hrun
        cases saved with
        | none =>
            refine Resumed.cons ?_ (ih h)
            refine ⟨rfl, contents_update_self .., .of_update fun _ _ _ => rfl, fun other => ?_⟩
            split
            · next hmem =>
              rw [List.mem_singleton.mp hmem, Processor.saved?, ← hsaved, Option.none_or]
            · rfl
        | some offset =>
            obtain ⟨_, x₃, hcommit, h⟩ := Program.run_bind_ok h
            cases hcommit
            refine Resumed.cons ?_ (ih h)
            refine ⟨rfl, contents_update_self .., .of_update fun _ _ _ => rfl, fun other => ?_⟩
            simp only [SortedMap.get?_insert, List.mem_singleton]
            split
            · next heq => rw [heq, Processor.saved?, ← hsaved, Option.some_or]
            · rfl
      · cases h

end Ingestion

end Rollup
