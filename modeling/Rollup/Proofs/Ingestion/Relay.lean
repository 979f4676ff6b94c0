import Rollup.Proofs.Ingestion.Success

namespace Rollup

open Storage Entity

def Bus.payloads (bus : Bus) (t : Topic) : List Bytes := (bus.topics.get? t).getD []

theorem Bus.payloads_eq {bus : Bus} {t : Topic} {log : List Bytes} (h : bus.log t = .ok log) :
    bus.payloads t = log := by
  simp only [Bus.log] at h
  split at h
  · next hget =>
    cases h
    simp only [payloads, hget, Option.getD_some]
  · cases h

theorem Bus.Extends.payloads {bus bus' : Bus} (h : bus.Extends bus') (t : Topic) :
    bus.payloads t <+: bus'.payloads t := by
  cases hlog : bus.log t with
  | error e =>
      simp only [Bus.log] at hlog
      split at hlog
      · cases hlog
      · next hget =>
        simp only [Bus.payloads, hget, Option.getD_none, List.nil_prefix]
  | ok log =>
      obtain ⟨more, hmore⟩ := h t log hlog
      rw [Bus.payloads_eq hlog, Bus.payloads_eq hmore]
      exact List.prefix_append ..

namespace Ingestion

/-- What a processor has of its own. -/
structure Shift where
  worker : String
  partitions : List Nat
  context : Context
  fetchLimit : Nat
  fetchLimit_pos : 1 ≤ fetchLimit

def Shift.processor (shift : Shift) (p : Processor) : Processor :=
  { p with
    worker := shift.worker
    partitions := shift.partitions
    context := shift.context
    config := { p.config with fetchLimit := shift.fetchLimit } }

/-- A processor on its shift, and what it hands on to the next. -/
structure Relay where
  state : State
  shift : Option Shift := none

inductive Turn where
  | publish (topic : Topic) (payload : Bytes)
  | replace (shift : Shift)
  | call (partition : Nat)

namespace Relay

def start (storage : Storage) (bus : Bus) (pending : Pending) : Relay :=
  ⟨{ storage, bus, pending }, none⟩

def replace (p : Processor) (w : Relay) (shift : Shift) : Option Relay :=
  match (shift.processor p).restore.run (answer shift.context)
      { w.state with offsets := .empty } with
  | (.ok _, state) => some ⟨state, some shift⟩
  | (.error _, _) => none

def call (p : Processor) (w : Relay) (partition : Nat) : Option (Nat × Relay) :=
  match w.shift with
  | none => none
  | some shift =>
      if partition ∈ shift.partitions then
        match ((shift.processor p).processOnce partition).run (answer shift.context) w.state with
        | (.ok n, state) => some (n, { w with state })
        | (.error _, _) => none
      else none

/-- One turn, unless it fails. A payload for a topic that is not there is not published. -/
def take (p : Processor) (w : Relay) : Turn → Option Relay
  | .publish topic payload =>
      match w.state.bus.publish topic payload with
      | .ok (_, bus) => some { w with state := { w.state with bus } }
      | .error _ => some w
  | .replace shift => w.replace p shift
  | .call partition => (w.call p partition).map (·.2)

def run (p : Processor) (w : Relay) (turns : List Turn) : Option Relay :=
  turns.foldlM (take p) w

def log (p : Processor) (w : Relay) (partition : Nat) : List Bytes :=
  w.state.bus.payloads (p.config.topic partition)

def position (p : Processor) (w : Relay) (partition : Nat) : Nat :=
  Bus.next (p.saved? w.state partition)

end Relay

def ofPartition (partition : Nat) (taken : List (Nat × Bytes)) : List Bytes :=
  (taken.filter fun e => e.1 == partition).map (·.2)

/-- What turns have come to, from a storage in which no offset was saved. -/
structure Ingested (p : Processor) (storage : Storage) (w : Relay) : Prop where
  /-- The offsets of the processor are the saved ones. -/
  level : ∀ shift, w.shift = some shift → ∀ partition ∈ shift.partitions,
    w.state.offsets.get? partition = p.saved? w.state partition
  position_le : ∀ partition, w.position p partition ≤ (w.log p partition).length
  /-- The storage is what a single writer makes of it who is given the batches of each
  partition up to the saved offset, each once and in order. Only the offsets are on top. -/
  written : ∃ taken : List (Nat × Bytes),
    (∀ partition, ofPartition partition taken =
      (w.log p partition).take (w.position p partition)) ∧
    ∃ s, (forM (Batch.readable (taken.map (·.2))) p.store.addAll).run Storage.answer storage =
        (.ok (), s) ∧
      s.SameBut p.progress.table ProgressTable.column w.state.storage

variable {p : Processor} {storage : Storage} {w w' : Relay} {partition : Nat}

theorem Ingested.publish (h : Ingested p storage w) {bus : Bus}
    (hextends : w.state.bus.Extends bus) :
    Ingested p storage { w with state := { w.state with bus } } := by
  have hgrown : ∀ partition, w.log p partition <+: bus.payloads (p.config.topic partition) :=
    fun partition => hextends.payloads _
  obtain ⟨taken, htaken, hwritten⟩ := h.written
  refine ⟨h.level, fun partition => ?_, taken, fun partition => ?_, hwritten⟩
  · exact Nat.le_trans (h.position_le partition) (hgrown partition).length_le
  · rw [htaken]
    obtain ⟨more, hmore⟩ := hgrown partition
    have hle := h.position_le partition
    simp only [Relay.log, Relay.position] at hle hmore ⊢
    rw [← hmore]
    exact (List.take_append_of_le_length hle).symm

theorem Ingested.replace (h : Ingested p storage w) {shift : Shift}
    (hreplace : w.replace p shift = some w') :
    Ingested p storage w' := by
  simp only [Relay.replace] at hreplace
  split at hreplace
  · next state hrun =>
    cases hreplace
    have hresumed : Resumed (shift.processor p) shift.partitions
        { w.state with offsets := .empty } state := of_restoreAll_run hrun
    have hsaved : ∀ partition, p.saved? state partition = p.saved? w.state partition :=
      saved?_of_contents_eq hresumed.contents
    obtain ⟨taken, htaken, s, hrun, halike⟩ := h.written
    refine ⟨?_, ?_, taken, ?_, s, hrun, halike.trans hresumed.alike⟩
    · rintro _ ⟨⟩ partition hpartition
      rw [hresumed.offsets, if_pos hpartition, hsaved]
      exact Option.or_none
    · intro partition
      have hle := h.position_le partition
      simp only [Relay.position, Relay.log, hsaved, hresumed.bus] at hle ⊢
      exact hle
    · intro partition
      rw [htaken]
      simp only [Relay.position, Relay.log, hsaved, hresumed.bus]
  · cases hreplace

theorem Relay.of_call {n : Nat} (h : w.call p partition = some (n, w')) :
    ∃ shift state, w.shift = some shift ∧ partition ∈ shift.partitions ∧
      w' = { w with state } ∧ ((shift.processor p).processOnce partition).run
        (answer shift.context) w.state = (.ok n, state) := by
  simp only [Relay.call] at h
  split at h
  · cases h
  · next shift hshift =>
    split at h
    · next hpartition =>
      split at h
      · next m state hrun =>
        cases h
        exact ⟨shift, state, hshift, hpartition, rfl, hrun⟩
      · cases h
    · cases h

theorem ofPartition_append (partition : Nat) (taken more : List (Nat × Bytes)) :
    ofPartition partition (taken ++ more) =
      ofPartition partition taken ++ ofPartition partition more := by
  simp only [ofPartition, List.filter_append, List.map_append]

theorem ofPartition_single (partition other : Nat) (payloads : List Bytes) :
    ofPartition partition (payloads.map fun payload => (other, payload)) =
      if partition = other then payloads else [] := by
  by_cases heq : partition = other
  · subst heq
    simp [ofPartition, List.filter_map, Function.comp_def]
  · simp [ofPartition, List.filter_map, Function.comp_def, heq, Ne.symm heq]

theorem saved?_of_keeping {x x' y : State} {payloads : List Bytes} {last : Nat} {worker : String}
    (hwrote : Wrote p payloads x y) (hlast : last ≤ Progress.maxOffset)
    (hstorage : x'.storage = p.progress.keeping y.storage (p.saved partition) ⟨last, worker⟩)
    (other : Nat) :
    p.saved? x' other = if other = partition then some last else p.saved? x other := by
  rw [Processor.saved?, hstorage, ProgressTable.held?_keeping _ _ _ hlast, ← hwrote.saved?]
  by_cases heq : other = partition
  · subst heq
    simp
  · rw [if_neg heq, if_neg fun hsaved => heq (saved_injective hsaved)]
    rfl

/-- A call has taken the next `n` messages of a partition, all of them if none are left. -/
structure Served (p : Processor) (partition n : Nat) (w w' : Relay) : Prop where
  bus : w'.state.bus = w.state.bus
  level : ∀ shift, w'.shift = some shift → ∀ other ∈ shift.partitions,
    w'.state.offsets.get? other = p.saved? w'.state other
  position : ∀ other, w'.position p other =
    if other = partition then w.position p partition + n else w.position p other
  position_le : w.position p partition + n ≤ (w.log p partition).length
  eq_zero_iff : n = 0 ↔ w.position p partition = (w.log p partition).length
  written : ∃ s, (forM (Batch.readable
      (((w.log p partition).drop (w.position p partition)).take n)) p.store.addAll).run
        Storage.answer w.state.storage = (.ok (), s) ∧
    s.SameBut p.progress.table ProgressTable.column w'.state.storage

theorem Ingested.served (h : Ingested p storage w) (hbounded : w.state.bus.Bounded) {n : Nat}
    (hcall : w.call p partition = some (n, w')) : Served p partition n w w' := by
  obtain ⟨shift, state, hshift, hpartition, rfl, hrun⟩ := Relay.of_call hcall
  obtain ⟨log, hlog, hn, hcases⟩ := of_processOnce_run hrun
  have hpayloads : w.log p partition = log := Bus.payloads_eq hlog
  have hposition : w.state.position partition = w.position p partition := by
    rw [State.position, h.level shift hshift partition hpartition]
    rfl
  have hle := h.position_le partition
  rw [hpayloads] at hle
  have hlimit := shift.fetchLimit_pos
  have hcount : n = min (log.length - w.position p partition) shift.fetchLimit := by
    rw [hn, length_batch, hposition]
    rfl
  have hbatch : batch (shift.processor p) partition log w.state =
      (log.drop (w.position p partition)).take n := by
    rw [hn, ← hposition]
    exact List.prefix_iff_eq_take.mp (List.take_prefix ..)
  rw [hbatch] at hcases
  rcases hcases with ⟨rfl, rfl⟩ | ⟨hpos, y, hwrote, hbus, hoffsets, hstorage⟩
  · refine ⟨rfl, h.level, fun other => ?_, ?_, ?_, w.state.storage, rfl, .refl _ _ _⟩
    · split
      · next heq => rw [heq, Nat.add_zero]
      · rfl
    · rw [hpayloads]
      omega
    · rw [hpayloads]
      omega
  · have hlast : w.state.position partition + n - 1 ≤ Progress.maxOffset := by
      have := hbounded _ _ hlog
      omega
    have hsaved : ∀ other, p.saved? state other =
        if other = partition then some (w.state.position partition + n - 1)
        else p.saved? w.state other :=
      saved?_of_keeping (p := shift.processor p) hwrote hlast hstorage
    refine ⟨hbus, ?_, fun other => ?_, ?_, ?_, y.storage, ?_, ?_⟩
    · intro shift' hshift' other hother
      rw [hoffsets, SortedMap.get?_insert, hsaved, h.level shift' hshift' other hother]
    · simp only [Relay.position, hsaved]
      split
      · rw [Bus.next, hposition, Relay.position]
        omega
      · rfl
    · rw [hpayloads]
      omega
    · rw [hpayloads]
      omega
    · rw [hpayloads]
      exact hwrote.storage
    · rw [hstorage]
      exact ProgressTable.sameBut_keeping ..

theorem Ingested.call (h : Ingested p storage w) {n : Nat} (hserved : Served p partition n w w') :
    Ingested p storage w' := by
  have hlogs : ∀ other, w'.log p other = w.log p other := by
    intro other
    simp only [Relay.log, hserved.bus]
  obtain ⟨taken, htaken, s, hreplay, halike⟩ := h.written
  obtain ⟨s', hrun, halike'⟩ := hserved.written
  obtain ⟨s₁, hmore, halike₁⟩ := MetricStore.writes_alike halike hrun
  let batch := ((w.log p partition).drop (w.position p partition)).take n
  refine ⟨hserved.level, fun other => ?_, taken ++ batch.map fun payload => (partition, payload),
    fun other => ?_, s₁, ?_, halike₁.trans halike'⟩
  · rw [hserved.position, hlogs]
    split
    · next heq => exact heq ▸ hserved.position_le
    · exact h.position_le other
  · rw [ofPartition_append, ofPartition_single, htaken, hserved.position, hlogs]
    split
    · next heq => rw [heq, List.take_add]
    · rw [List.append_nil]
  · rw [List.map_append, List.map_map, Batch.readable_append, MetricStore.writes_append hreplay]
    simp only [Function.comp_def, List.map_id']
    exact hmore

theorem extends_take {turn : Turn} (h : w.take p turn = some w') :
    w.state.bus.Extends w'.state.bus := by
  cases turn with
  | publish topic payload =>
      simp only [Relay.take] at h
      split at h
      · next offset bus hpublish =>
        cases h
        exact extends_of_publish hpublish
      · cases h
        exact .refl _
  | replace shift =>
      simp only [Relay.take, Relay.replace] at h
      split at h
      · next state hrun =>
        cases h
        rw [(of_restoreAll_run hrun).bus]
        exact .refl _
      · cases h
  | call partition =>
      obtain ⟨⟨n, w₁⟩, hcall, rfl⟩ := Option.map_eq_some_iff.mp h
      obtain ⟨shift, state, -, -, rfl, hrun⟩ := Relay.of_call hcall
      obtain ⟨log, -, -, ⟨-, rfl⟩ | ⟨-, y, -, hbus, -⟩⟩ := of_processOnce_run hrun
      · exact .refl _
      · rw [hbus]
        exact .refl _

theorem extends_run {turns : List Turn} (h : w.run p turns = some w') :
    w.state.bus.Extends w'.state.bus := by
  induction turns generalizing w with
  | nil =>
      cases h
      exact .refl _
  | cons turn turns ih =>
      simp only [Relay.run, List.foldlM_cons, Option.bind_eq_bind, Option.bind_eq_some_iff] at h
      obtain ⟨w₁, htake, hrest⟩ := h
      exact (extends_take htake).trans (ih hrest)

theorem ingested_start (p : Processor) (storage : Storage) (bus : Bus) (pending : Pending)
    (hunsaved : ∀ partition, p.progress.held? storage (p.saved partition) = none) :
    Ingested p storage (.start storage bus pending) := by
  have hposition : ∀ partition, Relay.position p (.start storage bus pending) partition = 0 := by
    intro partition
    simp only [Relay.position, Processor.saved?, Relay.start, hunsaved, Bus.next]
  refine ⟨?_, fun partition => ?_, [], fun partition => ?_, storage, rfl, .refl _ _ _⟩
  · intro shift hshift
    cases hshift
  · rw [hposition]
    exact Nat.zero_le _
  · rw [hposition, List.take_zero]
    rfl

theorem Ingested.take (h : Ingested p storage w) {turn : Turn} (htake : w.take p turn = some w')
    (hbounded : w'.state.bus.Bounded) : Ingested p storage w' := by
  have hextends := extends_take htake
  cases turn with
  | publish topic payload =>
      simp only [Relay.take] at htake
      split at htake
      · cases htake
        exact h.publish hextends
      · cases htake
        exact h
  | replace shift => exact h.replace htake
  | call partition =>
      obtain ⟨⟨n, w₁⟩, hcall, rfl⟩ := Option.map_eq_some_iff.mp htake
      exact h.call (h.served (hextends.bounded hbounded) hcall)

theorem Ingested.run (h : Ingested p storage w) {turns : List Turn}
    (hrun : w.run p turns = some w') (hbounded : w'.state.bus.Bounded) :
    Ingested p storage w' := by
  induction turns generalizing w with
  | nil =>
      cases hrun
      exact h
  | cons turn turns ih =>
      simp only [Relay.run, List.foldlM_cons, Option.bind_eq_bind,
        Option.bind_eq_some_iff] at hrun
      obtain ⟨w₁, htake, hrest⟩ := hrun
      exact ih (h.take htake ((extends_run hrest).bounded hbounded)) hrest

theorem Ingested.calls (h : Ingested p storage w) (hbounded : w.state.bus.Bounded) {k : Nat}
    (hrun : w.run p (List.replicate k (.call partition)) = some w') :
    Ingested p storage w' ∧ w'.log p partition = w.log p partition ∧
      min (w.log p partition).length (w.position p partition + k) ≤ w'.position p partition := by
  induction k generalizing w with
  | zero =>
      cases hrun
      exact ⟨h, rfl, Nat.min_le_right ..⟩
  | succ k ih =>
      simp only [Relay.run, List.replicate_succ, List.foldlM_cons, Option.bind_eq_bind,
        Option.bind_eq_some_iff] at hrun
      obtain ⟨w₁, htake, hrest⟩ := hrun
      obtain ⟨⟨n, w₂⟩, hcall, rfl⟩ := Option.map_eq_some_iff.mp htake
      have hserved := h.served hbounded hcall
      obtain ⟨h', hlog', hlast⟩ := ih (h.call hserved) (hserved.bus ▸ hbounded) hrest
      have hlog : Relay.log p w₂ partition = w.log p partition := by
        simp only [Relay.log, hserved.bus]
      have hzero := hserved.eq_zero_iff
      rw [hlog, hserved.position, if_pos rfl] at hlast
      exact ⟨h', hlog'.trans hlog, by omega⟩

theorem Ingested.keeps (h : Ingested p storage w) {d : Datasets} {L : Resolution → Ledger}
    (hnames : d.EntitiesApart) (hcurrent : ∀ r, (p.store.table r).current = d.currentTable r)
    (hentities : d.entityTable.table ≠ p.progress.table)
    (htables : ∀ r, (d.currentTable r).table ≠ p.progress.table) (hstart : d.Keeps storage L) :
    ∃ taken : List (Nat × Bytes),
      (∀ partition, ofPartition partition taken =
        (w.log p partition).take (w.position p partition)) ∧
      d.Keeps w.state.storage fun r =>
        ((Batch.readable (taken.map (·.2))).flatten.map .write).foldl (Ledger.apply r) (L r) := by
  obtain ⟨taken, htaken, s, hreplay, halike⟩ := h.written
  exact ⟨taken, htaken,
    (hstart.writes hnames hcurrent hreplay).of_sameBut halike hentities htables⟩

/-- As long as no call fails, the values of every message up to a saved offset have been
written once, in the order of their partition, whichever processors were at work and however
much each of them took at once. A call takes nothing only if nothing is left, and calls in a
row take everything. -/
theorem ingested_once (p : Processor) (storage : Storage) (bus : Bus) (pending : Pending)
    (hunsaved : ∀ partition, p.progress.held? storage (p.saved partition) = none)
    (turns : List Turn) (w : Relay)
    (hrun : Relay.run p (.start storage bus pending) turns = some w)
    (hbounded : w.state.bus.Bounded) :
    Ingested p storage w ∧ ∀ partition,
      (∀ n w', w.call p partition = some (n, w') →
        w'.position p partition = w.position p partition + n ∧
          (n = 0 ↔ w.position p partition = (w.log p partition).length)) ∧
      ∀ k w', (w.log p partition).length ≤ w.position p partition + k →
        w.run p (List.replicate k (.call partition)) = some w' →
          w'.position p partition = (w.log p partition).length := by
  have h := (ingested_start p storage bus pending hunsaved).run hrun hbounded
  refine ⟨h, fun partition => ⟨fun n w' hcall => ?_, fun k w' hk hcalls => ?_⟩⟩
  · have hserved := h.served hbounded hcall
    exact ⟨by rw [hserved.position, if_pos rfl], hserved.eq_zero_iff⟩
  · obtain ⟨h', hlog, hreached⟩ := h.calls hbounded hcalls
    have hle := h'.position_le partition
    rw [hlog] at hle
    omega

/-- The second processor goes on where the first one stopped, behind a payload that is no
batch. -/
def sampleTurns : List Turn :=
  let topic := sampleProcessor.config.topic 0
  [.publish topic samplePayload, .replace ⟨"a", [0], .root, 2, by decide⟩, .publish topic [0],
    .call 0, .publish topic samplePayload, .replace ⟨"b", [0], .root, 1, by decide⟩, .call 0,
    .call 0]

theorem sample_ingested_once :
    ∃ w, Relay.run sampleProcessor (.start {} sampleBus {}) sampleTurns = some w ∧
      (Batch.readable (w.log sampleProcessor 0)).length = 2 ∧
      w.position sampleProcessor 0 = 3 ∧ Ingested sampleProcessor {} w := by
  have hrun : (Relay.run sampleProcessor (.start {} sampleBus {}) sampleTurns).any fun w =>
      (Batch.readable (w.log sampleProcessor 0)).length == 2 &&
        w.position sampleProcessor 0 == 3 && decide w.state.bus.Bounded := by
    decide +kernel
  rw [Option.any_eq_true] at hrun
  obtain ⟨w, hsome, hw⟩ := hrun
  simp only [Bool.and_eq_true, beq_iff_eq, decide_eq_true_eq] at hw
  obtain ⟨⟨hreadable, hposition⟩, hbounded⟩ := hw
  exact ⟨w, hsome, hreadable, hposition,
    (ingested_once sampleProcessor {} sampleBus {} (fun _ => rfl) sampleTurns w hsome hbounded).1⟩

end Ingestion

end Rollup
