import Mathlib.Logic.Function.Iterate
import Rollup.Proofs.Ingestion.Success
import Rollup.Proofs.Storage.Outage

namespace Rollup

open Storage

def Pending.count (p : Pending) (s : Series) : Int64 := (p.counters.get? s).getD 0

theorem Pending.count_increment (p : Pending) (s : Series) (delta : Int64) (s' : Series) :
    (p.increment s delta).count s' = p.count s' + if s' = s then delta else 0 := by
  simp only [count, increment, SortedMap.get?_insert]
  split
  · next h => rw [h, Option.getD_some]
  · rw [Int64.add_zero]

@[simp] theorem Pending.count_gauge (p : Pending) (s : Series) (value : Int64) (s' : Series) :
    (p.gauge s value).count s' = p.count s' := rfl

theorem Unsteady.cell?_run {α : Type} {w : Work α} {column : Bytes} (u : Unsteady) (id : TableId)
    (row : Bytes) (hw : w.Only (Avoids column)) :
    ((w.run answer u).2.storage.contents id).cell? row column =
      (u.storage.contents id).cell? row column := by
  refine hw.run (fun v : Unsteady => (v.storage.contents id).cell? row column =
    (u.storage.contents id).cell? row column) (fun q v hq hv => ?_) rfl
  cases q with
  | known cache e => exact (congrArg (·.cell? row column) (v.contents_evicted id)).trans hv
  | remember cache e number =>
      exact (congrArg (·.cell? row column) (v.contents_evicted id)).trans hv
  | table other op =>
      rcases v.answer_table other op with ⟨e, heq⟩ | ⟨a, T, hperform, heq⟩ <;> rw [heq]
      · exact (congrArg (·.cell? row column) (v.contents_evicted id)).trans hv
      · rw [contents_update, contents_evicted]
        split
        · next hid =>
          subst hid
          rw [Table.cell?_of_perform (hq id op rfl) (fun h => h rfl) hperform, hv]
        · exact hv

namespace Ingestion

structure Trial where
  state : State
  /-- How the coming fetches and table operations fail from outside; behind the list's end none
  does. -/
  outages : List (Option Error) := []
  /-- What memories drop before the coming requests to the storage. -/
  evictions : List (List (Nat × Entity)) := []

variable {context : Context} {p : Processor} {partition : Nat} {messages : List Message}

def waiting (p : Processor) (partition : Nat) (x : State) : List Message :=
  (x.bus.fetch (p.config.topic partition) (x.offsets.get? partition)
    p.config.fetchLimit).toOption.getD []

def values (messages : List Message) : Nat :=
  (messages.map fun m => (Batch.decode m.payload).toOption.elim 0 List.length).sum

def undecodable (messages : List Message) : Nat :=
  messages.countP fun m => (Batch.decode m.payload).toOption.isNone

theorem values_append (messages more : List Message) :
    values (messages ++ more) = values messages + values more := by
  simp [values]

theorem undecodable_append (messages more : List Message) :
    undecodable (messages ++ more) = undecodable messages + undecodable more :=
  List.countP_append

namespace Trial

variable {u v w : Trial}

def unsteady (u : Trial) : Unsteady := ⟨u.state.storage, u.outages, u.evictions⟩

def become (u : Trial) (v : Unsteady) : Trial :=
  ⟨{ u.state with storage := v.storage }, v.outages, v.evictions⟩

def answer (context : Context) : Handler interface Trial
  | .storage q, u =>
    let (answer, met) := Unsteady.answer q u.unsteady
    (answer, u.become met)
  | .fetch topic after limit, u =>
    let fetched := match u.outages.head?.join with
      | some e => .error e
      | none => u.state.bus.fetch topic after limit
    (fetched, { u with outages := u.outages.tail })
  | q, u =>
    let (answer, state) := Ingestion.answer context q u.state
    (answer, { u with state })

theorem run_onStorage {α : Type} (context : Context) (w : Storage.Work α) (u : Trial) :
    (onStorage w).run (answer context) u =
      ((w.run Unsteady.answer u.unsteady).1, u.become (w.run Unsteady.answer u.unsteady).2) := by
  induction w generalizing u with
  | result outcome => rfl
  | call q resume ih => exact ih _ _

def skip (context : Context) (p : Pending) : Pending :=
  p.increment ⟨"process.skipped", context⟩ 1

/-- Nothing has changed but the storage away from the saved offsets, and that some messages
were passed over. -/
structure Passes (context : Context) (n : Nat) (u v : Trial) : Prop where
  bus : v.state.bus = u.state.bus
  offsets : v.state.offsets = u.state.offsets
  pending : v.state.pending = (skip context)^[n] u.state.pending
  saved : ∀ id row, (v.state.storage.contents id).cell? row ProgressTable.column =
    (u.state.storage.contents id).cell? row ProgressTable.column

theorem Passes.trans {m n : Nat} (h : Passes context m u v) (h' : Passes context n v w) :
    Passes context (m + n) u w where
  bus := h'.bus.trans h.bus
  offsets := h'.offsets.trans h.offsets
  pending := by rw [h'.pending, h.pending, Nat.add_comm, Function.iterate_add_apply]
  saved id row := (h'.saved id row).trans (h.saved id row)

theorem passes_onStorage {α : Type} {w : Storage.Work α}
    (hw : w.Only (Avoids ProgressTable.column)) (u : Trial) :
    Passes context 0 u ((onStorage w).run (answer context) u).2 := by
  rw [run_onStorage]
  exact ⟨rfl, rfl, rfl, fun id row => u.unsteady.cell?_run id row hw⟩

theorem apply_run (context : Context) (p : Processor) (message : Message) (u : Trial) :
    ∃ outcome v, (p.apply message).run (answer context) u = (outcome, v) ∧
      Passes context (undecodable [message]) u v ∧
      (outcome = .ok (values [message]) ∨
        undecodable [message] = 0 ∧ ∃ e, outcome = .error e) := by
  cases hdecode : Batch.decode message.payload with
  | error fault =>
      have hvalues : values [message] = 0 := by simp [values, hdecode, Except.toOption]
      have hundecodable : undecodable [message] = 1 := by
        simp [undecodable, hdecode, Except.toOption]
      simp only [Processor.apply, hdecode, hvalues, hundecodable]
      exact ⟨_, _, rfl, ⟨rfl, rfl, rfl, fun _ _ => rfl⟩, .inl rfl⟩
  | ok batch =>
      have hvalues : values [message] = batch.length := by
        simp [values, hdecode, Except.toOption]
      have hundecodable : undecodable [message] = 0 := by
        simp [undecodable, hdecode, Except.toOption]
      have havoids : (p.store.addAll batch).Only (Avoids ProgressTable.column) :=
        Program.only_mono (fun _ hq => hq.avoids) (p.store.addAll_only batch)
      have hpasses : Passes context 0 u
          ((onStorage (p.store.addAll batch)).run (answer context) u).2 :=
        passes_onStorage havoids u
      simp only [Processor.apply, hdecode, hvalues, hundecodable, Program.bind_eq, Program.pure_eq,
        Program.run_bind]
      cases hrun : (onStorage (p.store.addAll batch)).run (answer context) u with
      | mk outcome v =>
          rw [hrun] at hpasses
          cases outcome with
          | ok a => exact ⟨_, _, rfl, hpasses, .inl rfl⟩
          | error e => exact ⟨_, _, rfl, hpasses, .inr ⟨trivial, e, rfl⟩⟩

/-- The messages that are taken care of one after another, up to the first that fails. -/
def through (context : Context) (p : Processor) : List Message → Trial → List Message
  | [], _ => []
  | message :: messages, u =>
    match (p.apply message).run (answer context) u with
    | (.ok _, u) => message :: through context p messages u
    | (.error _, _) => []

theorem applyEach_run (context : Context) (p : Processor) (messages : List Message) (u : Trial) :
    ∃ outcome v, (messages.mapM p.apply).run (answer context) u = (outcome, v) ∧
      Passes context (undecodable (through context p messages u)) u v ∧
      ((∃ ns, outcome = .ok ns ∧ ns.foldr (· + ·) 0 = values messages ∧
          through context p messages u = messages) ∨
        ∃ e, outcome = .error e) := by
  induction messages generalizing u with
  | nil => exact ⟨.ok [], u, rfl, ⟨rfl, rfl, rfl, fun _ _ => rfl⟩, .inl ⟨[], rfl, rfl, rfl⟩⟩
  | cons message messages ih =>
      obtain ⟨outcome, v, hrun, hpasses, hcases⟩ := apply_run context p message u
      simp only [List.mapM_cons, Program.bind_eq, Program.pure_eq, Program.run_bind, hrun, through]
      rcases hcases with rfl | ⟨hnone, e, rfl⟩
      · obtain ⟨outcome, w, hrest, hrestPasses, hrestCases⟩ := ih v
        have happend : undecodable (message :: through context p messages v) =
            undecodable [message] + undecodable (through context p messages v) :=
          undecodable_append [message] _
        simp only [hrest, happend]
        rcases hrestCases with ⟨ns, rfl, hsum, hthrough⟩ | ⟨e, rfl⟩
        · refine ⟨_, w, rfl, hpasses.trans hrestPasses, .inl ⟨_, rfl, ?_, by rw [hthrough]⟩⟩
          rw [List.foldr_cons, hsum]
          exact (values_append [message] messages).symm
        · exact ⟨_, w, rfl, hpasses.trans hrestPasses, .inr ⟨e, rfl⟩⟩
      · rw [hnone] at hpasses
        exact ⟨_, v, rfl, hpasses, .inr ⟨e, rfl⟩⟩

theorem settle_run (context : Context) (p : Processor) (partition : Nat)
    (messages : List Message) (last written : Nat) (u : Trial) :
    ∃ outcome v, (settle p partition messages last written).run (answer context) u =
        (outcome, v) ∧
      ((∃ e, outcome = .error e ∧ Passes context 0 u v) ∨
        outcome = .ok messages.length ∧
          v.state.offsets = u.state.offsets.insert partition last ∧
          v.state.pending =
            (u.state.pending.increment ⟨"process.count", context⟩ (Int64.ofNat written)).gauge
              ⟨"process.offset", context⟩ (Int64.ofNat last)) := by
  simp only [settle, Program.bind_eq, Program.pure_eq, Program.run_bind, run_onStorage]
  have hput := u.unsteady.perform_run_cases p.progress.table
    (.put (p.saved partition).row ProgressTable.column (Progress.encode ⟨last, p.worker⟩))
  rcases hput with ⟨e, v, hrun, hcontents⟩ | ⟨a, T, v, -, hrun, -⟩
  · have hsave : (p.progress.save (p.saved partition) ⟨last, p.worker⟩).run Unsteady.answer
        u.unsteady = (.error e, v) := hrun
    simp only [hsave]
    refine ⟨_, _, rfl, .inl ⟨e, rfl, rfl, rfl, rfl, fun id row => ?_⟩⟩
    exact congrArg (fun contents => (contents id).cell? row ProgressTable.column) hcontents
  · have hsave : (p.progress.save (p.saved partition) ⟨last, p.worker⟩).run Unsteady.answer
        u.unsteady = (.ok a, v) := hrun
    simp only [hsave]
    exact ⟨_, _, rfl, .inr ⟨rfl, rfl, rfl⟩⟩

def fetched (context : Context) (p : Processor) (partition : Nat) (u : Trial) :
    Except Error (List Message) × Trial :=
  (fetch (p.config.topic partition) (u.state.offsets.get? partition) p.config.fetchLimit).run
    (answer context) u

/-- The messages that the next call takes care of, all of those it fetches unless it fails. -/
def taken (u : Trial) (context : Context) (p : Processor) (partition : Nat) : List Message :=
  match fetched context p partition u with
  | (.ok messages, v) => through context p messages v
  | (.error _, _) => []

theorem through_prefix (context : Context) (p : Processor) (messages : List Message)
    (u : Trial) : through context p messages u <+: messages := by
  induction messages generalizing u with
  | nil => exact List.prefix_refl []
  | cons message messages ih =>
      rw [through]
      split
      · exact List.cons_prefix_cons.mpr ⟨rfl, ih _⟩
      · exact List.nil_prefix

theorem taken_prefix (u : Trial) (context : Context) (p : Processor) (partition : Nat) :
    u.taken context p partition <+: waiting p partition u.state := by
  have hfetched : (fetched context p partition u).1 =
      match u.outages.head?.join with
      | some e => .error e
      | none => u.state.bus.fetch (p.config.topic partition) (u.state.offsets.get? partition)
          p.config.fetchLimit := rfl
  rw [taken]
  split
  · next messages v hfetch =>
    rw [hfetch] at hfetched
    split at hfetched
    · cases hfetched
    · rw [waiting, ← hfetched]
      exact through_prefix context p messages v
  · exact List.nil_prefix

theorem processOnce_run_bind (context : Context) (p : Processor) (partition : Nat) (u : Trial) :
    (p.processOnce partition).run (answer context) u =
      match fetched context p partition u with
      | (.error e, v) => (.error e, v)
      | (.ok messages, v) =>
        match messages.getLast? with
        | none => (.ok 0, v)
        | some last =>
          ((messages.mapM p.apply).bind fun ns =>
              settle p partition messages last.offset (ns.foldr (· + ·) 0)).run
            (answer context) v := by
  have hfetch : (p.processOnce partition).run (answer context) u =
      ((fetch (p.config.topic partition) (u.state.offsets.get? partition)
        p.config.fetchLimit).bind fun messages => match messages.getLast? with
          | none => .result (.ok 0)
          | some last => (p.applyAll messages).bind (settle p partition messages last.offset)).run
        (answer context) u := by
    rfl
  rw [hfetch, Program.run_bind, fetched]
  split
  · next messages v hrun =>
    simp only [hrun]
    cases messages.getLast? with
    | none => rfl
    | some last =>
        simp only [Processor.applyAll, Program.bind_eq, Program.pure_eq, Program.bind_assoc]
        rfl
  · next e v hrun => simp only [hrun]

theorem processOnce_run (u : Trial) (context : Context) (p : Processor) (partition : Nat) :
    ∃ outcome v, (p.processOnce partition).run (answer context) u = (outcome, v) ∧
      ((∃ e, outcome = .error e ∧
          Passes context (undecodable (u.taken context p partition)) u v) ∨
        (outcome = .ok 0 ∧ u.taken context p partition = [] ∧ Passes context 0 u v) ∨
        ∃ last, (u.taken context p partition).getLast? = some last ∧
          outcome = .ok (u.taken context p partition).length ∧
          v.state.offsets = u.state.offsets.insert partition last.offset ∧
          v.state.pending =
            (((skip context)^[undecodable (u.taken context p partition)] u.state.pending).increment
              ⟨"process.count", context⟩
              (Int64.ofNat (values (u.taken context p partition)))).gauge
              ⟨"process.offset", context⟩ (Int64.ofNat last.offset)) := by
  have hfetched : Passes context 0 u (fetched context p partition u).2 :=
    ⟨rfl, rfl, rfl, fun _ _ => rfl⟩
  rw [processOnce_run_bind]
  cases hfetch : fetched context p partition u with
  | mk outcome v =>
      rw [hfetch] at hfetched
      cases outcome with
      | error e =>
          have htaken : u.taken context p partition = [] := by rw [taken, hfetch]
          rw [htaken]
          exact ⟨_, v, rfl, .inl ⟨e, rfl, hfetched⟩⟩
      | ok messages =>
          have htaken : u.taken context p partition = through context p messages v := by
            rw [taken, hfetch]
          rw [htaken]
          cases hlast : messages.getLast? with
          | none =>
              obtain rfl := List.getLast?_eq_none_iff.mp hlast
              exact ⟨_, v, rfl, .inr (.inl ⟨rfl, rfl, hfetched⟩)⟩
          | some last =>
              obtain ⟨outcome, w, hrun, hpasses, hcases⟩ := applyEach_run context p messages v
              have hpassed := hfetched.trans hpasses
              rw [Nat.zero_add] at hpassed
              simp only [hlast, Program.run_bind, hrun]
              rcases hcases with ⟨ns, rfl, hsum, hthrough⟩ | ⟨e, rfl⟩
              · obtain ⟨outcome, x, hsettle, hcases⟩ := settle_run context p partition messages
                  last.offset (ns.foldr (· + ·) 0) w
                simp only [hsettle]
                rw [hthrough] at hpassed ⊢
                rcases hcases with ⟨e, rfl, hunsaved⟩ | ⟨rfl, hoffsets, hpending⟩
                · exact ⟨_, x, rfl, .inl ⟨e, rfl, hpassed.trans hunsaved⟩⟩
                · refine ⟨_, x, rfl, .inr (.inr ⟨last, hlast, rfl, ?_, ?_⟩)⟩
                  · rw [hoffsets, hpassed.offsets]
                  · rw [hpending, hpassed.pending, hsum]
              · exact ⟨_, w, rfl, .inl ⟨e, rfl, hpassed⟩⟩

theorem count_skip (context : Context) (n : Nat) (pending : Pending) (s : Series) :
    ((skip context)^[n] pending).count s =
      pending.count s + if s = ⟨"process.skipped", context⟩ then Int64.ofNat n else 0 := by
  induction n with
  | zero => simp
  | succ n ih =>
      rw [Function.iterate_succ_apply', skip, Pending.count_increment, ih, Int64.add_assoc]
      split
      · rw [Int64.ofNat_add]
        rfl
      · rw [Int64.add_zero]

end Trial

/-- How far a course of turns has come. -/
structure Course where
  state : State
  /-- The messages of the calls that succeeded. -/
  committed : List Message := []
  /-- The messages that were taken care of by calls that failed then. -/
  abandoned : List Message := []

namespace Course

/-- A call of the processor for a partition, or anything that befalls the storage and the bus in
between. -/
inductive Turn where
  | call (partition : Nat) (outages : List (Option Error))
    (evictions : List (List (Nat × Entity)))
  | meanwhile (storage : Storage) (bus : Bus)

def step (context : Context) (p : Processor) (c : Course) : Turn → Course
  | .meanwhile storage bus => { c with state := { c.state with storage, bus } }
  | .call partition outages evictions =>
    let u : Trial := ⟨c.state, outages, evictions⟩
    let taken := u.taken context p partition
    match (p.processOnce partition).run (Trial.answer context) u with
    | (.ok _, v) => { c with state := v.state, committed := c.committed ++ taken }
    | (.error _, v) => { c with state := v.state, abandoned := c.abandoned ++ taken }

/-- The counters of the processor tell what its calls have gone through since the start. -/
structure Tallied (context : Context) (start : Pending) (c : Course) : Prop where
  count : c.state.pending.count ⟨"process.count", context⟩ =
    start.count ⟨"process.count", context⟩ + Int64.ofNat (values c.committed)
  skipped : c.state.pending.count ⟨"process.skipped", context⟩ =
    start.count ⟨"process.skipped", context⟩ +
      Int64.ofNat (undecodable c.committed + undecodable c.abandoned)

theorem Tallied.step {start : Pending} {c : Course} (h : Tallied context start c)
    (p : Processor) (turn : Turn) : Tallied context start (c.step context p turn) := by
  have hnames : (⟨"process.count", context⟩ : Series) ≠ ⟨"process.skipped", context⟩ := by simp
  cases turn with
  | meanwhile storage bus => exact ⟨h.count, h.skipped⟩
  | call partition outages evictions =>
      obtain ⟨outcome, v, hrun, hcases⟩ :=
        Trial.processOnce_run ⟨c.state, outages, evictions⟩ context p partition
      simp only [Course.step, hrun]
      generalize Trial.taken ⟨c.state, outages, evictions⟩ context p partition = taken at hcases
      rcases hcases with ⟨e, rfl, hpasses⟩ | ⟨rfl, rfl, hpasses⟩ | ⟨last, -, rfl, -, hpending⟩
      · constructor
        · simp only [hpasses.pending, Trial.count_skip, if_neg hnames, Int64.add_zero, h.count]
        · simp only [hpasses.pending, Trial.count_skip, if_true, h.skipped, undecodable_append,
            Int64.add_assoc, ← Int64.ofNat_add, Nat.add_assoc]
      · have hsame : v.state.pending = c.state.pending := hpasses.pending
        constructor
        · simpa only [List.append_nil, hsame] using h.count
        · simpa only [List.append_nil, hsame] using h.skipped
      · constructor
        · simp only [hpending, Pending.count_gauge, Pending.count_increment, if_true,
            Trial.count_skip, if_neg hnames, Int64.add_zero, h.count, values_append,
            Int64.ofNat_add, Int64.add_assoc]
        · simp only [hpending, Pending.count_gauge, Pending.count_increment, if_neg hnames.symm,
            Trial.count_skip, if_true, Int64.add_zero, h.skipped, undecodable_append,
            Int64.add_assoc, ← Int64.ofNat_add, Nat.add_assoc, Nat.add_comm]

theorem tallied_course (context : Context) (p : Processor) (state : State) (turns : List Turn) :
    Tallied context state.pending (turns.foldl (step context p) { state }) := by
  have hstart : Tallied context state.pending { state } :=
    ⟨(Int64.add_zero _).symm, (Int64.add_zero _).symm⟩
  generalize ({ state } : Course) = c at hstart
  induction turns generalizing c with
  | nil => exact hstart
  | cons turn turns ih => exact ih _ (hstart.step p turn)

end Course

/-- Over any course of calls the values of the messages that were committed are counted once.
Messages that were passed over are counted when they were committed and each time a call got
past them and then failed. A call that fails, wherever it does, leaves the offsets, its own and
the saved ones, and all recorded metrics as they were, but for the count of the messages that it
has passed over. -/
theorem attempts_recorded (context : Context) (p : Processor) (state : State)
    (turns : List Course.Turn) :
    let c := turns.foldl (Course.step context p) { state }
    let gained (name : String) (n : Nat) : Prop := c.state.pending.count ⟨name, context⟩ =
      state.pending.count ⟨name, context⟩ + Int64.ofNat n
    gained "process.count" (values c.committed) ∧
      gained "process.skipped" (undecodable c.committed + undecodable c.abandoned) ∧
      ∀ partition outages evictions,
        let u : Trial := ⟨c.state, outages, evictions⟩
        let met := (p.processOnce partition).run (Trial.answer context) u
        let taken := u.taken context p partition
        taken <+: waiting p partition c.state ∧
          ((∃ e, met.1 = .error e) →
            met.2.state.offsets = c.state.offsets ∧
              (∀ partition, p.saved? met.2.state partition = p.saved? c.state partition) ∧
              met.2.state.pending = (Trial.skip context)^[undecodable taken] c.state.pending) := by
  intro c gained
  have htallied := Course.tallied_course context p state turns
  refine ⟨htallied.count, htallied.skipped, fun partition outages evictions => ?_⟩
  intro u met taken
  refine ⟨u.taken_prefix context p partition, ?_⟩
  rintro ⟨e, herror⟩
  obtain ⟨outcome, v, hrun, hcases⟩ := u.processOnce_run context p partition
  have hmet : met = (outcome, v) := hrun
  rw [hmet] at herror ⊢
  rcases hcases with ⟨e', -, hpasses⟩ | ⟨rfl, -, -⟩ | ⟨last, -, rfl, -, -⟩
  · refine ⟨hpasses.offsets, fun other => ?_, hpasses.pending⟩
    simp only [Processor.saved?, ProgressTable.held?, hpasses.saved]
    rfl
  · cases herror
  · cases herror

def mixedState : State where
  storage := { catalog := ((Datasets.usual {}).setUp {}).2 }
  bus := { topics := .singleton (sampleProcessor.config.topic 0) [[0], samplePayload] }

def mixedOutages : List (Option Error) := [none, some (.storageUnavailable "out of reach")]

/-- A call passes the first message over and fails to write the second one. The next call
commits both, and the one that was passed over has been counted twice. -/
theorem skipped_again :
    let failed := (sampleProcessor.processOnce 0).run (Trial.answer .root)
      ⟨mixedState, mixedOutages, []⟩
    let c := [Course.Turn.call 0 mixedOutages [], .call 0 [] []].foldl
      (Course.step .root sampleProcessor) { state := mixedState }
    failed.2.state.offsets = mixedState.offsets ∧
      failed.2.state.pending = Trial.skip .root mixedState.pending ∧
      c.committed.length = 2 ∧ undecodable c.committed = 1 ∧ values c.committed = 1 ∧
      c.state.pending.count ⟨"process.count", Context.root⟩ = 1 ∧
      c.state.pending.count ⟨"process.skipped", Context.root⟩ = 2 := by
  intro failed c
  have hfails : ∃ e, failed.1 = .error e := by
    have hbad : failed.1.isOk = false := by decide +kernel
    cases h : failed.1 with
    | ok n =>
        rw [h] at hbad
        cases hbad
    | error e => exact ⟨e, rfl⟩
  have hpassed : undecodable (Trial.taken ⟨mixedState, mixedOutages, []⟩ .root sampleProcessor 0) =
      1 := by decide +kernel
  have hcourse : c.committed.length = 2 ∧ undecodable c.committed = 1 ∧
      values c.committed = 1 ∧ undecodable c.abandoned = 1 := by decide +kernel
  obtain ⟨hlength, hundecodable, hvalues, habandoned⟩ := hcourse
  have hnothing (name : String) : mixedState.pending.count ⟨name, Context.root⟩ = 0 := rfl
  have hone : (0 : Int64) + Int64.ofNat 1 = 1 := rfl
  have htwo : (0 : Int64) + Int64.ofNat (1 + 1) = 2 := rfl
  obtain ⟨-, -, hfailed⟩ := attempts_recorded .root sampleProcessor mixedState []
  dsimp only [List.foldl_nil] at hfailed
  obtain ⟨-, hkept⟩ := hfailed 0 mixedOutages []
  obtain ⟨hoffsets, -, hpending⟩ := hkept hfails
  rw [hpassed] at hpending
  obtain ⟨hcount, hskipped, -⟩ := attempts_recorded .root sampleProcessor mixedState
    [.call 0 mixedOutages [], .call 0 [] []]
  rw [hvalues, hnothing, hone] at hcount
  rw [hundecodable, habandoned, hnothing, htwo] at hskipped
  dsimp only [failed, c] at hlength hundecodable hvalues ⊢
  exact ⟨hoffsets, hpending, hlength, hundecodable, hvalues, hcount, hskipped⟩

end Ingestion

end Rollup
