import Rollup.Proofs.Ingestion.Journal

namespace Rollup

namespace Bus

theorem mem_messagesFrom {start : Nat} {log : List Bytes} {message : Message} :
    message ∈ messagesFrom start log ↔
      start ≤ message.offset ∧ log[message.offset - start]? = some message.payload := by
  induction log generalizing start with
  | nil => simp [messagesFrom]
  | cons payload log ih =>
      rw [messagesFrom, List.mem_cons, ih]
      constructor
      · rintro (rfl | ⟨hle, hpayload⟩)
        · simp
        · refine ⟨by omega, ?_⟩
          rwa [show message.offset - start = message.offset - (start + 1) + 1 by omega,
            List.getElem?_cons_succ]
      · rintro ⟨hle, hpayload⟩
        rcases Nat.eq_or_lt_of_le hle with rfl | hlt
        · rw [Nat.sub_self, List.getElem?_cons_zero, Option.some.injEq] at hpayload
          left
          rw [hpayload]
        · right
          refine ⟨hlt, ?_⟩
          rwa [show message.offset - start = message.offset - (start + 1) + 1 by omega,
            List.getElem?_cons_succ] at hpayload

theorem getLast?_messagesFrom {start : Nat} {log : List Bytes} {last : Message}
    (h : (messagesFrom start log).getLast? = some last) : last.offset + 1 = start + log.length := by
  induction log generalizing start with
  | nil => cases h
  | cons payload log ih =>
      cases log with
      | nil =>
          cases h
          rfl
      | cons payload' log =>
          rw [messagesFrom, messagesFrom, List.getLast?_cons_cons, ← messagesFrom] at h
          have hlast := ih h
          simp only [List.length_cons] at hlast ⊢
          omega

theorem messagesFrom_take (n start : Nat) (log : List Bytes) :
    messagesFrom start (log.take n) = (messagesFrom start log).take n := by
  induction log generalizing n start with
  | nil => simp [messagesFrom]
  | cons payload log ih =>
      cases n with
      | zero => rfl
      | succ n => rw [List.take_succ_cons, messagesFrom, ih, messagesFrom, List.take_succ_cons]

theorem messagesFrom_drop (n start : Nat) (log : List Bytes) :
    messagesFrom (start + n) (log.drop n) = (messagesFrom start log).drop n := by
  induction log generalizing n start with
  | nil => simp [messagesFrom]
  | cons payload log ih =>
      cases n with
      | zero => rfl
      | succ n =>
          rw [List.drop_succ_cons, messagesFrom, List.drop_succ_cons, ← ih, Nat.add_right_comm,
            Nat.add_assoc]

structure Fetched (bus : Bus) (t : Topic) (after : Option Nat) (limit : Nat)
    (messages : List Message) (last : Nat) : Prop where
  log : ∃ log, bus.log t = .ok log ∧ last < log.length ∧
    messages = (messagesFrom 0 (log.take (last + 1))).drop (next after) ∧
    ∀ offset, offset < log.length → offset < next after + limit → offset ≤ last
  next_le : next after ≤ last
  lt : last < next after + limit

theorem of_fetch_ok {bus : Bus} {t : Topic} {after : Option Nat} {limit : Nat}
    {messages : List Message} (h : bus.fetch t after limit = .ok messages) :
    ∃ log, bus.log t = .ok log ∧
      messages = messagesFrom (next after) ((log.drop (next after)).take limit) := by
  simp only [fetch] at h
  cases hlog : bus.log t with
  | error e =>
      rw [hlog] at h
      cases h
  | ok log =>
      rw [hlog] at h
      exact ⟨log, rfl, (Except.ok.inj h).symm⟩

theorem fetched_of_fetch {bus : Bus} {t : Topic} {after : Option Nat} {limit : Nat}
    {messages : List Message} {last : Message} (h : bus.fetch t after limit = .ok messages)
    (hlast : messages.getLast? = some last) :
    bus.Fetched t after limit messages last.offset := by
  obtain ⟨log, hlog, rfl⟩ := of_fetch_ok h
  have hend := getLast?_messagesFrom hlast
  have hfirst := (mem_messagesFrom.mp (List.mem_of_getLast? hlast)).1
  rw [List.length_take, List.length_drop] at hend
  refine ⟨⟨log, hlog, by omega, ?_, by omega⟩, hfirst, by omega⟩
  rw [← messagesFrom_drop, Nat.zero_add, List.drop_take]
  congr 1
  rw [List.take_eq_take_iff, List.length_drop]
  omega

end Bus

namespace Ingestion

open Storage Entity

variable {p : Processor} {entities : EntityTable} {served : List Nat} {x y z : Journaled}
  {partition : Nat} {messages : List Message} {last : Nat} {call : Option Nat}

/-- A batch of a partition up to a last offset, while the call that has fetched it is at
work. Its first message is the next one of the processor, and it reaches up to the saved
offset at least. -/
structure Drawn (p : Processor) (partition : Nat) (messages : List Message) (last : Nat)
    (y : Journaled) : Prop where
  log : ∃ log, y.state.bus.log (p.config.topic partition) = .ok log ∧ last < log.length ∧
    messages =
      (Bus.messagesFrom 0 (log.take (last + 1))).drop (Bus.next (y.state.offsets.get? partition))
  next_le : Bus.next (y.state.offsets.get? partition) ≤ last
  lt : last < Bus.next (y.state.offsets.get? partition) + p.config.fetchLimit
  saved : ∀ offset, p.saved? y.state partition = some offset → offset ≤ last

theorem drawn_of_fetched (hy : Kept p entities served y) (hserved : partition ∈ served)
    (h : y.state.bus.Fetched (p.config.topic partition)
      (y.state.offsets.get? partition) p.config.fetchLimit messages last) :
    Drawn p partition messages last y := by
  obtain ⟨log, hlog, hlast, hmessages, hreach⟩ := h.log
  refine ⟨⟨log, hlog, hlast, hmessages⟩, h.next_le, h.lt, ?_⟩
  intro offset hsaved
  obtain ⟨log', hlog', hlt⟩ := hy.held partition offset hsaved
  obtain rfl : log = log' := Except.ok.inj (hlog.symm.trans hlog')
  exact hreach offset hlt (hy.near partition hserved offset hsaved)

theorem Drawn.mono (h : Drawn p partition messages last y) (hgrown : Grown p y z)
    (hsame : Same p partition y z) :
    Drawn p partition messages last z := by
  obtain ⟨log, hlog, hlast, hmessages⟩ := h.log
  obtain ⟨more, hmore⟩ := hgrown.logs _ log hlog
  obtain ⟨hsaved, hoffset⟩ := hsame
  refine ⟨⟨_, hmore, by rw [List.length_append]; omega, ?_⟩, ?_, ?_, ?_⟩
  · rw [hoffset, List.take_append_of_le_length hlast, hmessages]
  · rw [hoffset]
    exact h.next_le
  · rw [hoffset]
    exact h.lt
  · rw [hsaved]
    exact h.saved

theorem Drawn.holds (h : Drawn p partition messages last y) {message : Message}
    (hmem : message ∈ messages) : y.state.bus.Holds (p.config.topic partition) message := by
  obtain ⟨log, hlog, -, rfl⟩ := h.log
  obtain ⟨-, hpayload⟩ := Bus.mem_messagesFrom.mp (List.mem_of_mem_drop hmem)
  refine ⟨log, hlog, ?_⟩
  rw [Nat.sub_zero, List.getElem?_take] at hpayload
  split at hpayload
  · exact hpayload
  · cases hpayload

theorem Kept.next_le (h : Kept p entities served x) (partition : Nat) :
    Bus.next (x.state.offsets.get? partition) ≤ Bus.next (p.saved? x.state partition) := by
  cases hafter : x.state.offsets.get? partition with
  | none => exact Nat.zero_le _
  | some after =>
      obtain ⟨saved, hsaved, hle⟩ := h.behind partition after hafter
      rw [hsaved]
      exact Nat.succ_le_succ hle

theorem Drawn.sublist (h : Drawn p partition messages last y)
    (hnext : Bus.next (y.state.offsets.get? partition) ≤ Bus.next (p.saved? y.state partition))
    {log : List Bytes} (hlog : y.state.bus.log (p.config.topic partition) = .ok log) :
    (Bus.messagesFrom 0 (log.take (last + 1))).Sublist
      (p.settled y.state partition ++ messages) := by
  obtain ⟨log', hlog', -, rfl⟩ := h.log
  obtain rfl : log = log' := Except.ok.inj (hlog.symm.trans hlog')
  have hreach : Bus.next (p.saved? y.state partition) ≤ last + 1 := by
    cases hsaved : p.saved? y.state partition with
    | none => exact Nat.zero_le _
    | some offset => exact Nat.succ_le_succ (h.saved offset hsaved)
  have hsettled : p.settled y.state partition = (Bus.messagesFrom 0 (log.take (last + 1))).take
      (Bus.next (p.saved? y.state partition)) := by
    simp only [Processor.settled, hlog]
    rw [← Bus.messagesFrom_take, List.take_take, Nat.min_eq_left hreach]
  conv_lhs => rw [← List.take_append_drop (Bus.next (p.saved? y.state partition))
    (Bus.messagesFrom 0 (log.take (last + 1)))]
  rw [hsettled]
  exact (List.Sublist.refl _).append (List.drop_sublist_drop_left _ hnext)

theorem saved_injective {partition' : Nat} (h : p.saved partition = p.saved partition') :
    partition = partition' :=
  congrArg Partition.number h

def Journaled.saving (p : Processor) (x : Journaled) (call : Option Nat) (partition : Nat)
    (progress : Progress) : Journaled :=
  x.next call { x.state with
    storage := p.progress.keeping x.state.storage (p.saved partition) progress }

theorem saved?_saving {progress : Progress} (h : progress.offset ≤ Progress.maxOffset)
    (partition' : Nat) : p.saved? (x.saving p call partition progress).state partition' =
      if partition' = partition then some progress.offset else p.saved? x.state partition' := by
  simp only [Journaled.saving, Journaled.next, Processor.saved?,
    ProgressTable.held?_keeping _ _ _ h]
  by_cases heq : partition' = partition
  · subst heq
    simp
  · rw [if_neg heq, if_neg fun h => heq (saved_injective h)]

theorem grown_saving {progress : Progress} (h : progress.offset ≤ Progress.maxOffset)
    (hsaved : ∀ offset, p.saved? x.state partition = some offset → offset ≤ progress.offset) :
    Grown p x (x.saving p call partition progress) := by
  refine ⟨?_, List.sublist_append_left .., ?_, ?_⟩
  · exact .refl _
  · intro id row cell hcell
    simp only [Journaled.saving, Journaled.next, ProgressTable.keeping, contents_update]
    split
    · next heq =>
      subst heq
      rw [Table.cell?_setCell, if_neg fun h => absurd h.2 (by decide)]
      exact hcell
    · exact hcell
  · intro partition' offset hoffset
    rw [saved?_saving h]
    split
    · next heq =>
      subst heq
      exact ⟨_, rfl, hsaved offset hoffset⟩
    · exact ⟨offset, hoffset, Nat.le_refl _⟩

theorem Kept.saving (h : Kept p entities served x) {progress : Progress}
    (hdrawn : Drawn p partition messages progress.offset x)
    (hentered : p.Entered ((p.settled x.state partition ++ messages).flatMap
      (Occurrence.all partition)) x.journal)
    (hmax : progress.offset ≤ Progress.maxOffset) :
    Kept p entities served (x.saving p call partition progress) ∧
      Grown p x (x.saving p call partition progress) ∧
      ∀ partition', partition' ≠ partition →
        Same p partition' x (x.saving p call partition progress) := by
  have hgrown : Grown p x (x.saving p call partition progress) := grown_saving hmax hdrawn.saved
  have hsaved : ∀ partition', p.saved? (x.saving p call partition progress).state partition' =
      if partition' = partition then some progress.offset else p.saved? x.state partition' :=
    saved?_saving hmax
  refine ⟨⟨?_, ?_, ?_, ?_, ?_⟩, hgrown, ?_⟩
  · exact fun e id hmemory => hgrown.numberedAs (h.remembered e id hmemory)
  · intro partition' offset hoffset
    rw [hsaved] at hoffset
    split at hoffset
    · next heq =>
      subst heq
      cases hoffset
      obtain ⟨log, hlog, hlt, -⟩ := hdrawn.log
      exact ⟨log, hlog, hlt⟩
    · exact h.held partition' offset hoffset
  · intro partition'
    by_cases heq : partition' = partition
    · subst heq
      obtain ⟨log, hlog, -, -⟩ := hdrawn.log
      have hsettled : p.settled (x.saving p call partition' progress).state partition' =
          Bus.messagesFrom 0 (log.take (progress.offset + 1)) := by
        have hlog' : (x.saving p call partition' progress).state.bus.log
            (p.config.topic partition') = .ok log := hlog
        simp only [Processor.settled, hlog', hsaved, if_true, Bus.next]
      rw [hsettled]
      exact (hentered.of_sublist
        ((hdrawn.sublist (h.next_le partition') hlog).flatMap _)).mono hgrown.journal
    · have hsame := hsaved partition'
      rw [if_neg heq] at hsame
      rw [settled_of_same (h.held partition') hgrown.logs hsame]
      exact (h.taken partition').mono hgrown.journal
  · intro partition' offset hoffset
    obtain ⟨saved, hsaved', hle⟩ := h.behind partition' offset hoffset
    obtain ⟨saved', hsaved'', hle'⟩ := hgrown.saved partition' saved hsaved'
    exact ⟨saved', hsaved'', Nat.le_trans hle hle'⟩
  · intro partition' hserved offset hoffset
    rw [hsaved] at hoffset
    split at hoffset
    · next heq =>
      subst heq
      cases hoffset
      exact hdrawn.lt
    · exact h.near partition' hserved offset hoffset
  · intro partition' hne
    exact ⟨by rw [hsaved, if_neg hne], rfl⟩

def Journaled.committing (x : Journaled) (call : Option Nat) (partition offset : Nat) :
    Journaled :=
  x.next call { x.state with offsets := x.state.offsets.insert partition offset }

theorem Kept.committing (h : Kept p entities served x) {offset : Nat}
    (hsaved : p.saved? x.state partition = some offset) :
    Kept p entities served (x.committing call partition offset) ∧
      Grown p x (x.committing call partition offset) ∧
      ∀ partition', partition' ≠ partition →
        Same p partition' x (x.committing call partition offset) := by
  have hgrown : Grown p x (x.committing call partition offset) :=
    ⟨.refl _, List.sublist_append_left ..,
      fun _ _ _ hcell => hcell, fun _ offset hoffset => ⟨offset, hoffset, Nat.le_refl _⟩⟩
  have hoffsets : ∀ partition', (x.committing call partition offset).state.offsets.get? partition' =
      if partition' = partition then some offset else x.state.offsets.get? partition' := by
    intro partition'
    simp only [Journaled.committing, Journaled.next, SortedMap.get?_insert]
  refine ⟨⟨h.remembered, h.held, fun partition' => (h.taken partition').mono hgrown.journal, ?_,
    ?_⟩, hgrown, ?_⟩
  · intro partition' offset' hoffset
    rw [hoffsets] at hoffset
    split at hoffset
    · next heq =>
      subst heq
      cases hoffset
      exact ⟨offset, hsaved, Nat.le_refl _⟩
    · exact h.behind partition' offset' hoffset
  · intro partition' hserved offset' hsaved'
    rw [hoffsets]
    split
    · next heq =>
      subst heq
      obtain rfl : offset = offset' := Option.some.inj (hsaved.symm.trans hsaved')
      simp only [Bus.next]
      omega
    · exact h.near partition' hserved offset' hsaved'
  · intro partition' hne
    exact ⟨rfl, by rw [hoffsets, if_neg hne]⟩

end Ingestion

end Rollup
