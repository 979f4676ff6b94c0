import Mathlib.Data.List.NodupEquivFin
import Rollup.Proofs.Ingestion.Calls
import Rollup.Proofs.Opening

namespace Rollup.Ingestion

open Storage Entity Program

/-- A processor at work: what is left of taking up the offsets, and of the calls that
process a partition. -/
structure Crew where
  worker : String
  partitions : List Nat
  context : Context
  restore : Work Unit
  calls : Nat → Option (Work Nat) := fun _ => none

namespace Crew

def processor (crew : Crew) (p : Processor) : Processor :=
  { p with worker := crew.worker, partitions := crew.partitions, context := crew.context }

def restored (crew : Crew) : Bool :=
  match crew.restore with
  | .result (.ok _) => true
  | _ => false

def busy (crew : Crew) (partition : Nat) : Bool :=
  match crew.calls partition with
  | some (.call ..) => true
  | _ => false

def setCall (crew : Crew) (partition : Nat) (call : Option (Work Nat)) : Crew :=
  { crew with calls := fun other => if other = partition then call else crew.calls other }

end Crew

structure World where
  entered : Journaled
  crew : Option Crew := none

namespace World

def start (storage : Storage) (bus : Bus) (pending : Pending) : World :=
  ⟨⟨{ storage, bus, pending }, []⟩, none⟩

def state (w : World) : State := w.entered.state

end World

inductive Event where
  | publish (topic : Topic) (payload : Bytes)
  /-- A memory of numbers drops one. -/
  | forget (cache : Nat) (e : Entity)
  /-- Another processor begins to take up the saved offsets. The one before is gone, with
  its own offsets and whatever it was at. -/
  | replace (worker : String) (partitions : List Nat) (context : Context)
  | restore (how : Treatment)
  /-- A processor that has taken up the offsets begins a call on one of its partitions. -/
  | process (partition : Nat)
  | proceed (partition : Nat) (how : Treatment)
  | abandon (partition : Nat)

/-- One event; an event that cannot happen changes nothing. Processors differ in their
names, their partitions and the tags of their own metrics. -/
def step (p : Processor) (w : World) : Event → World
  | .publish topic payload =>
      match w.state.bus.publish topic payload with
      | .ok (_, bus) => { w with entered.state := { w.state with bus } }
      | .error _ => w
  | .forget cache e =>
      { w with entered.state := { w.state with storage := w.state.storage.forgotten cache e } }
  | .replace worker partitions context =>
      let crew : Crew := { worker, partitions, context, restore := .result (.ok ()) }
      ⟨{ w.entered with state := { w.state with offsets := .empty } },
        some { crew with restore := (crew.processor p).restore }⟩
  | .restore how =>
      match w.crew with
      | some crew =>
          let next := crew.restore.advance (enter crew.context none) fallible how w.entered
          ⟨next.2, some { crew with restore := next.1 }⟩
      | none => w
  | .process partition =>
      match w.crew with
      | some crew =>
          if crew.restored && crew.partitions.contains partition && !crew.busy partition then
            { w with crew := crew.setCall partition ((crew.processor p).processOnce partition) }
          else w
      | none => w
  | .proceed partition how =>
      match w.crew with
      | some crew =>
          match crew.calls partition with
          | some rest =>
              let next := rest.advance (enter crew.context (some partition)) fallible how w.entered
              ⟨next.2, crew.setCall partition next.1⟩
          | none => w
      | none => w
  | .abandon partition =>
      match w.crew with
      | some crew => { w with crew := crew.setCall partition none }
      | none => w

def run (p : Processor) (w : World) (events : List Event) : World := events.foldl (step p) w

/-- The work of a processor is safe: either it still has to take up the saved offsets, or
it processes partitions whose offsets are near the saved ones. -/
inductive Sound (p : Processor) (entities : EntityTable) : World → Prop where
  | down {x : Journaled} (hkept : Kept p entities [] x) : Sound p entities ⟨x, none⟩
  | restoring {x : Journaled} {crew : Crew} (hkept : Kept p entities [] x)
      (hcalls : ∀ partition, crew.calls partition = none) (hrestored : crew.restored = false)
      (hsafe : crew.restore.Safe (restoring p entities).discipline (enter crew.context none) fallible
        (some ()) (fun outcome y => ∀ a, outcome = .ok a →
          ∀ partition ∈ crew.partitions, Level p y.1 partition) (x, ())) :
      Sound p entities ⟨x, some crew⟩
  | serving {x : Journaled} {crew : Crew} (hkept : Kept p entities crew.partitions x)
      (hrestore : crew.restore = .result (.ok ()))
      (hsafe : ∀ partition rest, crew.calls partition = some rest →
        rest.Safe (serving p entities crew.partitions).discipline
          (enter crew.context (some partition)) fallible (some partition) (fun _ _ => True) (x, ())) :
      Sound p entities ⟨x, some crew⟩

variable {p : Processor} {entities : EntityTable} {x y : Journaled} {crew : Crew} {w : World}
  {partition : Nat}

theorem Kept.unserved {served : List Nat} (h : Kept p entities served x) :
    Kept p entities [] x :=
  ⟨h.remembered, h.held, h.taken, h.behind, fun _ hmem => nomatch hmem⟩

theorem Sound.kept (h : Sound p entities w) : Kept p entities [] w.entered := by
  cases h with
  | down hkept => exact hkept
  | restoring hkept _ _ _ => exact hkept
  | serving hkept _ _ => exact hkept.unserved

theorem sound_of_restore (hkept : Kept p entities [] x)
    (hcalls : ∀ partition, crew.calls partition = none)
    (hsafe : crew.restore.Safe (restoring p entities).discipline (enter crew.context none) fallible
      (some ()) (fun outcome y => ∀ a, outcome = .ok a →
        ∀ partition ∈ crew.partitions, Level p y.1 partition) (x, ())) :
    Sound p entities ⟨x, some crew⟩ := by
  cases hrestored : crew.restored with
  | false => exact .restoring hkept hcalls hrestored hsafe
  | true =>
      have hrestore : crew.restore = .result (.ok ()) := by
        simp only [Crew.restored] at hrestored
        split at hrestored
        · next heq => exact heq
        · cases hrestored
      rw [hrestore] at hsafe
      have hlevel := hsafe (x, ()) ((restoring p entities).discipline.refl _ _) hkept () rfl
      refine .serving ⟨hkept.remembered, hkept.held, hkept.taken, hkept.behind, ?_⟩ hrestore ?_
      · intro partition hserved offset hsaved
        rw [hlevel partition hserved offset hsaved]
        simp only [Bus.next]
        omega
      · intro partition rest hcall
        rw [hcalls] at hcall
        cases hcall

theorem Sound.calm {crew : Option Crew} (h : Sound p entities ⟨x, crew⟩)
    (hcalm : Calm p entities x y) : Sound p entities ⟨y, crew⟩ := by
  cases h with
  | down hkept => exact .down (hkept.calm hcalm)
  | restoring hkept hcalls hrestored hsafe =>
      exact .restoring (hkept.calm hcalm) hcalls hrestored
        (safe_of_rely hsafe (Setting.rely_of_calm hcalm _))
  | serving hkept hrestore hsafe =>
      exact .serving (hkept.calm hcalm) hrestore fun partition rest hcall =>
        safe_of_rely (hsafe partition rest hcall) (Setting.rely_of_calm hcalm _)

theorem extends_of_publish {bus bus' : Bus} {t : Topic} {payload : Bytes} {offset : Nat}
    (h : bus.publish t payload = .ok (offset, bus')) : bus.Extends bus' := by
  intro t' log hlog
  simp only [Bus.publish] at h
  cases hold : bus.log t with
  | error e =>
      rw [hold] at h
      cases h
  | ok old =>
      rw [hold] at h
      cases h
      by_cases heq : t' = t
      · subst heq
        obtain rfl : old = log := Except.ok.inj (hold.symm.trans hlog)
        exact ⟨[payload], by simp [Bus.log, SortedMap.get?_insert]⟩
      · refine ⟨[], ?_⟩
        rw [List.append_nil, ← hlog]
        simp [Bus.log, SortedMap.get?_insert, heq]

theorem calm_publish {bus : Bus} {t : Topic} {payload : Bytes} {offset : Nat}
    (h : x.state.bus.publish t payload = .ok (offset, bus)) :
    Calm p entities x { x with state := { x.state with bus } } :=
  ⟨⟨extends_of_publish h, List.Sublist.refl _, fun _ _ _ hcell => hcell,
    fun _ offset hsaved => ⟨offset, hsaved, Nat.le_refl _⟩⟩, fun _ => ⟨rfl, rfl⟩,
    fun _ _ hmemory => .inl hmemory⟩

theorem calm_forget (cache : Nat) (e : Entity) : Calm p entities x
    { x with state := { x.state with storage := x.state.storage.forgotten cache e } } :=
  ⟨⟨.refl _, List.Sublist.refl _,
    fun _ _ _ hcell => hcell, fun _ offset hsaved => ⟨offset, hsaved, Nat.le_refl _⟩⟩,
    fun _ => ⟨rfl, rfl⟩, fun _ _ hmemory => .inl (memory_of_forgotten hmemory)⟩

theorem Sound.replace (h : Sound p entities w) (worker : String) (partitions : List Nat)
    (context : Context) :
    Sound p entities (step p w (.replace worker partitions context)) ∧
      Grown p w.entered (step p w (.replace worker partitions context)).entered := by
  have hgrown : Grown p w.entered (step p w (.replace worker partitions context)).entered :=
    ⟨.refl _, List.Sublist.refl _,
      fun _ _ _ hcell => hcell, fun _ offset hsaved => ⟨offset, hsaved, Nat.le_refl _⟩⟩
  refine ⟨sound_of_restore ⟨h.kept.remembered, h.kept.held, h.kept.taken, ?_, ?_⟩
    (fun _ => rfl) ?_, hgrown⟩
  · intro partition offset hoffset
    cases hoffset
  · intro partition hmem
    cases hmem
  · exact safe_restoreAll worker partitions context partitions [] _ nofun

theorem Sound.restore (h : Sound p entities w) (how : Treatment)
    (hbounded : (step p w (.restore how)).state.bus.Bounded) :
    Sound p entities (step p w (.restore how)) ∧
      Grown p w.entered (step p w (.restore how)).entered := by
  cases h with
  | down hkept => exact ⟨.down hkept, .refl _ _⟩
  | restoring hkept hcalls hrestored hsafe =>
      obtain ⟨_, hkept', hothers, hrest⟩ := safe_advance hsafe hkept how hbounded
      exact ⟨sound_of_restore hkept' hcalls hrest, (hothers none nofun).1⟩
  | serving hkept hrestore hsafe =>
      simp only [step, hrestore, advance]
      exact ⟨.serving hkept rfl hsafe, .refl _ _⟩

theorem Sound.process (h : Sound p entities w) (partition : Nat)
    (hstore : ∀ r, (p.store.table r).current.entities = entities) :
    Sound p entities (step p w (.process partition)) ∧
      Grown p w.entered (step p w (.process partition)).entered := by
  cases h with
  | down hkept => exact ⟨.down hkept, .refl _ _⟩
  | restoring hkept hcalls hrestored hsafe =>
      simp only [step, hrestored, Bool.false_and, Bool.false_eq_true, if_false]
      exact ⟨.restoring hkept hcalls hrestored hsafe, .refl _ _⟩
  | serving hkept hrestore hsafe =>
      simp only [step]
      split
      · next hmay =>
        simp only [Bool.and_eq_true, List.contains_iff_mem] at hmay
        refine ⟨.serving hkept hrestore ?_, .refl _ _⟩
        intro partition' rest hrest
        simp only [Crew.setCall] at hrest
        split at hrest
        · next heq =>
          subst heq
          cases hrest
          exact safe_processOnce hstore hmay.1.2 _ _ _ _
        · exact hsafe partition' rest hrest
      · exact ⟨.serving hkept hrestore hsafe, .refl _ _⟩

theorem Sound.proceed (h : Sound p entities w) (partition : Nat) (how : Treatment)
    (hbounded : (step p w (.proceed partition how)).state.bus.Bounded) :
    Sound p entities (step p w (.proceed partition how)) ∧
      Grown p w.entered (step p w (.proceed partition how)).entered := by
  cases h with
  | down hkept => exact ⟨.down hkept, .refl _ _⟩
  | restoring hkept hcalls hrestored hsafe =>
      simp only [step, hcalls]
      exact ⟨.restoring hkept hcalls hrestored hsafe, .refl _ _⟩
  | serving hkept hrestore hsafe =>
      simp only [step] at hbounded ⊢
      split at hbounded
      · next rest hcall =>
        obtain ⟨_, hkept', hothers, hrest⟩ :=
          safe_advance (hsafe partition rest hcall) hkept how hbounded
        refine ⟨.serving hkept' hrestore ?_, (hothers none nofun).1⟩
        intro partition' rest' hcall'
        simp only [Crew.setCall] at hcall'
        split at hcall'
        · next heq =>
          subst heq
          cases hcall'
          exact hrest
        · next hne =>
          refine safe_of_rely (hsafe partition' rest' hcall') (hothers (some partition') ?_)
          exact fun heq => hne (Option.some.inj heq)
      · exact ⟨.serving hkept hrestore hsafe, .refl _ _⟩

theorem Sound.abandon (h : Sound p entities w) (partition : Nat) :
    Sound p entities (step p w (.abandon partition)) ∧
      Grown p w.entered (step p w (.abandon partition)).entered := by
  cases h with
  | down hkept => exact ⟨.down hkept, .refl _ _⟩
  | restoring hkept hcalls hrestored hsafe =>
      refine ⟨.restoring hkept ?_ hrestored hsafe, .refl _ _⟩
      intro partition'
      simp only [Crew.setCall, hcalls, ite_self]
  | serving hkept hrestore hsafe =>
      refine ⟨.serving hkept hrestore ?_, .refl _ _⟩
      intro partition' rest hrest
      simp only [Crew.setCall] at hrest
      split at hrest
      · cases hrest
      · exact hsafe partition' rest hrest

theorem sound_step (hstore : ∀ r, (p.store.table r).current.entities = entities)
    (h : Sound p entities w) (event : Event) (hbounded : (step p w event).state.bus.Bounded) :
    Sound p entities (step p w event) ∧ Grown p w.entered (step p w event).entered := by
  cases event with
  | publish topic payload =>
      simp only [step]
      split
      · next offset bus hpublish =>
        have hcalm : Calm p entities w.entered _ := calm_publish hpublish
        exact ⟨h.calm hcalm, hcalm.toGrown⟩
      · exact ⟨h, .refl _ _⟩
  | forget cache e =>
      have hcalm : Calm p entities w.entered _ := calm_forget cache e
      exact ⟨h.calm hcalm, hcalm.toGrown⟩
  | replace worker partitions context => exact h.replace worker partitions context
  | restore how => exact h.restore how hbounded
  | process partition => exact h.process partition hstore
  | proceed partition how => exact h.proceed partition how hbounded
  | abandon partition => exact h.abandon partition

theorem bus_answer (context : Context) (q : Request) (s : State) :
    (answer context q s).2.bus = s.bus := by
  cases q <;> rfl

theorem entered_advance {α : Type} (context : Context) (call : Option Nat) (rest : Work α)
    (how : Treatment) (x : Journaled) :
    (rest.advance (enter context call) fallible how x).2 = x ∨
      ∃ s, s.bus = x.state.bus ∧
        (rest.advance (enter context call) fallible how x).2 = x.next call s := by
  cases rest with
  | result outcome => exact .inl rfl
  | call q resume =>
      have henter : ∃ s, s.bus = x.state.bus ∧ (enter context call q x).2 = x.next call s :=
        ⟨_, bus_answer context q x.state, rfl⟩
      simp only [advance]
      rcases treat_cases (enter context call) fallible q x how with
        hmet | ⟨detail, hmet⟩ | ⟨detail, hmet⟩
      · rw [hmet]
        exact .inr henter
      · rw [hmet]
        exact .inr henter
      · rw [hmet]
        exact .inl rfl

def Event.call : Event → Option Nat
  | .proceed partition _ => some partition
  | _ => none

theorem history_step (p : Processor) (w : World) (event : Event) :
    w.state.bus.Extends (step p w event).state.bus ∧
    ((step p w event).entered.journal = w.entered.journal ∨
      (step p w event).entered.journal =
        w.entered.journal ++ [⟨event.call, w.state, (step p w event).state⟩]) := by
  have hadvance : ∀ {α : Type} (context : Context) (call : Option Nat) (rest : Work α)
      (how : Treatment), w.state.bus.Extends
        (rest.advance (enter context call) fallible how w.entered).2.state.bus ∧
      ((rest.advance (enter context call) fallible how w.entered).2.journal =
          w.entered.journal ∨
        (rest.advance (enter context call) fallible how w.entered).2.journal =
          w.entered.journal ++ [⟨call, w.state,
            (rest.advance (enter context call) fallible how w.entered).2.state⟩]) := by
    intro α context call rest how
    rcases entered_advance context call rest how w.entered with heq | ⟨s, hbus, heq⟩
    · rw [heq]
      exact ⟨.refl _, .inl rfl⟩
    · rw [heq]
      simp only [Journaled.next, hbus]
      exact ⟨.refl _, .inr rfl⟩
  cases event with
  | publish topic payload =>
      simp only [step]
      split
      · next offset bus hpublish => exact ⟨extends_of_publish hpublish, .inl rfl⟩
      · exact ⟨.refl _, .inl rfl⟩
  | forget cache e => exact ⟨.refl _, .inl rfl⟩
  | replace worker partitions context => exact ⟨.refl _, .inl rfl⟩
  | restore how =>
      simp only [step]
      split
      · exact hadvance _ none _ how
      · exact ⟨.refl _, .inl rfl⟩
  | process partition =>
      simp only [step]
      split
      · split <;> exact ⟨.refl _, .inl rfl⟩
      · exact ⟨.refl _, .inl rfl⟩
  | proceed partition how =>
      simp only [step]
      split
      · split
        · exact hadvance _ (some partition) _ how
        · exact ⟨.refl _, .inl rfl⟩
      · exact ⟨.refl _, .inl rfl⟩
  | abandon partition =>
      simp only [step]
      split <;> exact ⟨.refl _, .inl rfl⟩

theorem bounded_run {events : List Event} (h : (run p w events).state.bus.Bounded) :
    w.state.bus.Bounded := by
  induction events generalizing w with
  | nil => exact h
  | cons event events ih =>
      exact (history_step p w event).1.bounded (ih h)

theorem sound_run (hstore : ∀ r, (p.store.table r).current.entities = entities)
    (h : Sound p entities w) {events : List Event}
    (hbounded : (run p w events).state.bus.Bounded) :
    Sound p entities (run p w events) ∧ Grown p w.entered (run p w events).entered := by
  induction events generalizing w with
  | nil => exact ⟨h, .refl _ _⟩
  | cons event events ih =>
      obtain ⟨hstep, hgrown⟩ := sound_step hstore h event (bounded_run hbounded)
      obtain ⟨hrun, hgrown'⟩ := ih hstep hbounded
      exact ⟨hrun, hgrown.trans hgrown'⟩

def history (p : Processor) (w : World) : List Event → List Step
  | [] => []
  | event :: events =>
      ⟨event.call, w.state, (step p w event).state⟩ :: history p (step p w event) events

theorem journal_run (p : Processor) (w : World) (events : List Event) :
    (run p w events).entered.journal.Sublist (w.entered.journal ++ history p w events) := by
  induction events generalizing w with
  | nil => exact List.sublist_append_left ..
  | cons event events ih =>
      refine (ih (step p w event)).trans ?_
      rcases (history_step p w event).2 with heq | heq
      · rw [heq]
        exact (List.Sublist.refl _).append (List.sublist_cons_self ..)
      · rw [heq, List.append_assoc]
        exact .refl _

theorem exists_of_history {events : List Event} {n : Nat} {entry : Step}
    (h : (history p w events)[n]? = some entry) :
    ∃ earlier event later, events = earlier ++ event :: later ∧ earlier.length = n ∧
      entry = ⟨event.call, (run p w earlier).state, (run p w (earlier ++ [event])).state⟩ := by
  induction events generalizing w n with
  | nil => cases h
  | cons event events ih =>
      cases n with
      | zero => exact ⟨[], event, events, rfl, rfl, (Option.some.inj h).symm⟩
      | succ n =>
          obtain ⟨earlier, event', later, rfl, rfl, hentry⟩ := ih h
          exact ⟨event :: earlier, event', later, rfl, rfl, hentry⟩

/-- The steps that apply values can be told by their places. -/
theorem Processor.Entered.exists_embedding {os : List Occurrence} {journal : List Step}
    (h : p.Entered os journal) : ∃ f : Nat ↪o Nat, ∀ i o, os[i]? = some o →
      ∃ entry, journal[f i]? = some entry ∧ p.Enters o entry := by
  obtain ⟨entries, hentries, hsub⟩ := List.sublistForall₂_iff.mp h
  obtain ⟨f, hf⟩ := List.sublist_iff_exists_orderEmbedding_getElem?_eq.mp hsub
  refine ⟨f, fun i o ho => ?_⟩
  obtain ⟨hlt, rfl⟩ := List.getElem?_eq_some_iff.mp ho
  have hlt' : i < entries.length := hentries.length_eq ▸ hlt
  exact ⟨entries[i], by rw [← hf, List.getElem?_eq_getElem hlt'], hentries.get hlt hlt'⟩

/-- A value of a message up to the saved offset of its partition. -/
def Processor.Vouches (p : Processor) (s : State) (o : Occurrence) (m : Metric) : Prop :=
  ∃ offset, p.saved? s o.partition = some offset ∧ o.message.offset ≤ offset ∧
    s.bus.Holds (p.config.topic o.partition) o.message ∧ o.value? = some m

theorem Processor.Vouches.mem {s : State} {o : Occurrence} {m : Metric}
    (h : p.Vouches s o m) :
    o ∈ (p.settled s o.partition).flatMap (Occurrence.all o.partition) := by
  obtain ⟨offset, hsaved, hle, ⟨log, hlog, hpayload⟩, hvalue⟩ := h
  refine List.mem_flatMap.mpr ⟨o.message, ?_, (Occurrence.mem_all hvalue).mpr ⟨rfl, rfl⟩⟩
  simp only [Processor.settled, hsaved, hlog, Bus.next]
  refine Bus.mem_messagesFrom.mpr ⟨Nat.zero_le _, ?_⟩
  rw [Nat.sub_zero, List.getElem?_take_of_lt (Nat.lt_succ_of_le hle), hpayload]

/-- Each value of a message up to a saved offset was applied to the table of its resolution by an
event of its own, a step of the call for its partition that came after the message. No event
stands for two values, be they equal, of one message or of two. -/
def Applied (p : Processor) (w : World) (events : List Event) : Prop :=
  ∃ place : Occurrence → Nat,
    (∀ o m o' m', p.Vouches (run p w events).state o m → p.Vouches (run p w events).state o' m' →
      place o = place o' → o = o') ∧
    ∀ o m, p.Vouches (run p w events).state o m →
      ∃ earlier how later, events = earlier ++ .proceed o.partition how :: later ∧
        earlier.length = place o ∧
        (run p w earlier).state.bus.Holds (p.config.topic o.partition) o.message ∧
        (p.store.table o.resolution).current.Applies m (run p w earlier).state.storage
          (run p w (earlier ++ [.proceed o.partition how])).state.storage

/-- What a run from a world without a processor has come to. -/
structure Delivered (p : Processor) (w : World) (events : List Event) : Prop where
  applied : Applied p w events
  named : ∀ partition offset, p.saved? (run p w events).state partition = some offset →
    ∃ payload, (run p w events).state.bus.Holds (p.config.topic partition) ⟨offset, payload⟩
  monotone : ∀ earlier later, events = earlier ++ later → ∀ partition offset,
    p.saved? (run p w earlier).state partition = some offset →
      ∃ offset', p.saved? (run p w events).state partition = some offset' ∧ offset ≤ offset'
  notAhead : ∀ partition offset, (run p w events).state.offsets.get? partition = some offset →
    ∃ offset', p.saved? (run p w events).state partition = some offset' ∧ offset ≤ offset'

theorem applied_of_entered {events : List Event} (hempty : w.entered.journal = [])
    (hentered : ∀ partition, p.Entered
      ((p.settled (run p w events).state partition).flatMap (Occurrence.all partition))
      (run p w events).entered.journal) : Applied p w events := by
  let owed (partition : Nat) : List Occurrence :=
    (p.settled (run p w events).state partition).flatMap (Occurrence.all partition)
  have hhistory : ∀ partition, ∃ f : Nat ↪o Nat, ∀ i o, (owed partition)[i]? = some o →
      ∃ entry, (history p w events)[f i]? = some entry ∧ p.Enters o entry := by
    intro partition
    have hjournal := journal_run p w events
    rw [hempty, List.nil_append] at hjournal
    exact ((hentered partition).mono hjournal).exists_embedding
  choose f hf using hhistory
  let place (o : Occurrence) : Nat := f o.partition ((owed o.partition).idxOf o)
  have hplace : ∀ o m, p.Vouches (run p w events).state o m →
      ∃ entry, (history p w events)[place o]? = some entry ∧ p.Enters o entry := by
    intro o m ho
    refine hf o.partition _ o ?_
    rw [List.getElem?_eq_getElem (List.idxOf_lt_length_of_mem ho.mem), List.getElem_idxOf]
  refine ⟨place, fun o m o' m' ho ho' heq => ?_, fun o m ho => ?_⟩
  · obtain ⟨entry, hentry, hcall, -⟩ := hplace o m ho
    obtain ⟨entry', hentry', hcall', -⟩ := hplace o' m' ho'
    obtain rfl : entry = entry' := Option.some.inj (hentry.symm.trans (heq ▸ hentry'))
    have hpartition : o.partition = o'.partition := Option.some.inj (hcall.symm.trans hcall')
    simp only [place, hpartition, EmbeddingLike.apply_eq_iff_eq] at heq
    exact (List.idxOf_inj (hpartition ▸ ho.mem)).mp heq
  · obtain ⟨entry, hentry, hcall, hholds, m', hm', happlies⟩ := hplace o m ho
    obtain ⟨-, -, -, -, hm⟩ := ho
    obtain rfl : m' = m := Option.some.inj (hm'.symm.trans hm)
    obtain ⟨earlier, event, later, hevents, hlength, rfl⟩ := exists_of_history hentry
    cases event with
    | proceed partition how =>
        obtain rfl : partition = o.partition := Option.some.inj hcall
        exact ⟨earlier, how, later, hevents, hlength, hholds, happlies⟩
    | _ => cases hcall

theorem kept_of_unsaved (hunsaved : ∀ partition, p.saved? x.state partition = none)
    (hoffsets : x.state.offsets = .empty)
    (hmemory : ∀ e id, x.state.storage.memory entities.cache e = some id →
      NumberedAs (x.state.storage.contents entities.table) e id) : Kept p entities [] x where
  remembered := hmemory
  held partition offset hsaved := by
    rw [hunsaved] at hsaved
    cases hsaved
  taken partition := by
    have hsettled : p.settled x.state partition = [] := by
      simp only [Processor.settled, hunsaved, Bus.next, List.take_zero, Bus.messagesFrom]
      split <;> rfl
    rw [hsettled]
    exact .nil
  behind partition offset hoffset := by
    rw [hoffsets] at hoffset
    cases hoffset
  near := nofun

/-- Whatever fails or is given up on the way, no value up to a saved offset is lost. -/
theorem delivered (p : Processor) (entities : EntityTable)
    (hstore : ∀ r, (p.store.table r).current.entities = entities)
    (storage : Storage) (bus : Bus) (pending : Pending)
    (hunsaved : ∀ partition, p.progress.held? storage (p.saved partition) = none)
    (hmemory : ∀ e id, storage.memory entities.cache e = some id →
      NumberedAs (storage.contents entities.table) e id)
    (events : List Event)
    (hbounded : (run p (.start storage bus pending) events).state.bus.Bounded) :
    Delivered p (.start storage bus pending) events := by
  have hstart : Sound p entities (.start storage bus pending) :=
    .down (kept_of_unsaved hunsaved rfl hmemory)
  obtain ⟨hsound, -⟩ := sound_run hstore hstart hbounded
  have hkept := hsound.kept
  refine ⟨applied_of_entered rfl hkept.taken, ?_, ?_, hkept.behind⟩
  · intro partition offset hsaved
    obtain ⟨log, hlog, hlt⟩ := hkept.held partition offset hsaved
    exact ⟨log[offset], log, hlog, List.getElem?_eq_getElem hlt⟩
  · rintro earlier later rfl partition offset hsaved
    have hrun : run p (.start storage bus pending) (earlier ++ later) =
        run p (run p (.start storage bus pending) earlier) later := List.foldl_append ..
    rw [hrun] at hbounded ⊢
    obtain ⟨hearlier, -⟩ := sound_run hstore hstart (bounded_run hbounded)
    exact (sound_run hstore hearlier hbounded).2.saved partition offset hsaved

def sampleProcessor : Processor where
  store := ((Datasets.usual {}).openStore {}).1
  progress := ⟨.system (Datasets.usual {}).config.progressTable⟩
  config := {}
  partitions := []
  context := .root

def samplePayload : Bytes :=
  match Batch.encode [⟨.counter, "m", 50, 1, .empty⟩] with
  | .ok payload => payload
  | .error _ => []

def repeatedMetric : Metric := ⟨.counter, "m", 50, 1, .empty⟩

def repeatedPayload : Bytes :=
  match Batch.encode [repeatedMetric, repeatedMetric] with
  | .ok payload => payload
  | .error _ => []

/-- A batch is written and its offset saved, but the processor does not hear of it and
crashes. The next one takes the offset up. -/
def sampleEvents : List Event :=
  [.publish (sampleProcessor.config.topic 0) repeatedPayload, .replace "a" [0] .root] ++
    List.replicate 2 (.restore .served) ++ [.process 0] ++
    List.replicate 23 (.proceed 0 .served) ++ [.proceed 0 (.unheard "timeout")] ++
    [.replace "b" [0] .root] ++ List.replicate 3 (.restore .served)

def sampleBus : Bus := ({} : Bus).create (sampleProcessor.config.topic 0)

set_option maxRecDepth 4000 in
/-- Two equal values of one message, at each resolution. -/
theorem sample_delivered :
    let w := run sampleProcessor (.start {} sampleBus {}) sampleEvents
    (∀ r, ∀ place < 2, sampleProcessor.Vouches w.state ⟨0, ⟨0, repeatedPayload⟩, r, place⟩
        repeatedMetric) ∧
      w.state.offsets.get? 0 = some 0 ∧
      Delivered sampleProcessor (.start {} sampleBus {}) sampleEvents := by
  intro w
  have hsound : (Datasets.usual {}).Sound := by
    intro r table h
    cases h
  have hbatch : Batch.decode repeatedPayload = .ok [repeatedMetric, repeatedMetric] := by
    decide +kernel
  have hsaved : sampleProcessor.saved? w.state 0 = some 0 := by decide +kernel
  have htopic : w.state.bus.topics.get? (sampleProcessor.config.topic 0) =
      some [repeatedPayload] := by decide +kernel
  have hlog : w.state.bus.log (sampleProcessor.config.topic 0) = .ok [repeatedPayload] := by
    rw [Bus.log, htopic]
  refine ⟨fun r place hlt => ⟨0, hsaved, Nat.le_refl 0, ⟨_, hlog, rfl⟩, ?_⟩, by decide +kernel, ?_⟩
  · simp only [Occurrence.value?, hbatch]
    obtain rfl | rfl : place = 0 ∨ place = 1 := by omega
    · rfl
    · rfl
  · exact delivered sampleProcessor (Datasets.usual {}).entityTable
      (Datasets.entities_openStore hsound {}) {} sampleBus {} (fun _ => rfl) (fun _ _ h => by cases h)
      sampleEvents (by decide +kernel)

end Rollup.Ingestion
