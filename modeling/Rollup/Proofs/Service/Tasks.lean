import Rollup.Proofs.Service.Sweeps
import Rollup.Service.Lifecycle

namespace Rollup

namespace Job

def Consumes : Job → Prop
  | .consume _ _ => True
  | _ => False

def TakesFrom (p : Nat) : Job → Prop
  | .consume _ q => q = p
  | _ => False

end Job

namespace Timeline

variable {α β : Type} {t t' : Timeline α β} {id : Nat} {P : α → Prop}

def Each (t : Timeline α β) (id : Nat) (P : α → Prop) : Prop := ∀ job, (id, job) ∈ t.roll → P job

theorem Each.of_roll (h : t.Each id P) (hroll : ∀ x ∈ t'.roll, x.1 = id → x ∈ t.roll) :
    t'.Each id P :=
  fun job hjob => h job (hroll _ hjob rfl)

theorem Each.start (h : t.Each id P) (hid : id < t.started) (delay : Duration) (job : α) :
    (t.start delay job).2.Each id P :=
  h.of_roll fun x hx hxid => by
    rw [roll_start] at hx
    refine (List.mem_append.mp hx).resolve_right fun hnew => ?_
    rw [List.mem_singleton.mp hnew] at hxid
    exact Nat.ne_of_gt hid hxid

theorem Each.startAll (delay : Duration) (jobs : List α) {t : Timeline α β} (h : t.Each id P)
    (hid : id < t.started) : (t.startAll delay jobs).2.Each id P := by
  induction jobs generalizing t with
  | nil => exact h
  | cons job jobs ih => exact ih (h.start hid delay job) (Nat.lt_succ_of_lt hid)

theorem Each.new {book : List Nat} (h : t.Booked book) (delay : Duration) {job : α} (hjob : P job) :
    (t.start delay job).2.Each t.started P := by
  intro job' hjob'
  rw [roll_start, List.mem_append, List.mem_singleton] at hjob'
  rcases hjob' with hold | hnew
  · exact absurd (h.below _ (h.known _ hold)) (Nat.lt_irrefl _)
  · rw [(Prod.mk.inj hnew).2]
    exact hjob

theorem forall₂_startAll {γ : Type} {P : γ → α → Prop} {job : γ → α}
    (hjob : ∀ place, P place (job place)) (delay : Duration) (places : List γ)
    {t : Timeline α β} {book : List Nat} (h : t.Booked book) :
    List.Forall₂ (fun id place => (t.startAll delay (places.map job)).2.Each id (P place))
      (t.startAll delay (places.map job)).1 places := by
  induction places generalizing t book with
  | nil => exact .nil
  | cons place places ih =>
      have hnew : (t.start delay (job place)).2.Each t.started (P place) :=
        .new h delay (hjob place)
      exact .cons (hnew.startAll delay (places.map job) (Nat.lt_succ_self _))
        (ih (h.start delay (job place)))

theorem subset_roll_startAll (delay : Duration) (jobs : List α) (t : Timeline α β) :
    t.roll ⊆ (t.startAll delay jobs).2.roll := by
  induction jobs generalizing t with
  | nil => exact List.Subset.refl _
  | cons job jobs ih =>
      refine List.Subset.trans ?_ (ih (t.start delay job).2)
      rw [roll_start]
      exact List.subset_append_left _ _

theorem forall₂_mem_roll_startAll (delay : Duration) (jobs : List α) (t : Timeline α β) :
    List.Forall₂ (fun id job => (id, job) ∈ (t.startAll delay jobs).2.roll)
      (t.startAll delay jobs).1 jobs := by
  induction jobs generalizing t with
  | nil => exact .nil
  | cons job jobs ih =>
      have hnew : (t.started, job) ∈ (t.start delay job).2.roll := by
        rw [roll_start]
        exact List.mem_append_right _ List.mem_cons_self
      exact .cons (subset_roll_startAll delay jobs _ hnew) (ih _)

def cancelEach (t : Timeline α β) (ids : List Nat) : Timeline α β := ids.foldl cancel t

theorem outcomes_cancelEach (t : Timeline α β) (ids : List Nat) :
    (t.cancelEach ids).outcomes = t.outcomes := by
  induction ids generalizing t with
  | nil => rfl
  | cons id ids ih => exact ih (t.cancel id)

theorem cancelEach_append (t : Timeline α β) (as bs : List Nat) :
    t.cancelEach (as ++ bs) = (t.cancelEach as).cancelEach bs :=
  List.foldl_append

theorem mem_roll_cancelEach {ids : List Nat} {x : Nat × α} :
    x ∈ (t.cancelEach ids).roll ↔ x ∈ t.roll ∧ x.1 ∉ ids := by
  induction ids generalizing t with
  | nil => simp [cancelEach]
  | cons id ids ih =>
      rw [cancelEach, List.foldl_cons]
      rw [show ids.foldl cancel (t.cancel id) = (t.cancel id).cancelEach ids from rfl, ih,
        roll_cancel, List.mem_filter, decide_eq_true_iff, List.mem_cons, not_or, and_assoc]

theorem alive_cancelEach_iff {ids : List Nat} :
    (t.cancelEach ids).alive id = true ↔ t.alive id = true ∧ id ∉ ids := by
  simp only [alive_iff, mem_roll_cancelEach]
  exact ⟨fun ⟨job, hjob, hid⟩ => ⟨⟨job, hjob⟩, hid⟩, fun ⟨⟨job, hjob⟩, hid⟩ => ⟨job, hjob, hid⟩⟩

theorem Booked.cancelEach {ids book : List Nat} (h : t.Booked (ids ++ book)) :
    (t.cancelEach ids).Booked book := by
  induction ids generalizing t with
  | nil => exact h
  | cons id ids ih => exact ih h.cancel

/-- The live tasks are those that keep house, those that take from the partitions, each
from its own, and the lost ones. -/
structure Minded (t : Timeline Job β) (keeping taking lost : List Nat) : Prop where
  booked : t.Booked (keeping ++ taking ++ lost)
  keeps : ∀ id ∈ keeping, t.Each id (¬ ·.Consumes)
  takes : List.Forall₂ (fun id p => t.Each id (·.TakesFrom p)) taking
    (List.range taking.length)

namespace Minded

variable {t t' : Timeline Job β} {keeping keeping' taking lost : List Nat}

theorem below (h : t.Minded keeping taking lost) {id : Nat} (hid : id ∈ keeping ++ taking) :
    id < t.started :=
  h.booked.below id (List.mem_append_left _ hid)

theorem perm (h : t.Minded keeping taking lost) (hperm : keeping.Perm keeping') :
    t.Minded keeping' taking lost :=
  ⟨h.booked.perm ((hperm.append_right _).append_right _),
    fun id hid => h.keeps id (hperm.mem_iff.mpr hid), h.takes⟩

theorem of_roll (h : t.Minded keeping taking lost)
    (hbooked : t'.Booked (keeping' ++ taking ++ lost)) (hkeeping : keeping' ⊆ keeping)
    (hroll : t'.roll ⊆ t.roll) : t'.Minded keeping' taking lost where
  booked := hbooked
  keeps := fun id hid => (h.keeps id (hkeeping hid)).of_roll fun _ hx _ => hroll hx
  takes := h.takes.imp fun _ _ heach => heach.of_roll fun _ hx _ => hroll hx

theorem shift (h : t.Minded keeping taking lost) (hstarted : t'.started = t.started)
    (hroll : ∀ x ∈ t'.roll, x ∈ t.roll ∨ x.1 ∈ keeping ∧ ¬ x.2.Consumes) :
    t'.Minded keeping taking lost where
  booked :=
    { apart := h.booked.apart
      below := hstarted ▸ h.booked.below
      known := fun x hx => (hroll x hx).elim (h.booked.known x) fun hkeeping =>
        List.mem_append_left _ (List.mem_append_left _ hkeeping.1) }
  keeps := fun id hid job hjob => (hroll _ hjob).elim (h.keeps id hid job) And.right
  takes := by
    refine List.forall₂_iff_zip.mpr ⟨h.takes.length_eq, fun {id p} hzip job hjob => ?_⟩
    refine (hroll _ hjob).elim ((List.forall₂_iff_zip.mp h.takes).2 hzip job) fun hkeeping => ?_
    have hapart := (List.nodup_append.mp h.booked.apart).1
    exact absurd (List.of_mem_zip hzip).1 (List.disjoint_of_nodup_append hapart hkeeping.1)

theorem keep (h : t.Minded keeping taking lost) (delay : Duration) {job : Job}
    (hjob : ¬ job.Consumes) :
    (t.start delay job).2.Minded (t.started :: keeping) taking lost where
  booked := h.booked.start delay job
  keeps := fun id hid => by
    rcases List.mem_cons.mp hid with rfl | hid
    · exact .new h.booked delay hjob
    · exact (h.keeps id hid).start (h.below (List.mem_append_left _ hid)) delay job
  takes := by
    refine List.forall₂_iff_zip.mpr ⟨h.takes.length_eq, fun {id p} hzip => ?_⟩
    have hid := h.below (List.mem_append_right keeping (List.of_mem_zip hzip).1)
    exact ((List.forall₂_iff_zip.mp h.takes).2 hzip).start hid delay job

theorem release {ids : List Nat} (h : t.Minded (ids ++ keeping) taking lost) :
    (t.cancelEach ids).Minded keeping taking lost := by
  refine h.of_roll (Booked.cancelEach ?_) (List.subset_append_right _ _)
    fun x hx => (mem_roll_cancelEach.mp hx).1
  simpa only [List.append_assoc] using h.booked

theorem take (h : t.Minded keeping taking lost) (delay : Duration) (w : Worker) (n : Nat) :
    (t.startAll delay ((List.range n).map (.consume w))).2.Minded keeping
      (t.startAll delay ((List.range n).map (.consume w))).1 (lost ++ taking) where
  booked := (h.booked.startAll delay _).perm <| by
    rw [List.append_assoc keeping, List.append_assoc keeping]
    refine List.perm_append_comm_assoc _ _ _ |>.trans (List.Perm.append_left _ ?_)
    exact List.Perm.append_left _ List.perm_append_comm
  keeps := fun id hid =>
    (h.keeps id hid).startAll delay _ (h.below (List.mem_append_left _ hid))
  takes := by
    have hjob (p : Nat) : Job.TakesFrom p (.consume w p) := rfl
    have htakes := forall₂_startAll hjob delay (List.range n) h.booked
    rwa [htakes.length_eq, List.length_range]

end Minded

end Timeline

namespace Host

/-- The tasks of a host are in order: besides those that take from the partitions and the
lost ones there are those of the flushing and of the cleaning, and whatever else is at work on
a store's tables, or would be, removes what has expired and has been told to end. -/
structure Tended (h : Host) (store : MetricStore) (cleaners flushers taking lost : List Nat) :
    Prop where
  minded : h.timeline.Minded (cleaners ++ flushers) taking lost
  waits : ∀ id janitor turn, (id, .clean janitor turn) ∈ h.timeline.roll →
    id ∈ cleaners ∧ janitor.store = store
  told : ∀ r ∈ h.sweeps, r.told = none → r.task ∈ cleaners
  works : ∀ r ∈ h.sweeps, r.janitor.store = store ∧ ∀ p, r.pass = some p → p.Erasing store

namespace Tended

variable {h h' : Host} {store : MetricStore} {cleaners flushers taking lost : List Nat} {task : Nat}

theorem congr (ht : h.Tended store cleaners flushers taking lost)
    (htimeline : h'.timeline = h.timeline) (hsweeps : h'.sweeps = h.sweeps) :
    h'.Tended store cleaners flushers taking lost :=
  ⟨htimeline ▸ ht.minded, htimeline ▸ ht.waits, hsweeps ▸ ht.told, hsweeps ▸ ht.works⟩

theorem move (ht : h.Tended store cleaners flushers taking lost) (hm : h.Moves h') :
    h'.Tended store cleaners flushers taking lost where
  minded := ht.minded.shift hm.started fun x hx => by
    refine (hm.roll x hx).imp_right fun ⟨r, hr, htold, heq⟩ => ?_
    rw [heq]
    exact ⟨List.mem_append_left _ (ht.told r hr htold), not_false⟩
  waits := fun id janitor turn hx => by
    rcases hm.roll _ hx with hold | ⟨r, hr, htold, heq⟩
    · exact ht.waits id janitor turn hold
    · obtain ⟨rfl, hjob⟩ := Prod.mk.inj heq
      cases hjob
      exact ⟨ht.told r hr htold, (ht.works r hr).1⟩
  told := fun r' hr' htold => by
    rcases hm.sweeps r' hr' with ⟨r, hr, hgoes⟩ | ⟨hwaits, -⟩
    · exact hgoes.task ▸ ht.told r hr (hgoes.told ▸ htold)
    · exact (ht.waits _ _ _ hwaits).1
  works := fun r' hr' => by
    rcases hm.sweeps r' hr' with ⟨r, hr, hgoes⟩ | ⟨hwaits, hpass⟩
    · obtain ⟨hstore, herasing⟩ := ht.works r hr
      refine ⟨hgoes.janitor ▸ hstore, fun p' hp' => ?_⟩
      obtain ⟨p, hp, hlater⟩ := hgoes.pass p' hp'
      exact Sweep.erasing_of_goes (herasing p hp) (hstore ▸ hlater)
    · refine ⟨(ht.waits _ _ _ hwaits).2, fun p hp => ?_⟩
      rw [hpass p hp]
      exact Retention.Pass.erasing_begin store _

theorem perm {cleaners' : List Nat} (ht : h.Tended store cleaners flushers taking lost)
    (hperm : cleaners.Perm cleaners') : h.Tended store cleaners' flushers taking lost where
  minded := ht.minded.perm (hperm.append_right _)
  waits := fun id janitor turn hx => (ht.waits id janitor turn hx).imp_left hperm.mem_iff.mp
  told := fun r hr htold => hperm.mem_iff.mp (ht.told r hr htold)
  works := ht.works

theorem flush (ht : h.Tended store cleaners [] taking lost) (delay : Duration) {job : Job}
    (hjob : ¬ job.Consumes) (hclean : ∀ janitor turn, job ≠ .clean janitor turn) :
    (h.start delay job).2.Tended store cleaners [h.timeline.started] taking lost where
  minded := by
    have hm := ht.minded.keep delay hjob
    rw [List.append_nil] at hm
    exact hm.perm (List.perm_append_singleton _ _).symm
  waits := fun id janitor turn hx => by
    have hx : _ ∈ (h.timeline.start delay job).2.roll := hx
    rw [Timeline.roll_start, List.mem_append, List.mem_singleton] at hx
    rcases hx with hold | hnew
    · exact ht.waits id janitor turn hold
    · exact absurd (Prod.mk.inj hnew).2.symm (hclean janitor turn)
  told := ht.told
  works := ht.works

theorem clean (ht : h.Tended store cleaners flushers taking lost) (delay : Duration)
    {janitor : Janitor} (hstore : janitor.store = store) (turn : Nat) :
    (h.start delay (.clean janitor turn)).2.Tended store (h.timeline.started :: cleaners) flushers
      taking lost where
  minded := ht.minded.keep delay (show ¬ (Job.clean janitor turn).Consumes from not_false)
  waits := fun id janitor' turn' hx => by
    have hx : _ ∈ (h.timeline.start delay (.clean janitor turn)).2.roll := hx
    rw [Timeline.roll_start, List.mem_append, List.mem_singleton] at hx
    rcases hx with hold | hnew
    · obtain ⟨hid, hstore'⟩ := ht.waits id janitor' turn' hold
      exact ⟨List.mem_cons_of_mem _ hid, hstore'⟩
    · cases hnew
      exact ⟨List.mem_cons_self, hstore⟩
  told := fun r hr htold => List.mem_cons_of_mem _ (ht.told r hr htold)
  works := ht.works

theorem take (ht : h.Tended store cleaners flushers taking lost) (delay : Duration) (w : Worker)
    (n : Nat) {timeline : Timeline Job (Except Error Unit)} {tasks : List Nat}
    (hstart : (tasks, timeline) = h.timeline.startAll delay ((List.range n).map (.consume w)))
    (htimeline : h'.timeline = timeline) (hsweeps : h'.sweeps = h.sweeps) :
    h'.Tended store cleaners flushers tasks (lost ++ taking) where
  minded := by
    have hm := ht.minded.take delay w n
    rwa [← hstart, ← htimeline] at hm
  waits := fun id janitor turn hx => by
    rw [htimeline, (Prod.mk.inj hstart).2] at hx
    rcases Timeline.mem_roll_startAll delay _ hx with hold | hnew
    · exact ht.waits id janitor turn hold
    · obtain ⟨p, -, heq⟩ := List.mem_map.mp hnew
      cases heq
  told := hsweeps ▸ ht.told
  works := hsweeps ▸ ht.works

theorem tell (ht : h.Tended store (task :: cleaners) flushers taking lost) (how : Notice) :
    (h.tell how task).Tended store cleaners flushers taking lost where
  minded := by
    have hm : h.timeline.Minded ([task] ++ (cleaners ++ flushers)) taking lost := ht.minded
    exact hm.release
  waits := fun id janitor turn hx => by
    have hx : _ ∈ (h.timeline.cancel task).roll := hx
    rw [Timeline.roll_cancel, List.mem_filter, decide_eq_true_iff] at hx
    obtain ⟨hid, hstore⟩ := ht.waits id janitor turn hx.1
    exact ⟨(List.mem_cons.mp hid).resolve_left hx.2, hstore⟩
  told := fun r' hr' htold => by
    rcases mem_sweeps_tell.mp hr' with ⟨r, hr, rfl⟩ | ⟨janitor, turn, -, rfl⟩
    · split at htold
      · cases htold
      · rename_i hne
        rw [if_neg hne]
        exact (List.mem_cons.mp (ht.told r hr htold)).resolve_left hne
    · cases htold
  works := fun r' hr' => by
    rcases mem_sweeps_tell.mp hr' with ⟨r, hr, rfl⟩ | ⟨janitor, turn, hroll, rfl⟩
    · split <;> exact ht.works r hr
    · exact ⟨(ht.waits _ _ _ hroll).2, nofun⟩

theorem tell? (how : Notice) {task : Option Nat}
    (ht : h.Tended store (task.toList ++ cleaners) flushers taking lost) :
    (h.tell? how task).Tended store cleaners flushers taking lost := by
  cases task with
  | none => exact ht
  | some task => exact ht.tell how

end Tended

theorem timeline_tell? (h : Host) (how : Notice) (task : Option Nat) :
    (h.tell? how task).timeline = h.timeline.cancelEach task.toList := by
  cases task <;> rfl

theorem joinAll_eq (h : Host) (tasks : List Nat) :
    h.joinAll tasks = (tasks.map fun task => (h.timeline.outcome? task).getD (.ok ()),
      { h with timeline := h.timeline.cancelEach tasks }) := by
  induction tasks generalizing h with
  | nil => rfl
  | cons task tasks ih => simp only [joinAll, ih]; rfl

end Host

namespace Intake

variable {i i' : Intake} {h h' : Host}

theorem start_error {e : Error} (hstart : i.start h = (.error e, i', h')) :
    h'.timeline = h.timeline ∧ h'.sweeps = h.sweeps := by
  unfold start at hstart
  split at hstart
  · rename_i hrestore
    obtain ⟨-, -, rfl⟩ : _ ∧ _ ∧ _ = h' := by simpa only [Prod.mk.injEq] using hstart
    exact ⟨congrArg (·.2.timeline) hrestore.symm, congrArg (·.2.sweeps) hrestore.symm⟩
  · split at hstart <;> simp at hstart

theorem start_ok (hstopped : i.stopped = false) (hstart : i.start h = (.ok (), i', h')) :
    ((i'.tasks, h'.timeline) =
      let started := h.timeline.startAll .zero
        (i.worker.processor.partitions.map (.consume i.worker))
      (i.tasks ++ started.1, started.2)) ∧ h'.sweeps = h.sweeps := by
  unfold start at hstart
  split at hstart
  · simp at hstart
  · rename_i h₁ hrestore
    obtain ⟨rfl, rfl⟩ : _ = i' ∧ _ = h' := by simpa [hstopped] using hstart
    have htimeline : h₁.timeline = h.timeline := congrArg (·.2.timeline) hrestore.symm
    refine ⟨?_, congrArg (·.2.sweeps) hrestore.symm⟩
    simp only [Host.startAll, htimeline]

end Intake

namespace Cleaning

variable {c : Cleaning} {h : Host} {cleaners flushers taking lost : List Nat}

theorem start_tended (hnone : c.task = none)
    (ht : h.Tended c.janitor.store cleaners flushers taking lost) :
    (c.start h).2.Tended c.janitor.store ((c.start h).1.task.toList ++ cleaners) flushers taking
      lost := by
  have hstep : (c.step .start h).Tended c.janitor.store cleaners flushers taking lost :=
    ⟨ht.minded, ht.waits, ht.told, ht.works⟩
  unfold start
  simp only
  split
  · exact hstep.clean c.janitor.delay rfl _
  · rw [hnone]
    exact hstep

end Cleaning

namespace Service

def cleaners (s : Service) : List Nat := (s.cleaning.bind (·.task)).toList

def flushers (s : Service) : List Nat := s.flushTask.toList

def takers (s : Service) : List Nat := s.intake.elim [] (·.tasks)

/-- A service minds the tasks of its host but for some that it has lost. -/
def Minds (s : Service) (h : Host) (lost : List Nat) : Prop :=
  h.Tended s.store s.cleaners s.flushers s.takers lost

variable {s : Service} {h : Host} {lost : List Nat}

theorem takers_startFlushing (s : Service) (h : Host) :
    (s.startFlushing h).1.takers = s.takers := by
  unfold startFlushing
  split <;> rfl

theorem startFlushing_minds (hs : s.Minds h lost) :
    (s.startFlushing h).1.Minds (s.startFlushing h).2 lost := by
  unfold startFlushing
  split
  · exact hs
  · rename_i hnone
    rw [Minds, flushers, hnone] at hs
    refine hs.flush .zero ?_ ?_
    · split <;> exact not_false
    · split <;> exact fun _ _ => nofun

theorem startIntake_cases (s : Service) (h : Host) :
    (∃ outcome h', s.startIntake h = (outcome, s, h') ∧ h'.timeline = h.timeline ∧
        h'.sweeps = h.sweeps) ∨
      ∃ w n intake h', s.startIntake h = (.ok (), { s with intake := some intake }, h') ∧
        (intake.tasks, h'.timeline) =
          h.timeline.startAll .zero ((List.range n).map (.consume w)) ∧
        h'.sweeps = h.sweeps := by
  unfold startIntake
  split
  · exact .inl ⟨_, _, rfl, rfl, rfl⟩
  · simp only [Host.number]
    split
    · rename_i hstart
      obtain ⟨htimeline, hsweeps⟩ := Intake.start_error hstart
      exact .inl ⟨_, _, rfl, htimeline, hsweeps⟩
    · rename_i hstart
      obtain ⟨htasks, hsweeps⟩ := Intake.start_ok rfl hstart
      exact .inr ⟨_, _, _, _, rfl, htasks, hsweeps⟩

/-- What a service no longer has of the tasks that took from the partitions. -/
def letGo (before after : Service) : List Nat :=
  before.takers.filter fun id => !after.takers.contains id

@[simp] theorem letGo_self (s : Service) : s.letGo s = [] :=
  List.filter_eq_nil_iff.mpr fun id hid => by simp [hid]

theorem startIntake_minds (hs : s.Minds h lost) :
    (s.startIntake h).2.1.Minds (s.startIntake h).2.2
      (lost ++ s.letGo (s.startIntake h).2.1) := by
  rcases startIntake_cases s h with
    ⟨outcome, h', heq, htimeline, hsweeps⟩ | ⟨w, n, intake, h', heq, htasks, hsweeps⟩
  · rw [heq, letGo_self, List.append_nil]
    exact hs.congr htimeline hsweeps
  · have ht := hs.take .zero w n htasks rfl hsweeps
    have hall : s.letGo { s with intake := some intake } = s.takers := by
      refine List.filter_eq_self.mpr fun id hid => ?_
      have hfresh : id ∉ intake.tasks := fun hnew =>
        List.disjoint_of_nodup_append ht.minded.booked.apart (List.mem_append_right _ hnew)
          (List.mem_append_right _ hid)
      simpa [takers] using hfresh
    rw [heq, hall]
    exact ht

theorem takers_startCleaning (s : Service) (h : Host) :
    (s.startCleaning h).1.takers = s.takers := by
  unfold startCleaning
  split <;> rfl

theorem startCleaning_minds (hs : s.Minds h lost) :
    (s.startCleaning h).1.Minds (s.startCleaning h).2 lost := by
  unfold startCleaning
  split
  · exact hs
  · let new := Cleaning.new s.config s.store h
    have hnew : (new.1.start new.2).2.Tended s.store
        ((new.1.start new.2).1.task.toList ++ s.cleaners) s.flushers s.takers lost :=
      Cleaning.start_tended rfl (hs.congr rfl rfl)
    -- the task of the last schedule is told to end once the new one has been started
    have hold := hnew.perm List.perm_append_comm
    cases hc : s.cleaning with
    | none =>
        rw [cleaners, hc] at hold
        exact hold
    | some c =>
        rw [cleaners, hc] at hold
        exact Host.Tended.tell? .cancelled (hold.congr rfl rfl)

theorem startUp_cases (s : Service) (h : Host) :
    let started := s.startFlushing h
    (∃ e s' h', started.1.startIntake started.2 = (.error e, s', h') ∧
        s.startUp h = (.error e, s', h')) ∨
      ∃ s' h', started.1.startIntake started.2 = (.ok (), s', h') ∧
        s.startUp h = (.ok (), s'.startCleaning h') := by
  unfold startUp
  rcases s.startFlushing h with ⟨s₁, h₁⟩
  rcases hintake : s₁.startIntake h₁ with ⟨_ | ⟨⟩, s', h'⟩
  · exact .inl ⟨_, s', h', hintake, by simp only [hintake]⟩
  · exact .inr ⟨s', h', hintake, by simp only [hintake]⟩

theorem startUp_minds (hs : s.Minds h lost) :
    (s.startUp h).2.1.Minds (s.startUp h).2.2 (lost ++ s.letGo (s.startUp h).2.1) := by
  have hintake := startIntake_minds (startFlushing_minds hs)
  rw [letGo, takers_startFlushing] at hintake
  rcases startUp_cases s h with ⟨e, s', h', hcall, heq⟩ | ⟨s', h', hcall, heq⟩
  · rw [hcall] at hintake
    rw [heq]
    exact hintake
  · rw [hcall] at hintake
    rw [heq, letGo, takers_startCleaning]
    exact startCleaning_minds hintake

theorem subset_roll_start (c : Cleaning) (h : Host) :
    h.timeline.roll ⊆ (c.start h).2.timeline.roll := by
  unfold Cleaning.start
  simp only
  split
  · show _ ⊆ (h.timeline.start _ _).2.roll
    rw [Timeline.roll_start]
    exact List.subset_append_left _ _
  · exact List.Subset.refl _

theorem mem_roll_startCleaning {id : Nat} {job : Job} (hjob : (id, job) ∈ h.timeline.roll)
    (hid : id ∉ s.cleaners) : (id, job) ∈ (s.startCleaning h).2.timeline.roll := by
  unfold startCleaning
  split
  · exact hjob
  · have hstart := subset_roll_start (Cleaning.new s.config s.store h).1
      (Cleaning.new s.config s.store h).2 hjob
    cases hc : s.cleaning with
    | none => exact hstart
    | some c =>
        rw [cleaners, hc] at hid
        show _ ∈ (Host.tell? _ .cancelled c.task).timeline.roll
        rw [Host.timeline_tell?, Timeline.mem_roll_cancelEach]
        exact ⟨hstart, hid⟩

theorem takers_startUp (hs : s.Minds h lost) : (s.startUp h).2.1.takers = s.takers ∨
    List.Forall₂ (fun id p => ∃ w, (id, .consume w p) ∈ (s.startUp h).2.2.timeline.roll)
      (s.startUp h).2.1.takers (List.range (s.startUp h).2.1.takers.length) := by
  have hintake := startIntake_minds (startFlushing_minds hs)
  rcases startIntake_cases (s.startFlushing h).1 (s.startFlushing h).2 with
    ⟨outcome, h₁, hsame, -, -⟩ | ⟨w, n, intake, h₁, hnew, htasks, -⟩
  · refine .inl ?_
    rcases startUp_cases s h with ⟨e, s', h', hcall, heq⟩ | ⟨s', h', hcall, heq⟩
    all_goals
      obtain ⟨-, rfl, -⟩ : _ ∧ (s.startFlushing h).1 = s' ∧ _ := by
        simpa only [Prod.mk.injEq] using hsame.symm.trans hcall
      rw [heq]
    · exact takers_startFlushing s h
    · exact (takers_startCleaning _ h').trans (takers_startFlushing s h)
  · refine .inr ?_
    rcases startUp_cases s h with ⟨e, s', h', hcall, heq⟩ | ⟨s', h', hcall, heq⟩
    · simp [hnew] at hcall
    · obtain ⟨rfl, rfl⟩ : _ = s' ∧ h₁ = h' := by simpa [hnew] using hcall
      rw [hnew] at hintake
      obtain ⟨hids, htimeline⟩ := Prod.mk.inj htasks
      have hmem := Timeline.forall₂_mem_roll_startAll .zero ((List.range n).map (.consume w))
        (s.startFlushing h).2.timeline
      rw [← hids, ← htimeline, List.forall₂_map_right_iff] at hmem
      have hapart := (List.nodup_append.mp hintake.minded.booked.apart).1
      rw [heq, takers_startCleaning]
      show List.Forall₂ _ intake.tasks (List.range intake.tasks.length)
      rw [hmem.length_eq, List.length_range]
      refine List.forall₂_iff_zip.mpr ⟨hmem.length_eq, fun {id p} hzip => ⟨w, ?_⟩⟩
      refine mem_roll_startCleaning ((List.forall₂_iff_zip.mp hmem).2 hzip) fun hcleaner => ?_
      exact List.disjoint_of_nodup_append hapart (List.mem_append_left _ hcleaner)
        (List.of_mem_zip hzip).1

def tasks (s : Service) : List Nat := s.cleaners ++ s.takers ++ s.flushers

/-- What the tasks of the intake have come to. One that is still there ends well when it
is told to. -/
def ingested (s : Service) (h : Host) : List (Except Error Unit) :=
  s.takers.map fun task => (h.timeline.outcomes.get? task).getD (.ok ())

/-- What the flushing comes to: one last flush, unless its task has ended before. -/
def flushed (s : Service) (h : Host) : Except Error Unit :=
  s.flushTask.elim (.ok ()) fun task =>
    if h.timeline.alive task then (s.flush h).1.map fun _ => ()
    else (h.timeline.outcomes.get? task).getD (.ok ())

theorem stopCleaning_eq (s : Service) (h : Host) :
    ∃ site, s.stopCleaning h = ({ s with cleaning := none },
        { h.tell? .aborted (s.cleaning.bind (·.task)) with site }) ∧
      ∀ aggregator store, (site.flush aggregator store).1 = (h.site.flush aggregator store).1 := by
  obtain ⟨config, store, aggregator, source, intake, cleaning, flushTask, closing⟩ := s
  cases cleaning with
  | none => exact ⟨h.site, rfl, fun _ _ => rfl⟩
  | some c =>
      obtain ⟨janitor, task⟩ := c
      cases task <;> exact ⟨_, rfl, fun _ _ => rfl⟩

theorem stopIntake_eq (s : Service) (h : Host) :
    s.stopIntake h = (Error.gather (s.ingested h), { s with intake := none },
      { h with timeline := h.timeline.cancelEach s.takers }) := by
  obtain ⟨config, store, aggregator, source, intake, cleaning, flushTask, closing⟩ := s
  cases intake with
  | none => rfl
  | some i => simp only [stopIntake, Intake.stop, Host.joinAll_eq]; rfl

theorem stopFlushing_eq (s : Service) (h : Host) :
    ∃ site, s.stopFlushing h = (s.flushed h, { s with flushTask := none },
      { h with site, timeline := h.timeline.cancelEach s.flushTask.toList }) := by
  obtain ⟨config, store, aggregator, source, intake, cleaning, flushTask, closing⟩ := s
  cases flushTask with
  | none => exact ⟨h.site, rfl⟩
  | some task =>
      by_cases halive : h.timeline.alive task = true
      · simp only [stopFlushing, halive, flushed, Option.elim_some, if_true]
        exact ⟨_, rfl⟩
      · simp only [stopFlushing, halive, flushed, Option.elim_some]
        exact ⟨_, rfl⟩

theorem shutDown_snd (s : Service) (h : Host) :
    ∃ site, (s.shutDown h).2 =
      ({ s with cleaning := none, intake := none, flushTask := none, closing := true },
        { h.tell? .aborted (s.cleaning.bind (·.task)) with
          site
          timeline := h.timeline.cancelEach s.tasks }) := by
  obtain ⟨site, hcleaning, -⟩ := stopCleaning_eq s h
  let told := h.tell? .aborted (s.cleaning.bind (·.task))
  obtain ⟨site', hflushing⟩ := stopFlushing_eq
    { s with cleaning := none, intake := none, closing := true }
    { told with site, timeline := told.timeline.cancelEach s.takers }
  refine ⟨site', ?_⟩
  simp only [shutDown, hcleaning, stopIntake_eq]
  rw [tasks, Timeline.cancelEach_append, Timeline.cancelEach_append, cleaners,
    ← Host.timeline_tell? h .aborted]
  exact congrArg Prod.snd hflushing

theorem Minds.perm_tasks (hs : s.Minds h lost) : h.timeline.Booked (s.tasks ++ lost) :=
  hs.minded.booked.perm <| List.Perm.append_right _ <| by
    rw [tasks, List.append_assoc, List.append_assoc]
    exact List.Perm.append_left _ List.perm_append_comm

theorem shutDown_tended (hs : s.Minds h lost) :
    (s.shutDown h).2.2.Tended s.store [] [] [] lost := by
  obtain ⟨site, heq⟩ := shutDown_snd s h
  have htold : (h.tell? .aborted (s.cleaning.bind (·.task))).Tended s.store [] s.flushers s.takers
      lost :=
    .tell? .aborted (by rw [List.append_nil]; exact hs)
  rw [heq]
  refine ⟨⟨hs.perm_tasks.cancelEach, nofun, .nil⟩, fun id janitor turn hx => ?_, htold.told,
    htold.works⟩
  obtain ⟨hold, hnot⟩ := Timeline.mem_roll_cancelEach.mp hx
  refine absurd (List.mem_append_left _ (List.mem_append_left _ ?_)) hnot
  exact (hs.waits id janitor turn hold).1

theorem shutDown_minds (hs : s.Minds h lost) :
    (s.shutDown h).2.1.Minds (s.shutDown h).2.2 lost := by
  have ht := shutDown_tended hs
  obtain ⟨site, heq⟩ := shutDown_snd s h
  rw [heq] at ht ⊢
  exact ht

end Service

end Rollup
