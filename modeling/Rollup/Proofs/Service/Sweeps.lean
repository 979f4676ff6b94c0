import Rollup.Proofs.Retention.Pass
import Rollup.Proofs.Timeline
import Rollup.Service.Host

namespace Rollup

open Retention

namespace Sweep

/-- The same task later on: what is left of its run is what steps have left. -/
structure GoesOn (r r' : Sweep) : Prop where
  task : r'.task = r.task
  janitor : r'.janitor = r.janitor
  turn : r'.turn = r.turn
  told : r'.told = r.told
  pass : ∀ p', r'.pass = some p' →
    ∃ p, r.pass = some p ∧ Relation.ReflTransGen (Pass.Goes r.janitor.store) p p'

variable {r r' r'' : Sweep}

theorem GoesOn.refl (r : Sweep) : r.GoesOn r := ⟨rfl, rfl, rfl, rfl, fun p hp => ⟨p, hp, .refl⟩⟩

theorem GoesOn.trans (h : r.GoesOn r') (h' : r'.GoesOn r'') : r.GoesOn r'' where
  task := h'.task.trans h.task
  janitor := h'.janitor.trans h.janitor
  turn := h'.turn.trans h.turn
  told := h'.told.trans h.told
  pass := fun p'' hp'' => by
    obtain ⟨p', hp', hlater⟩ := h'.pass p'' hp''
    obtain ⟨p, hp, hgoes⟩ := h.pass p' hp'
    exact ⟨p, hp, hgoes.trans (h.janitor ▸ hlater)⟩

theorem erasing_of_goes {store : MetricStore} {p p' : Pass} (hp : p.Erasing store)
    (h : Relation.ReflTransGen (Pass.Goes store) p p') : p'.Erasing store := by
  induction h with
  | refl => exact hp
  | tail _ hgoes ih =>
      obtain ⟨clock, s, hstep⟩ := hgoes
      exact (Pass.step_cases ih clock s).2 _ hstep

end Sweep

namespace Host

variable {h h' : Host} {task id : Nat} {how : Notice}

/-- A task of a schedule waits, or it is off the timeline. -/
def Cleans (h : Host) (task : Nat) : Prop :=
  (∃ janitor turn, (task, .clean janitor turn) ∈ h.timeline.roll) ∨
    ∃ r ∈ h.sweeps, r.task = task

theorem alive_iff : h.alive task = true ↔
    h.timeline.alive task = true ∨ ∃ r ∈ h.sweeps, r.task = task := by
  simp [alive]

theorem mem_sweeps_tell {r' : Sweep} : r' ∈ (h.tell how task).sweeps ↔
    (∃ r ∈ h.sweeps, (if r.task = task then r.tell how else r) = r') ∨
      ∃ janitor turn, (task, .clean janitor turn) ∈ h.timeline.roll ∧
        r' = { task, janitor, turn, told := some how } := by
  rw [tell, List.mem_append, List.mem_map, List.mem_filterMap]
  refine or_congr_right ⟨?_, ?_⟩
  · rintro ⟨t, ht, heq⟩
    obtain ⟨hmem, hid⟩ := List.mem_filter.mp ht
    obtain ⟨id, due, job, restless⟩ := t
    obtain rfl : id = task := eq_of_beq hid
    cases job with
    | clean janitor turn =>
        exact ⟨janitor, turn, List.mem_map_of_mem (f := BackgroundTask.entry) hmem,
          (Option.some.inj heq).symm⟩
    | flush | lastFlush | consume => cases heq
  · rintro ⟨janitor, turn, hroll, rfl⟩
    obtain ⟨t, hmem, hentry⟩ := List.mem_map.mp hroll
    obtain ⟨id, due, job, restless⟩ := t
    obtain ⟨rfl, rfl⟩ : id = task ∧ job = .clean janitor turn := Prod.mk.inj hentry
    exact ⟨_, List.mem_filter.mpr ⟨hmem, beq_self_eq_true id⟩, rfl⟩

/-- What may come of the tasks of a host while nobody starts one or tells one to end: those
that wait may begin a run, and those at work may go on and, unless told to end, wait again. -/
structure Moves (h h' : Host) : Prop where
  started : h'.timeline.started = h.timeline.started
  roll : ∀ x ∈ h'.timeline.roll, x ∈ h.timeline.roll ∨
    ∃ r ∈ h.sweeps, r.told = none ∧ x = (r.task, .clean r.janitor r.turn)
  sweeps : ∀ r' ∈ h'.sweeps, (∃ r ∈ h.sweeps, r.GoesOn r') ∨
    (r'.task, .clean r'.janitor r'.turn) ∈ h.timeline.roll ∧
      ∀ p, r'.pass = some p → p = .begin r'.janitor.windows

theorem Moves.of_subset (hstarted : h'.timeline.started = h.timeline.started)
    (hroll : h'.timeline.roll ⊆ h.timeline.roll) (hsweeps : h'.sweeps ⊆ h.sweeps) :
    h.Moves h' where
  started := hstarted
  roll := fun _ hx => .inl (hroll hx)
  sweeps := fun r hr => .inl ⟨r, hsweeps hr, .refl r⟩

theorem Moves.alive (hm : h.Moves h') (halive : h'.alive task = true) : h.alive task = true := by
  rw [alive_iff] at halive ⊢
  rcases halive with halive | ⟨r', hr', rfl⟩
  · obtain ⟨job, hjob⟩ := Timeline.alive_iff.mp halive
    rcases hm.roll _ hjob with hold | ⟨r, hr, -, heq⟩
    · exact .inl (Timeline.alive_iff.mpr ⟨job, hold⟩)
    · exact .inr ⟨r, hr, (congrArg Prod.fst heq).symm⟩
  · rcases hm.sweeps r' hr' with ⟨r, hr, hgoes⟩ | ⟨hwaits, -⟩
    · exact .inr ⟨r, hr, hgoes.task.symm⟩
    · exact .inl (Timeline.alive_iff.mpr ⟨_, hwaits⟩)

theorem mem_of_sweep? {r : Sweep} (hr : h.sweep? task = some r) :
    r ∈ h.sweeps ∧ r.task = task := by
  unfold sweep? at hr
  exact ⟨List.mem_of_find?_eq_some hr, by simpa using List.find?_some hr⟩

theorem mem_sweeps_setSweep {r r' : Sweep} (hr' : r' ∈ (h.setSweep r).sweeps) :
    r' = r ∨ r' ∈ h.sweeps := by
  obtain ⟨x, hx, rfl⟩ := List.mem_map.mp hr'
  split
  · exact .inl rfl
  · exact .inr hx

theorem begin_moves (h : Host) (task : Nat) : h.Moves (h.begin task) := by
  have hrefl : h.Moves h := .of_subset rfl (List.Subset.refl _) (List.Subset.refl _)
  unfold begin
  split
  · exact hrefl
  · rename_i t hfind
    obtain ⟨hid, hroll⟩ := Timeline.mem_roll_of_find? hfind
    split
    · rename_i janitor turn hjob
      rw [hjob] at hroll
      refine ⟨rfl, fun x hx => ?_, fun r' hr' => ?_⟩
      · rw [Timeline.roll_depart] at hx
        exact .inl (List.mem_of_mem_filter hx)
      · rcases List.mem_append.mp hr' with hold | hnew
        · exact .inl ⟨r', hold, .refl r'⟩
        · obtain rfl := List.mem_singleton.mp hnew
          exact .inr ⟨hroll, fun p hp => (Option.some.inj hp).symm⟩
    · exact hrefl

theorem proceed_moves (h : Host) (task : Nat) : h.Moves (h.proceed task) := by
  unfold proceed
  split
  · rename_i id janitor turn pass told hsweep
    obtain ⟨hmem, rfl⟩ := mem_of_sweep? hsweep
    have hset {pass' : Option Pass} (hpass : ∀ p', pass' = some p' →
        Pass.Goes janitor.store pass p') {site : Site} {r' : Sweep}
        (hr' : r' ∈ ({ h with site }.setSweep ⟨id, janitor, turn, pass', told⟩).sweeps) :
        ∃ r ∈ h.sweeps, r.GoesOn r' := by
      rcases mem_sweeps_setSweep hr' with rfl | hold
      · exact ⟨_, hmem, rfl, rfl, rfl, rfl, fun p' hp' => ⟨pass, rfl, .single (hpass p' hp')⟩⟩
      · exact ⟨r', hold, .refl r'⟩
    split
    · rename_i pass' storage hstep
      refine ⟨rfl, fun x hx => .inl hx, fun r' hr' => .inl (hset (fun p' hp' => ?_) hr')⟩
      exact ⟨_, _, (congrArg Prod.fst hstep).trans (congrArg Sum.inl (Option.some.inj hp'))⟩
    · cases told with
      | some how =>
          refine ⟨rfl, fun x hx => .inl hx, fun r' hr' => .inl (hset ?_ hr')⟩
          exact nofun
      | none =>
          refine ⟨rfl, fun x hx => ?_, fun r' hr' => .inl ⟨r', List.mem_of_mem_filter hr', .refl r'⟩⟩
          have hx : x ∈ (h.timeline.rejoin id janitor.interval (.clean janitor turn)).roll := hx
          rw [Timeline.roll_rejoin, List.mem_append, List.mem_singleton] at hx
          exact hx.imp_right fun heq => ⟨_, hmem, rfl, heq⟩
  · exact .of_subset rfl (List.Subset.refl _) (List.Subset.refl _)

theorem notice_moves (h : Host) (task : Nat) : h.Moves (h.notice task) := by
  have hrefl : h.Moves h := .of_subset rfl (List.Subset.refl _) (List.Subset.refl _)
  unfold notice
  split
  · exact hrefl
  · split
    · exact .of_subset rfl (List.Subset.refl _) (List.filter_subset_self _)
    · exact hrefl

end Host

/-- Of a site nothing changes but how schedules stand and what the tables of a store lose. -/
structure Site.Sheds (store : MetricStore) (s s' : Site) : Prop where
  clock : s'.clock = s.clock
  bus : s'.bus = s.bus
  gathered : s'.gathered = s.gathered
  committed : s'.committed = s.committed
  storage : store.Sheds s.storage s'.storage

theorem Site.Sheds.refl (store : MetricStore) (s : Site) : s.Sheds store s :=
  ⟨rfl, rfl, rfl, rfl, .refl store s.storage⟩

namespace Host

variable {h : Host} {task : Nat} {store : MetricStore}

theorem sweep?_setSweep {r r' : Sweep} (hr : h.sweep? r.task = some r') :
    (h.setSweep r).sweep? r.task = some r := by
  have hsame : ((fun r' : Sweep => r'.task == r.task) ∘
      fun r' => if r'.task = r.task then r else r') = fun r' => r'.task == r.task := by
    funext x
    by_cases hx : x.task = r.task <;> simp [hx]
  unfold sweep? at hr
  rw [sweep?, setSweep, List.find?_map, hsame, hr, Option.map_some,
    if_pos (by simpa using List.find?_some hr)]

theorem endSweep_setSweep (h : Host) (r : Sweep) :
    (h.setSweep r).endSweep r.task = h.endSweep r.task := by
  have hsweeps : (h.sweeps.map fun r' => if r'.task = r.task then r else r').filter
      (·.task != r.task) = h.sweeps.filter (·.task != r.task) := by
    induction h.sweeps with
    | nil => rfl
    | cons x xs ih => by_cases hx : x.task = r.task <;> simp [hx, ih]
  rw [endSweep, endSweep, setSweep, hsweeps]

theorem iterate_proceed {janitor : Janitor} {turn : Nat} {p : Pass} {clock : Clock}
    {s s' : Storage} {outcome : Except Error Nat}
    (hends : Pass.Ends janitor.store clock p s outcome s') (hclock : h.site.clock = clock)
    (hstorage : h.site.storage = s)
    (hsweep : h.sweep? task = some { task, janitor, turn, pass := some p }) :
    ∃ n, (proceed · task)^[n] h =
      ({ h with
        site := { h.site with storage := s' }.stepSchedule janitor (.finished turn outcome)
        timeline := h.timeline.rejoin task janitor.interval (.clean janitor turn) } : Host).endSweep
          task := by
  induction hends generalizing h with
  | last hstep =>
      subst hclock hstorage
      refine ⟨1, ?_⟩
      simp only [Function.iterate_one, proceed, hsweep, hstep]
  | @next p s p' s' outcome s'' hstep _ ih =>
      subst hclock hstorage
      let r : Sweep := { task, janitor, turn, pass := some p' }
      let next : Host := { h with site := { h.site with storage := s' } }
      let done : Host :=
        { h with
          site := { h.site with storage := s'' }.stepSchedule janitor (.finished turn outcome)
          timeline := h.timeline.rejoin task janitor.interval (.clean janitor turn) }
      have hnext : h.proceed task = next.setSweep r := by
        simp only [proceed, hsweep, hstep]
        rfl
      obtain ⟨n, hn⟩ := ih (h := next.setSweep r) rfl rfl (sweep?_setSweep (r := r) hsweep)
      refine ⟨n + 1, ?_⟩
      rw [Function.iterate_succ_apply, hnext, hn]
      exact endSweep_setSweep done r

/-- A run in steps that nothing disturbs comes to what a piece of work of its task comes to. -/
theorem run_undisturbed {t : BackgroundTask Job} {janitor : Janitor} {turn : Nat}
    (hfind : h.timeline.find? task = some t) (hjob : t.job = .clean janitor turn)
    (hfree : ∀ r ∈ h.sweeps, r.task ≠ task) :
    ∃ n, (proceed · task)^[n] (h.begin task) =
      { h with
        site := (t.job.work h.site).2
        timeline := (h.timeline.depart t).rejoin task janitor.interval t.job } := by
  let r : Sweep := { task, janitor, turn, pass := some (.begin janitor.windows) }
  have hbegin : h.begin task =
      { h with
        site := h.site.stepSchedule janitor (.timer turn)
        timeline := h.timeline.depart t
        sweeps := h.sweeps ++ [r] } := by
    simp only [begin, hfind, hjob, r]
  have hsweep : (h.begin task).sweep? task = some r := by
    have hnone : h.sweeps.find? (·.task == task) = none :=
      List.find?_eq_none.mpr fun r hr => by simpa using hfree r hr
    rw [hbegin, sweep?, List.find?_append, hnone]
    simp [r]
  have hends := Pass.ends_finish janitor.store h.site.clock (.begin janitor.windows) h.site.storage
  rw [Pass.finish_begin] at hends
  obtain ⟨n, hn⟩ := iterate_proceed hends (h := h.begin task) (by rw [hbegin]; rfl)
    (by rw [hbegin]; rfl) hsweep
  have hsweeps : (h.sweeps ++ [r]).filter (·.task != task) = h.sweeps := by
    rw [List.filter_append, List.filter_eq_self.mpr fun r hr => by simpa using hfree r hr]
    simp [r]
  refine ⟨n, hn.trans ?_⟩
  rw [hbegin, endSweep, hsweeps, hjob]
  rfl

end Host

end Rollup
