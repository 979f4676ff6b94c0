import Rollup.Proofs.Service.Life

namespace Rollup

namespace Error

theorem head?_flatten : ∀ e : Error, e.flatten.head? = some e.primary
  | shutdownAggregate first suppressed => by
      rw [flatten, primary, List.head?_append, head?_flatten first, Option.some_or]
  | storageUnavailable _ | topicNotFound _ | schedulingFailure _ | decode _ | invalidMetric _
  | config _ | serialization _ | internal _ => rfl

theorem flatten_foldl_withSuppressed (e : Error) (es : List Error) :
    (es.foldl withSuppressed e).flatten = e.flatten ++ es.flatMap flatten := by
  induction es generalizing e with
  | nil => simp
  | cons e' es ih =>
      rw [List.foldl_cons, ih, flatten_withSuppressed, List.flatMap_cons, List.append_assoc]

def failures : List (Except Error Unit) → List Error
  | [] => []
  | .ok _ :: outcomes => failures outcomes
  | .error e :: outcomes => e :: failures outcomes

theorem failures_append (as bs : List (Except Error Unit)) :
    failures (as ++ bs) = failures as ++ failures bs := by
  fun_induction failures as with
  | case1 => rfl
  | case2 _ as ih => exact ih
  | case3 e as ih => exact congrArg (e :: ·) ih

theorem failures_eq_nil_iff {outcomes : List (Except Error Unit)} :
    failures outcomes = [] ↔ ∀ outcome ∈ outcomes, outcome = .ok () := by
  fun_induction failures outcomes with
  | case1 => simp
  | case2 u outcomes ih => simp [ih]
  | case3 e outcomes ih => simp

/-- An outcome tells of others: it is a success just if they all are, and else it carries
their single failures in order, the first of them as its main one. One failure is not
wrapped. -/
structure Reports (outcomes : List (Except Error Unit)) (outcome : Except Error Unit) : Prop where
  ok_iff : outcome = .ok () ↔ ∀ o ∈ outcomes, o = .ok ()
  flatten_eq : ∀ e, outcome = .error e → e.flatten = (failures outcomes).flatMap flatten
  primary_eq : ∀ e, outcome = .error e →
    ((failures outcomes).flatMap flatten).head? = some e.primary
  alone : ∀ e, failures outcomes = [e] → outcome = .error e

theorem foldl_combine_some (first : Error) (outcomes : List (Except Error Unit)) :
    outcomes.foldl combine (some first) = some ((failures outcomes).foldl withSuppressed first) := by
  fun_induction failures outcomes generalizing first with
  | case1 => rfl
  | case2 u outcomes ih => exact ih first
  | case3 e outcomes ih => exact ih (first.withSuppressed e)

theorem foldl_combine_none (outcomes : List (Except Error Unit)) :
    outcomes.foldl combine none =
      (failures outcomes).head?.map ((failures outcomes).tail.foldl withSuppressed ·) := by
  fun_induction failures outcomes with
  | case1 => rfl
  | case2 u outcomes ih => exact ih
  | case3 e outcomes ih => exact foldl_combine_some e outcomes

theorem gather_eq_ok {outcomes : List (Except Error Unit)} (h : failures outcomes = []) :
    gather outcomes = .ok () := by
  rw [gather, foldl_combine_none, h]
  rfl

theorem gather_eq_error {outcomes : List (Except Error Unit)} {e : Error} {es : List Error}
    (h : failures outcomes = e :: es) : gather outcomes = .error (es.foldl withSuppressed e) := by
  rw [gather, foldl_combine_none, h]
  rfl

theorem gather_reports (outcomes : List (Except Error Unit)) :
    Reports outcomes (gather outcomes) := by
  have hflatten (e : Error) (he : gather outcomes = .error e) :
      e.flatten = (failures outcomes).flatMap flatten := by
    cases h : failures outcomes with
    | nil => simp [gather_eq_ok h] at he
    | cons first others =>
        rw [gather_eq_error h] at he
        cases he
        rw [flatten_foldl_withSuppressed, List.flatMap_cons]
  refine ⟨?_, hflatten, fun e he => hflatten e he ▸ head?_flatten e,
    fun e he => gather_eq_error he⟩
  rw [← failures_eq_nil_iff]
  cases h : failures outcomes with
  | nil => simp [gather_eq_ok h]
  | cons first others => simp [gather_eq_error h]

theorem Reports.failures_eq_nil_iff {outcomes : List (Except Error Unit)}
    {outcome : Except Error Unit} (h : Reports outcomes outcome) :
    failures outcomes = [] ↔ outcome = .ok () :=
  Error.failures_eq_nil_iff.trans h.ok_iff.symm

/-- What reports a report and a further outcome, reports all outcomes. -/
theorem Reports.append {outcomes : List (Except Error Unit)} {first last whole : Except Error Unit}
    (hfirst : Reports outcomes first) (hwhole : Reports [first, last] whole) :
    Reports (outcomes ++ [last]) whole := by
  have hsplit : failures [first, last] = failures [first] ++ failures [last] :=
    failures_append [first] [last]
  have hflatten : (failures [first]).flatMap flatten = (failures outcomes).flatMap flatten := by
    cases first with
    | ok => rw [hfirst.failures_eq_nil_iff.mpr rfl]; rfl
    | error e => rw [← hfirst.flatten_eq e rfl]; exact List.append_nil _
  have hall : (failures [first, last]).flatMap flatten =
      (failures (outcomes ++ [last])).flatMap flatten := by
    rw [hsplit, failures_append, List.flatMap_append, List.flatMap_append, hflatten]
  refine ⟨?_, fun e he => hall ▸ hwhole.flatten_eq e he, fun e he => hall ▸ hwhole.primary_eq e he,
    fun e he => hwhole.alone e ?_⟩
  · rw [hwhole.ok_iff, List.forall_mem_append, ← hfirst.ok_iff]
    simp
  · rw [failures_append, List.append_eq_singleton_iff] at he
    rw [hsplit]
    rcases he with ⟨hnone, hlast⟩ | ⟨hone, hlast⟩
    · rw [hfirst.failures_eq_nil_iff.mp hnone, hlast]
      rfl
    · rw [hfirst.alone e hone, hlast]
      rfl

end Error

namespace Service

variable {s : Service} {h : Host}

theorem flushed_congr {h' : Host} {ids : List Nat}
    (htimeline : h'.timeline = h.timeline.cancelEach ids)
    (hapart : ∀ task, s.flushTask = some task → task ∉ ids)
    (hsite : (h'.site.flush s.aggregator s.store).1 = (h.site.flush s.aggregator s.store).1) :
    s.flushed h' = s.flushed h := by
  cases htask : s.flushTask with
  | none => simp [flushed, htask]
  | some task =>
      have halive : h'.timeline.alive task = h.timeline.alive task := by
        rw [htimeline, Bool.eq_iff_iff, Timeline.alive_cancelEach_iff]
        exact and_iff_left (hapart task htask)
      have houtcomes : h'.timeline.outcomes = h.timeline.outcomes := by
        rw [htimeline, Timeline.outcomes_cancelEach]
      have hflush : (s.flush h').1 = (s.flush h).1 := hsite
      simp only [flushed, htask, Option.elim_some, halive, hflush, houtcomes]

theorem shutDown_fst (hapart : s.tasks.Nodup) :
    (s.shutDown h).1 = Error.gather [Error.gather (s.ingested h), s.flushed h] := by
  obtain ⟨site, hcleaning, hsite⟩ := stopCleaning_eq s h
  let told : Host := { h.tell? .aborted (s.cleaning.bind (·.task)) with site }
  have htold : told.timeline = h.timeline.cancelEach s.cleaners := h.timeline_tell? ..
  let stopped : Host := { told with timeline := told.timeline.cancelEach s.takers }
  obtain ⟨site', hflushing⟩ := stopFlushing_eq
    { s with cleaning := none, intake := none, closing := true } stopped
  have hingested : ingested { s with cleaning := none } told = s.ingested h := by
    simp only [ingested, htold, Timeline.outcomes_cancelEach]
    rfl
  have hflushed : s.flushed stopped = s.flushed h := by
    have hstopped : stopped.timeline = h.timeline.cancelEach (s.cleaners ++ s.takers) := by
      rw [Timeline.cancelEach_append, ← htold]
    refine flushed_congr hstopped (fun task htask hmem => ?_) (hsite _ _)
    refine List.disjoint_of_nodup_append hapart hmem ?_
    rw [flushers, htask]
    exact List.mem_singleton_self task
  simp only [shutDown, hcleaning, stopIntake_eq]
  rw [← hflushed, ← hingested]
  exact congrArg (fun flushed => Error.gather [_, flushed]) (congrArg Prod.fst hflushing)

/-- A shut-down reports what the tasks of the partitions have come to, in the order of the
partitions, and then the flushing, whatever has become of each. -/
theorem shutDown_reports (config : Config) (store : MetricStore)
    (source : Option Ingestion.Source) (site : Site) (events : List Life.Event) :
    (∀ a b : Error, (a.withSuppressed b).flatten = a.flatten ++ b.flatten ∧
        a.flatten.head? = some a.primary) ∧
      let opened := Life.opened config store source site
      let l := opened.run events
      List.Forall₂ (fun task partition => l.host.timeline.Each task (·.TakesFrom partition) ∧
          opened.Took events task partition)
        l.service.takers (List.range l.service.takers.length) ∧
      ∀ h : Host, Error.Reports (l.service.ingested h ++ [l.service.flushed h])
        (l.service.shutDown h).1 := by
  refine ⟨fun a b => ⟨Error.flatten_withSuppressed a b, Error.head?_flatten a⟩, ?_⟩
  intro opened l
  have hopened : opened.Sound := Life.sound_opened config store source site
  have hl : l.Sound := Life.sound_run hopened events
  refine ⟨?_, fun h => ?_⟩
  · have htook := Life.takers_took hopened rfl events
    refine List.forall₂_iff_zip.mpr ⟨htook.length_eq, fun hzip => ?_⟩
    exact ⟨(List.forall₂_iff_zip.mp hl.minded.takes).2 hzip, (List.forall₂_iff_zip.mp htook).2 hzip⟩
  · rw [shutDown_fst (List.nodup_append.mp hl.perm_tasks.apart).1]
    exact (Error.gather_reports _).append (Error.gather_reports _)

/-- The topic of the partition is deleted, and a value is gathered that no store takes. -/
def sampleBreakdown (s : Site) : Site :=
  { s.increment 0 { name := "", tags := .empty } 1 with bus := {} }

/-- The task of the partition ends for want of its topic, and the last flush fails as well. -/
theorem sample_failures :
    let l := Life.sampleLife.run [.startUp, .pass (.visit sampleBreakdown), .pass .settle]
    let missing : Error := .topicNotFound "system:metrics0"
    let nameless : Error := .invalidMetric "metric name is empty"
    l.service.ingested l.host = [.error missing] ∧
      l.service.flushed l.host = .error nameless ∧
      (l.service.shutDown l.host).1 = .error (.shutdownAggregate missing [nameless]) := by
  intro l missing nameless
  let before := (Life.sampleLife.run [.startUp, .pass (.visit sampleBreakdown)]).host
  let roused := before.timeline.tasks.map (BackgroundTask.rouse 0)
  -- the flushing, the partition and then the cleaning, which is not due yet
  have hsettle : Timeline.run Job.work 0 { before.timeline with tasks := roused } before.site = _ :=
    (Timeline.run_of_wait rfl (Nat.le_refl 0) rfl).trans <|
      (Timeline.run_of_finish rfl (Nat.le_refl 0) rfl).trans <|
        Timeline.run_of_late rfl (by decide)
  have hhost : l.host = _ := congrArg (fun settled : Timeline Job (Except Error Unit) × Site =>
    { before with timeline := settled.1, site := settled.2 }) hsettle
  have hingested : l.service.ingested l.host = [.error missing] := by
    rw [hhost]
    rfl
  have hflushed : l.service.flushed l.host = .error nameless := by
    rw [hhost]
    rfl
  refine ⟨hingested, hflushed, ?_⟩
  rw [shutDown_fst (by decide), hingested, hflushed]
  rfl

end Service

end Rollup
