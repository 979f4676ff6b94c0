import Mathlib.Tactic.Ring
import Rollup.Proofs.Aggregation.Clients

namespace Rollup.Flushing

open Program

variable {σ : Type} {send : List Metric → σ → Except Error Unit × σ} {w w' : Clients σ}
  {weigh : Int64 → Int} {series : Series}

def inHand (task : Pool.Task interface Duty Unit) : List Metric := task.rest.elim [] holding

/-- What tasks have drained and neither published nor put back yet. -/
def inFlight (weigh : Int64 → Int) (series : Series)
    (tasks : List (Pool.Task interface Duty Unit)) : Int :=
  (tasks.map fun task => tally weigh series (inHand task)).sum

def drained (weigh : Int64 → Int) (series : Series) (w : Clients σ) : Int :=
  tally weigh series w.state.published + inFlight weigh series w.tasks

section InFlight

variable {tasks : List (Pool.Task interface Duty Unit)} {task : Pool.Task interface Duty Unit}
  {i : Nat}

theorem inFlight_eq (h : tasks[i]? = some task) : inFlight weigh series tasks =
    tally weigh series (inHand task) + inFlight weigh series (tasks.eraseIdx i) := by
  obtain ⟨hlt, rfl⟩ := List.getElem?_eq_some_iff.mp h
  have hperm := (List.getElem_cons_eraseIdx_perm hlt).symm
  exact (hperm.map _).sum_eq.trans List.sum_cons

theorem inFlight_set (hlt : i < tasks.length) (task : Pool.Task interface Duty Unit) :
    inFlight weigh series (tasks.set i task) =
      tally weigh series (inHand task) + inFlight weigh series (tasks.eraseIdx i) :=
  ((List.set_perm_cons_eraseIdx hlt task).map _).sum_eq.trans List.sum_cons

theorem inFlight_concat : inFlight weigh series (tasks ++ [task]) =
    inFlight weigh series tasks + tally weigh series (inHand task) := by
  simp [inFlight]

theorem abs_inFlight_le (series : Series) (tasks : List (Pool.Task interface Duty Unit)) :
    |inFlight Int64.toInt series tasks| ≤ inFlight magnitude series tasks := by
  induction tasks with
  | nil => exact le_refl _
  | cons task tasks ih =>
      simp only [inFlight, List.map_cons, List.sum_cons] at ih ⊢
      exact (abs_add_le _ _).trans (add_le_add (abs_tally_le _ _) ih)

end InFlight

theorem abs_drained_le (series : Series) (w : Clients σ) :
    |drained Int64.toInt series w| ≤ drained magnitude series w :=
  (abs_add_le _ _).trans (add_le_add (abs_tally_le _ _) (abs_inFlight_le _ _))

def AllCareful (w : Clients σ) : Prop :=
  ∀ task ∈ w.tasks, ∀ work, task.rest = some work → Careful work

/-- What an event does to the account: drained values and pending ones change places, a
delta is recorded, or a batch is put back. -/
inductive Moved (w w' : Clients σ) : Prop where
  | shifted (recorded : w'.state.recorded = w.state.recorded)
      (kept : ∀ weigh series, weigh 0 = 0 →
        drained weigh series w' + weigh (w'.state.pending.counter series) =
          drained weigh series w + weigh (w.state.pending.counter series))
  | recorded (m : Metric) (counter : m.kind = .counter)
      (recorded : w'.state.recorded = w.state.recorded ++ [m])
      (kept : ∀ weigh series, drained weigh series w' = drained weigh series w)
      (pending : ∀ series, w'.state.pending.counter series =
        w.state.pending.counter series + if m.series = series then m.value else 0)
  | returned (batch : List Metric) (recorded : w'.state.recorded = w.state.recorded)
      (kept : ∀ weigh series,
        drained weigh series w' + tally weigh series batch = drained weigh series w)
      (pending : ∀ series, w'.state.pending.counter series =
        w.state.pending.counter series + Int64.ofInt (tally Int64.toInt series batch))

theorem moved_disturb (w : Clients σ) (cause : Cause σ) :
    Moved w { w with state := w.state.after cause } := by
  cases cause with
  | increment path name delta =>
      refine .recorded ⟨.counter, name, w.state.now, delta, Context.along path⟩ rfl rfl
        (fun _ _ => rfl) fun series => ?_
      refine (Pending.counter_increment ..).trans ?_
      by_cases h : series = ⟨name, Context.along path⟩
      · simp [h, Metric.series]
      · rw [if_neg h, if_neg fun heq => h heq.symm]
        exact (Int64.add_zero _).symm
  | gauge path name value => exact .shifted rfl fun _ _ _ => rfl
  | clock now => exact .shifted rfl fun _ _ _ => rfl
  | sink sink => exact .shifted rfl fun _ _ _ => rfl

theorem moved_begin (w : Clients σ) (duty : Duty) :
    Moved w { w with tasks := w.tasks ++ [⟨duty, some duty.program⟩] } := by
  refine .shifted rfl fun weigh series _ => ?_
  have hfresh : inHand ⟨duty, some duty.program⟩ = [] := duty.holding_program
  simp only [drained, inFlight_concat, hfresh, tally_nil, add_zero]

theorem tally_accepted (weigh : Int64 → Int) (series : Series) (batch : List Metric)
    (answer : Except Error Unit) :
    tally weigh series (accepted (.publish batch) answer) +
      tally weigh series (leaves (.publish batch) answer) = tally weigh series batch := by
  cases answer with
  | ok => exact add_zero _
  | error e => exact zero_add _

theorem inFlight_proceed (weigh : Int64 → Int) (series : Series) {i : Nat} {duty : Duty}
    {q : Request} {resume : Except Error q.Answer → Work Unit}
    (htask : w.tasks[i]? = some ⟨duty, some (.call q resume)⟩)
    (hcareful : Careful (.call q resume)) (answer : Except Error q.Answer) :
    inFlight weigh series (w.tasks.set i ⟨duty, some (resume answer)⟩) +
        tally weigh series q.batch =
      inFlight weigh series w.tasks + tally weigh series (leaves q answer) := by
  obtain ⟨hlt, -⟩ := List.getElem?_eq_some_iff.mp htask
  have hnow : inHand ⟨duty, some (.call q resume)⟩ = q.batch := rfl
  have hnext : inHand ⟨duty, some (resume answer)⟩ = leaves q answer := (hcareful answer).1
  rw [inFlight_set hlt, inFlight_eq htask, hnow, hnext]
  ring

theorem moved_proceed {i : Nat} {duty : Duty} {q : Request}
    {resume : Except Error q.Answer → Work Unit}
    (htask : w.tasks[i]? = some ⟨duty, some (.call q resume)⟩)
    (hcareful : Careful (.call q resume)) :
    Moved w ⟨(enter send q w.state).2,
      w.tasks.set i ⟨duty, some (resume (enter send q w.state).1)⟩⟩ := by
  have hflight := fun weigh series =>
    inFlight_proceed weigh series htask hcareful (enter send q w.state).1
  cases q with
  | drain =>
      refine .shifted rfl fun weigh series hzero => ?_
      have hpublished : (enter send .drain w.state).2.published = w.state.published :=
        List.append_nil _
      have htaken : tally weigh series (leaves .drain (enter send .drain w.state).1) =
          weigh (w.state.pending.counter series) :=
        Pending.tally_metrics hzero w.state.pending w.state.now series
      have hempty : weigh ((enter send .drain w.state).2.pending.counter series) = 0 := hzero
      have hmoved := hflight weigh series
      rw [htaken, Request.batch, tally_nil] at hmoved
      simp only [drained, hpublished, hempty]
      linarith
  | publish batch =>
      refine .shifted rfl fun weigh series _ => ?_
      have hpublished : tally weigh series (enter send (.publish batch) w.state).2.published =
          tally weigh series w.state.published + tally weigh series
            (accepted (.publish batch) (enter send (.publish batch) w.state).1) := tally_append
      have hpending : (enter send (.publish batch) w.state).2.pending = w.state.pending := rfl
      have hsplit := tally_accepted weigh series batch (enter send (.publish batch) w.state).1
      have hmoved := hflight weigh series
      rw [Request.batch] at hmoved
      simp only [drained, hpublished, hpending]
      linarith
  | requeue batch =>
      refine .returned batch rfl (fun weigh series => ?_) (Pending.counter_requeue _ batch)
      have hpublished : (enter send (.requeue batch) w.state).2.published = w.state.published :=
        List.append_nil _
      have hmoved := hflight weigh series
      rw [leaves, Request.batch, tally_nil] at hmoved
      simp only [drained, hpublished]
      linarith

theorem moved_step (hcareful : AllCareful w) (event : Event σ)
    (hkept : ∀ i, event ≠ .abandon i) : Moved w ((works send).step w event) := by
  rcases step_cases send w event hkept with h | ⟨duty, -, h⟩ |
    ⟨i, -, duty, q, resume, -, htask, h⟩ | ⟨cause, -, h⟩ <;> rw [h]
  · exact .shifted rfl fun _ _ _ => rfl
  · exact moved_begin w duty
  · exact moved_proceed htask (hcareful _ (List.mem_of_getElem? htask) _ rfl)
  · exact moved_disturb w cause

theorem careful_step (hcareful : AllCareful w) (event : Event σ)
    (hkept : ∀ i, event ≠ .abandon i) : AllCareful ((works send).step w event) := by
  rcases step_cases send w event hkept with h | ⟨duty, -, h⟩ |
    ⟨i, -, duty, q, resume, -, htask, h⟩ | ⟨cause, -, h⟩ <;> rw [h]
  · exact hcareful
  · intro task hmem work hwork
    rcases List.mem_append.mp hmem with hmem | hmem
    · exact hcareful task hmem work hwork
    · cases List.mem_singleton.mp hmem
      cases hwork
      exact duty.careful_program
  · intro task hmem work hwork
    rcases List.mem_or_eq_of_mem_set hmem with hmem | rfl
    · exact hcareful task hmem work hwork
    · cases hwork
      exact (hcareful _ (List.mem_of_getElem? htask) _ rfl _).2
  · exact hcareful

/-- The deltas that were recorded for a series sum up to a total: as words, and as integers
where both sums fit a word, which they do if what was recorded does without its signs. -/
def SumsTo (recorded : List Metric) (series : Series) (total : Int) : Prop :=
  let sum := tally Int64.toInt series recorded
  Int64.ofInt sum = Int64.ofInt total ∧ (Fits sum → Fits total → sum = total) ∧
    (Fits (tally magnitude series recorded) → sum = total)

structure Balanced (w : Clients σ) : Prop where
  careful : AllCareful w
  words : ∀ series, Int64.ofInt (tally Int64.toInt series w.state.recorded) =
    Int64.ofInt (drained Int64.toInt series w) + w.state.pending.counter series
  sizes : ∀ series, drained magnitude series w + magnitude (w.state.pending.counter series) ≤
    tally magnitude series w.state.recorded

namespace Balanced

theorem start (b : Books σ) (hpending : b.pending = {}) (hrecorded : b.recorded = [])
    (hpublished : b.published = []) : Balanced ⟨b, []⟩ where
  careful _ htask := by cases htask
  words series := by
    simp [drained, inFlight, hrecorded, hpublished, hpending, tally_nil, Pending.counter]
  sizes series := by
    simp [drained, inFlight, hrecorded, hpublished, hpending, tally_nil, Pending.counter,
      magnitude]

theorem words_moved (hmoved : Moved w w') (series : Series)
    (hwords : Int64.ofInt (tally Int64.toInt series w.state.recorded) =
      Int64.ofInt (drained Int64.toInt series w) + w.state.pending.counter series) :
    Int64.ofInt (tally Int64.toInt series w'.state.recorded) =
      Int64.ofInt (drained Int64.toInt series w') + w'.state.pending.counter series := by
  cases hmoved with
  | shifted recorded kept =>
      have hkept := congrArg Int64.ofInt (kept Int64.toInt series rfl)
      simp only [Int64.ofInt_add, Int64.ofInt_toInt] at hkept
      rw [recorded, hwords, hkept]
  | recorded m counter recorded kept pending =>
      rw [recorded, tally_append, Int64.ofInt_add, hwords, tally_singleton rfl counter,
        Int64.ofInt_toInt, kept, pending, Int64.add_assoc]
  | returned batch recorded kept pending =>
      rw [recorded, hwords, ← kept, pending, Int64.ofInt_add]
      ac_rfl

theorem sizes_moved (hmoved : Moved w w') (series : Series)
    (hsizes : drained magnitude series w + magnitude (w.state.pending.counter series) ≤
      tally magnitude series w.state.recorded) :
    drained magnitude series w' + magnitude (w'.state.pending.counter series) ≤
      tally magnitude series w'.state.recorded := by
  cases hmoved with
  | shifted recorded kept =>
      rw [recorded, kept magnitude series rfl]
      exact hsizes
  | recorded m counter recorded kept pending =>
      have hsum := magnitude_add_le (w.state.pending.counter series)
        (if m.series = series then m.value else 0)
      rw [recorded, tally_append, tally_singleton rfl counter, kept, pending]
      linarith
  | returned batch recorded kept pending =>
      have hsum := magnitude_add_le (w.state.pending.counter series)
        (Int64.ofInt (tally Int64.toInt series batch))
      have hbatch := (magnitude_ofInt_le _).trans (abs_tally_le series batch)
      have hkept := kept magnitude series
      rw [recorded, pending]
      linarith

theorem moved (h : Balanced w) (hmoved : Moved w w') (hcareful : AllCareful w') :
    Balanced w' where
  careful := hcareful
  words series := words_moved hmoved series (h.words series)
  sizes series := sizes_moved hmoved series (h.sizes series)

theorem run (h : Balanced w) {events : List (Event σ)} (hkept : ∀ i, .abandon i ∉ events) :
    Balanced ((works send).run w events) := by
  induction events generalizing w with
  | nil => exact h
  | cons event events ih =>
      have hevent : ∀ i, event ≠ .abandon i := by
        rintro i rfl
        exact hkept i (List.mem_cons_self ..)
      refine ih (h.moved (moved_step h.careful event hevent) (careful_step h.careful event hevent))
        fun i hi => hkept i (List.mem_cons_of_mem _ hi)

theorem sumsTo (h : Balanced w) (series : Series) :
    SumsTo w.state.recorded series
      (drained Int64.toInt series w + (w.state.pending.counter series).toInt) := by
  have hwords : Int64.ofInt (tally Int64.toInt series w.state.recorded) =
      Int64.ofInt (drained Int64.toInt series w + (w.state.pending.counter series).toInt) := by
    rw [h.words, Int64.ofInt_add, Int64.ofInt_toInt]
  refine ⟨hwords, eq_of_ofInt_eq hwords, fun hsize => ?_⟩
  have hrecorded := abs_tally_le series w.state.recorded
  have hdrained := abs_drained_le series w
  have htotal := abs_add_le (drained Int64.toInt series w) (w.state.pending.counter series).toInt
  have hsizes := h.sizes series
  -- both sums are within the magnitude of what was recorded
  refine eq_of_ofInt_eq hwords (fits_of_abs_lt (hrecorded.trans_lt hsize.2)) (fits_of_abs_lt ?_)
  rw [magnitude] at hsizes
  have hbound := hsize.2
  linarith

end Balanced

end Rollup.Flushing
