import Rollup.Proofs.Aggregation.Balance

namespace Rollup.Flushing

open Program

variable {σ : Type} {send : List Metric → σ → Except Error Unit × σ} {w : Clients σ}
  {work : Work Unit} {events : List (Event σ)} {event : Event σ}

def Ticking (work : Work Unit) : Prop :=
  ∃ (n : Nat) (flushing : Work Nat), work = flushing.attempt.bind fun _ => loop n

/-- Before the work ends well, it publishes the batch. -/
def Lands (batch : List Metric) : Work Unit → Prop
  | .result outcome => outcome = .ok () → batch = []
  | .call q resume => ∀ answer, accepted q answer = batch ∨ Lands batch (resume answer)

theorem ticking_loop (n : Nat) : Ticking (loop n) := ⟨n, .result (.ok 0), rfl⟩

theorem ticking_cases (h : Ticking work) : work = loop 0 ∨
    ∃ q resume, work = .call q resume ∧ ∀ answer, Ticking (resume answer) := by
  obtain ⟨n, flushing, rfl⟩ := h
  cases flushing with
  | result outcome =>
      cases n with
      | zero => exact .inl rfl
      | succ n => exact .inr ⟨.drain, _, rfl, fun answer => ⟨n, _, rfl⟩⟩
  | call q resume => exact .inr ⟨q, _, rfl, fun answer => ⟨n, resume answer, rfl⟩⟩

theorem exists_loop_zero : ∃ resume, loop 0 = .call .drain resume ∧
    ∀ batch, Lands batch (resume (.ok batch)) := by
  refine ⟨_, rfl, fun batch => ?_⟩
  cases batch with
  | nil => exact fun _ => rfl
  | cons m batch =>
      intro published
      cases published with
      | ok => exact .inl rfl
      | error e =>
          refine .inr fun returned => .inr ?_
          cases returned <;> rintro ⟨⟩

theorem run_concat (w : Clients σ) (events : List (Event σ)) (event : Event σ) :
    (works send).run w (events ++ [event]) =
      (works send).step ((works send).run w events) event := by
  simp only [Pool.Works.run, List.foldl_append, List.foldl_cons, List.foldl_nil]

theorem published_step (w : Clients σ) (hkept : ∀ i, event ≠ .abandon i) :
    w.state.published <+: ((works send).step w event).state.published := by
  show ∃ more, w.state.published ++ more = ((works send).step w event).state.published
  rcases step_cases send w event hkept with h | ⟨duty, -, h⟩ |
    ⟨i, -, duty, q, resume, -, -, h⟩ | ⟨cause, -, h⟩ <;> rw [h]
  · exact ⟨[], List.append_nil _⟩
  · exact ⟨[], List.append_nil _⟩
  · exact ⟨_, rfl⟩
  · cases cause <;> exact ⟨[], List.append_nil _⟩

/-- A moment of a run at which the next step of a loop is its last drain. -/
def LastDrain (send : List Metric → σ → Except Error Unit × σ) (w : Clients σ)
    (events : List (Event σ)) (i ticks : Nat) (v : Clients σ) : Prop :=
  ∃ before how after, events = before ++ .proceed i how :: after ∧
    v = (works send).run w before ∧ v.tasks[i]? = some ⟨.loop ticks, some (loop 0)⟩

/-- What was gathered at an earlier moment has been published on top of what had been, or
it will be before the work ends well. -/
def Settling (v w : Clients σ) (work : Work Unit) : Prop :=
  let batch := v.state.pending.metrics v.state.now
  (v.state.published <+: w.state.published ∧ Lands batch work) ∨
    (v.state.published ++ batch).Sublist w.state.published

theorem LastDrain.concat {i ticks : Nat} {v : Clients σ} (event : Event σ)
    (h : LastDrain send w events i ticks v) :
    LastDrain send w (events ++ [event]) i ticks v := by
  obtain ⟨before, how, after, rfl, hv⟩ := h
  exact ⟨before, how, after ++ [event], by rw [List.append_assoc, List.cons_append], hv⟩

namespace Settling

variable {v w' : Clients σ}

theorem mono (hpublished : w.state.published <+: w'.state.published) (h : Settling v w work) :
    Settling v w' work := by
  rcases h with ⟨hearlier, hlands⟩ | hlanded
  · exact .inl ⟨hearlier.trans hpublished, hlands⟩
  · exact .inr (hlanded.trans hpublished.sublist)

theorem answered {q : Request} {resume : Except Error q.Answer → Work Unit}
    (h : Settling v w (.call q resume)) (answer : Except Error q.Answer)
    (hpublished : w'.state.published = w.state.published ++ accepted q answer) :
    Settling v w' (resume answer) := by
  have hmore : w.state.published <+: w'.state.published := hpublished ▸ List.prefix_append _ _
  rcases h with ⟨hearlier, hlands⟩ | hlanded
  · rcases hlands answer with haccepted | hlands
    · refine .inr ?_
      rw [hpublished, haccepted]
      exact hearlier.sublist.append_right _
    · exact .inl ⟨hearlier.trans hmore, hlands⟩
  · exact .inr (hlanded.trans hmore.sublist)

theorem landed (h : Settling v w (.result (.ok ()))) :
    (v.state.published ++ v.state.pending.metrics v.state.now).Sublist w.state.published := by
  rcases h with ⟨hearlier, hlands⟩ | hlanded
  · rw [hlands rfl, List.append_nil]
    exact hearlier.sublist
  · exact hlanded

end Settling

/-- A loop is on the way to its last drain, or that is behind it. -/
def Staged (send : List Metric → σ → Except Error Unit × σ) (w : Clients σ)
    (events : List (Event σ)) (i ticks : Nat) (work : Work Unit) : Prop :=
  Ticking work ∨ ∃ v, LastDrain send w events i ticks v ∧
    Settling v ((works send).run w events) work

namespace Staged

variable {i ticks : Nat}

theorem stay (hkept : ∀ i, event ≠ .abandon i) (h : Staged send w events i ticks work) :
    Staged send w (events ++ [event]) i ticks work := by
  rcases h with h | ⟨v, hdrain, hsettling⟩
  · exact .inl h
  · refine .inr ⟨v, hdrain.concat event, ?_⟩
    rw [run_concat]
    exact hsettling.mono (published_step _ hkept)

theorem proceed {q : Request} {resume : Except Error q.Answer → Work Unit} {how : Treatment}
    {tasks : List (Pool.Task interface Duty Unit)}
    (htask : ((works send).run w events).tasks[i]? =
      some ⟨.loop ticks, some (.call q resume)⟩)
    (hstep : (works send).step ((works send).run w events) (.proceed i how) =
      ⟨(enter send q ((works send).run w events).state).2, tasks⟩)
    (h : Staged send w events i ticks (.call q resume)) :
    Staged send w (events ++ [.proceed i how]) i ticks
      (resume (enter send q ((works send).run w events).state).1) := by
  rcases h with h | ⟨v, hdrain, hsettling⟩
  · rcases ticking_cases h with hlast | ⟨q', resume', hcall, hticking⟩
    · -- this is the last drain
      obtain ⟨resume', hloop, hlands⟩ := exists_loop_zero
      cases hlast.trans hloop
      refine .inr ⟨(works send).run w events, ⟨events, how, [], rfl, rfl, ?_⟩, .inl ⟨?_, ?_⟩⟩
      · rw [htask, hloop]
      · rw [run_concat, hstep]
        exact List.prefix_append _ _
      · exact hlands _
    · cases hcall
      exact .inl (hticking _)
  · refine .inr ⟨v, hdrain.concat _, ?_⟩
    rw [run_concat, hstep]
    exact hsettling.answered _ rfl

end Staged

theorem staged_run {b : Books σ} (hkept : ∀ i, .abandon i ∉ events) {i ticks : Nat}
    (htask : ((works send).run ⟨b, []⟩ events).tasks[i]? = some ⟨.loop ticks, some work⟩) :
    Staged send ⟨b, []⟩ events i ticks work := by
  -- from the end: what is behind a loop is behind it at every later moment
  induction events using List.reverseRecOn generalizing work with
  | nil => cases htask
  | append_singleton events event ih =>
      have hearlier : ∀ i, .abandon i ∉ events := fun i hi => hkept i (List.mem_append_left _ hi)
      have hevent : ∀ i, event ≠ .abandon i := by
        rintro i rfl
        exact hkept i (List.mem_append_right _ (List.mem_singleton_self _))
      rw [run_concat] at htask
      rcases step_cases send ((works send).run ⟨b, []⟩ events) event hevent with
        h | ⟨duty, -, h⟩ | ⟨j, how, duty, q, resume, rfl, hj, h⟩ | ⟨cause, -, h⟩
      · rw [h] at htask
        exact (ih hearlier htask).stay hevent
      · rw [h, List.getElem?_append] at htask
        split at htask
        · exact (ih hearlier htask).stay hevent
        · cases List.mem_singleton.mp (List.mem_of_getElem? htask)
          exact .inl (ticking_loop ticks)
      · by_cases hij : j = i
        · subst hij
          have hlt := (List.getElem?_eq_some_iff.mp hj).1
          rw [h, List.getElem?_set_self hlt] at htask
          cases htask
          exact (ih hearlier hj).proceed hj h
        · rw [h, List.getElem?_set_ne hij] at htask
          exact (ih hearlier htask).stay hevent
      · rw [h] at htask
        exact (ih hearlier htask).stay hevent

theorem Balanced.sumsTo_idle (h : Balanced w) {i : Nat} {duty : Duty}
    (htask : w.tasks[i]? = some ⟨duty, some work⟩) (hidle : holding work = []) (series : Series) :
    SumsTo w.state.recorded series (tally Int64.toInt series w.state.published +
      inFlight Int64.toInt series (w.tasks.eraseIdx i) +
        (w.state.pending.counter series).toInt) := by
  have hhand : inHand ⟨duty, some work⟩ = [] := hidle
  have hflight : inFlight Int64.toInt series w.tasks =
      inFlight Int64.toInt series (w.tasks.eraseIdx i) := by
    rw [inFlight_eq htask, hhand, tally_nil, zero_add]
  rw [← hflight]
  exact h.sumsTo series

/-- Any clients work side by side while metrics are recorded, and each publication succeeds
or fails as a whole. At every moment the deltas of a series are published, in flight or
pending. When a loop has ended well, what was recorded before its last drain had been
published or was taken by that drain and is published, but for what the others had in flight
at that drain; when it has failed, what is not published is pending, but for what the others
have in flight. -/
theorem deltas_balance (send : List Metric → σ → Except Error Unit × σ) (now : Int64) (sink : σ)
    {events : List (Event σ)} (hkept : ∀ i, .abandon i ∉ events) :
    let start : Clients σ := ⟨{ now, sink }, []⟩
    let w := (works send).run start events
    let published := fun series => tally Int64.toInt series w.state.published
    let pending := fun series => (w.state.pending.counter series).toInt
    (∀ series, SumsTo w.state.recorded series
      (published series + inFlight Int64.toInt series w.tasks + pending series)) ∧
    (∀ i ticks, w.outcome i = some (.loop ticks, .ok ()) →
      ∃ before how after, events = before ++ .proceed i how :: after ∧
        let v := (works send).run start before
        let landed := v.state.published ++ v.state.pending.metrics v.state.now
        v.tasks[i]? = some ⟨.loop ticks, some (loop 0)⟩ ∧ landed.Sublist w.state.published ∧
        ∀ series, SumsTo v.state.recorded series
          (tally Int64.toInt series landed + inFlight Int64.toInt series (v.tasks.eraseIdx i))) ∧
    ∀ i ticks e, w.outcome i = some (.loop ticks, .error e) → ∀ series,
      SumsTo w.state.recorded series (published series +
        inFlight Int64.toInt series (w.tasks.eraseIdx i) + pending series) := by
  intro start w published pending
  have hstart : Balanced start := .start _ rfl rfl rfl
  have hnow : Balanced w := hstart.run hkept
  refine ⟨hnow.sumsTo, fun i ticks houtcome => ?_, fun i ticks e houtcome => ?_⟩
  · have htask := Pool.outcome_eq_some_iff.mp houtcome
    rcases staged_run hkept htask with
      hticking | ⟨_, ⟨before, how, after, rfl, rfl, hdrain⟩, hsettling⟩
    · rcases ticking_cases hticking with h | ⟨_, _, h, -⟩ <;> cases h
    · have hthen : Balanced ((works send).run start before) := hstart.run fun i hi =>
        hkept i (List.mem_append_left _ hi)
      refine ⟨before, how, after, rfl, hdrain, hsettling.landed, fun series => ?_⟩
      rw [tally_append, Pending.tally_metrics rfl, add_right_comm]
      exact hthen.sumsTo_idle hdrain (holding_loop 0) series
  · exact hnow.sumsTo_idle (Pool.outcome_eq_some_iff.mp houtcome) rfl

/-- Two loops, of which one publishes well and the other is refused, and two chains of
children that make one context. -/
def sampleEvents : List (Event Outbox) :=
  [.disturb (.increment [.singleton "app" "a"] "c" 2),
    .begin (.loop 0), .proceed 0 .served,
    .disturb (.increment [.singleton "app" "b", .singleton "app" "a"] "c" 3),
    .begin (.loop 1), .proceed 1 .served, .proceed 1 .served, .proceed 1 .served,
    .disturb (.sink { refusing := true }), .proceed 0 .served, .proceed 0 .served]

theorem sample_deltas_balance :
    let w := (works Outbox.send).run ⟨{ now := 100, sink := {} }, []⟩ sampleEvents
    let series : Series := ⟨"c", .singleton "app" "a"⟩
    (∀ i, .abandon i ∉ sampleEvents) ∧ w.outcome 1 = some (.loop 1, .ok ()) ∧
      w.outcome 0 = some (.loop 0, .error (.storageUnavailable "down")) ∧
      tally Int64.toInt series w.state.recorded = 3 + 0 + 2 := by
  intro w series
  have hkept : ∀ i, .abandon i ∉ sampleEvents := by simp [sampleEvents]
  have hrefused : w.outcome 0 = some (.loop 0, .error (.storageUnavailable "down")) := rfl
  obtain ⟨-, -, hfailed⟩ := deltas_balance Outbox.send 100 {} hkept
  obtain ⟨-, -, hsum⟩ := hfailed 0 0 _ hrefused series
  have hpublished : tally Int64.toInt series w.state.published = 3 := by decide +kernel
  have hflight : inFlight Int64.toInt series (w.tasks.eraseIdx 0) = 0 := by decide +kernel
  have hpending : (w.state.pending.counter series).toInt = 2 := by decide +kernel
  have hsize : Fits (tally magnitude series w.state.recorded) := by decide +kernel
  refine ⟨hkept, rfl, hrefused, (hsum hsize).trans ?_⟩
  rw [← hpublished, ← hflight, ← hpending]

/-- What another flush has in flight when a loop ends need neither be published, if the loop
ends well, nor pending, if it fails. -/
theorem last_flush_misses_batch_in_flight :
    let run := (works Outbox.send).run ⟨{ now := 100, sink := {} }, []⟩
    (¬ ∀ before how after i ticks series,
      (∀ j, .abandon j ∉ before ++ .proceed i how :: after) →
      (run before).tasks[i]? = some ⟨.loop ticks, some (loop 0)⟩ →
      (run (before ++ .proceed i how :: after)).outcome i = some (.loop ticks, .ok ()) →
      ∃ landed, landed.Sublist (run (before ++ .proceed i how :: after)).state.published ∧
        SumsTo (run before).state.recorded series (tally Int64.toInt series landed)) ∧
    ¬ ∀ events i ticks e series, (∀ j, .abandon j ∉ events) →
      (run events).outcome i = some (.loop ticks, .error e) →
      SumsTo (run events).state.recorded series
        (tally Int64.toInt series (run events).state.published +
          ((run events).state.pending.counter series).toInt) := by
  constructor
  · intro h
    obtain ⟨landed, hlanded, hwords, -⟩ := h
      [.disturb (.increment [] "c" 1), .begin (.loop 0), .proceed 0 .served, .begin (.loop 0)]
      .served [] 1 0 ⟨"c", .empty⟩ (by simp) rfl rfl
    cases List.sublist_nil.mp hlanded
    revert hwords
    decide +kernel
  · intro h
    obtain ⟨hwords, -⟩ := h
      [.disturb (.increment [] "c" 1), .begin (.loop 0), .proceed 0 .served,
        .disturb (.increment [] "d" 1), .disturb (.sink { refusing := true }), .begin (.loop 0),
        .proceed 1 .served, .proceed 1 .served, .proceed 1 .served]
      1 0 (.storageUnavailable "down") ⟨"c", .empty⟩ (by simp) rfl
    revert hwords
    decide +kernel

end Rollup.Flushing
