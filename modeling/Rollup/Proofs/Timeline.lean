import Mathlib.Data.List.Nodup
import Rollup.Timeline

namespace Rollup

namespace BackgroundTask

variable {α : Type}

def entry (t : BackgroundTask α) : Nat × α := (t.id, t.job)

theorem entry_mk (id due : Nat) (job : α) (restless : Bool) :
    entry { id, due, job, restless } = (id, job) := rfl

-- not `rfl`: comparing the two tasks themselves would work out when they are due
theorem entry_again (t : BackgroundTask α) (pause : Duration) :
    (t.again pause).entry = t.entry :=
  entry_mk t.id _ t.job _

theorem first?_perm {ts rest : List (BackgroundTask α)} {t : BackgroundTask α}
    (h : first? ts = some (t, rest)) : ts.Perm (t :: rest) := by
  induction ts generalizing t rest with
  | nil => simp [first?] at h
  | cons u us ih =>
      simp only [first?] at h
      cases hus : first? us with
      | none =>
          rw [hus] at h
          obtain ⟨rfl, rfl⟩ : u = t ∧ [] = rest := by simpa using h
          rw [first?_eq_none.mp hus]
      | some p =>
          obtain ⟨v, others⟩ := p
          rw [hus] at h
          by_cases hv : v.due < u.due
          · obtain ⟨rfl, rfl⟩ : v = t ∧ u :: others = rest := by simpa [hv] using h
            exact ((ih hus).cons u).trans (.swap v u others)
          · obtain ⟨rfl, rfl⟩ : u = t ∧ us = rest := by simpa [hv] using h
            exact .refl _

end BackgroundTask

namespace Timeline

open BackgroundTask

variable {α β σ : Type} {t : Timeline α β} {work : α → σ → Next β × σ}

/-- The live tasks by number, each with its job. -/
def roll (t : Timeline α β) : List (Nat × α) := t.tasks.map entry

theorem alive_iff {id : Nat} : t.alive id = true ↔ ∃ job, (id, job) ∈ t.roll := by
  simp only [alive, roll, List.any_eq_true, beq_iff_eq, List.mem_map, entry, Prod.mk.injEq]
  constructor
  · rintro ⟨x, hx, rfl⟩
    exact ⟨x.job, x, hx, rfl, rfl⟩
  · rintro ⟨job, x, hx, hid, -⟩
    exact ⟨x, hx, hid⟩

theorem roll_perm_of_first? {task : BackgroundTask α} {rest : List (BackgroundTask α)}
    (h : first? t.tasks = some (task, rest)) : t.roll.Perm (task.entry :: rest.map entry) :=
  (first?_perm h).map entry

theorem roll_start (t : Timeline α β) (delay : Duration) (job : α) :
    (t.start delay job).2.roll = t.roll ++ [(t.started, job)] := by
  simp [roll, start, entry]

theorem roll_cancel (t : Timeline α β) (id : Nat) :
    (t.cancel id).roll = t.roll.filter (·.1 ≠ id) := by
  simp only [roll, cancel, List.filter_map]
  congr 1
  exact List.filter_congr fun x _ => by
    by_cases hid : x.id = id <;> simp [entry, hid]

theorem mem_roll_startAll (delay : Duration) (jobs : List α) {t : Timeline α β} {x : Nat × α}
    (hx : x ∈ (t.startAll delay jobs).2.roll) : x ∈ t.roll ∨ x.2 ∈ jobs := by
  induction jobs generalizing t with
  | nil => exact .inl hx
  | cons job jobs ih =>
      rcases ih (t := (t.start delay job).2) hx with hold | hnew
      · rw [roll_start, List.mem_append, List.mem_singleton] at hold
        refine hold.imp_right fun hx => ?_
        rw [hx]
        exact List.mem_cons_self
      · exact .inr (List.mem_cons_of_mem job hnew)

theorem mem_roll_of_find? {id : Nat} {x : BackgroundTask α} (h : t.find? id = some x) :
    x.id = id ∧ (id, x.job) ∈ t.roll := by
  unfold find? at h
  have hid : x.id = id := by simpa using List.find?_some h
  exact ⟨hid, hid ▸ List.mem_map_of_mem (f := entry) (List.mem_of_find?_eq_some h)⟩

theorem roll_depart (t : Timeline α β) (x : BackgroundTask α) :
    (t.depart x).roll = t.roll.filter (·.1 ≠ x.id) :=
  roll_cancel t x.id

theorem roll_rejoin (t : Timeline α β) (id : Nat) (pause : Duration) (job : α) :
    (t.rejoin id pause job).roll = t.roll ++ [(id, job)] := by
  rw [roll, rejoin, List.map_append, List.map_singleton, entry_again]
  rfl

theorem started_run (work : α → σ → Next β × σ) (limit : Nat) (t : Timeline α β) (s : σ) :
    (run work limit t s).1.started = t.started := by
  fun_induction run work limit t s with
  | case1 | case4 => rfl
  | case2 => assumption
  | case3 => assumption

theorem roll_run (work : α → σ → Next β × σ) (limit : Nat) (t : Timeline α β) (s : σ) :
    (run work limit t s).1.roll ⊆ t.roll := by
  fun_induction run work limit t s with
  | case1 | case4 => exact List.Subset.refl _
  | case2 t s task rest h due pause s' hwork this ih =>
      -- the task goes to the end of the queue with its number and its job
      intro x hx
      have hmoved : x ∈ (rest ++ [task.again pause]).map entry := ih hx
      rw [List.map_append, List.mem_append, List.map_singleton, List.mem_singleton,
        entry_again] at hmoved
      exact (roll_perm_of_first? h).mem_iff.mpr (List.mem_cons.mpr hmoved.symm)
  | case3 t s task rest h due outcome s' hwork this ih =>
      exact fun x hx => (roll_perm_of_first? h).mem_iff.mpr (List.mem_cons_of_mem _ (ih hx))

section First

variable {limit : Nat} {x : BackgroundTask α} {rest : List (BackgroundTask α)} {s s' : σ}

theorem run_of_wait {pause : Duration} (hfirst : first? t.tasks = some (x, rest))
    (due : x.due ≤ limit) (hwork : work x.job s = (.wait pause, s')) :
    run work limit t s = run work limit { t with tasks := rest ++ [x.again pause] } s' := by
  conv => lhs; unfold run
  split
  · rename_i hnone
    rw [hnone] at hfirst
    cases hfirst
  · rename_i y others hy
    obtain ⟨rfl, rfl⟩ : y = x ∧ others = rest := by simpa [hy] using hfirst
    rw [dif_pos due, hwork]

theorem run_of_finish {outcome : β} (hfirst : first? t.tasks = some (x, rest))
    (due : x.due ≤ limit) (hwork : work x.job s = (.finish outcome, s')) :
    run work limit t s =
      run work limit { t with tasks := rest, outcomes := t.outcomes.insert x.id outcome } s' := by
  conv => lhs; unfold run
  split
  · rename_i hnone
    rw [hnone] at hfirst
    cases hfirst
  · rename_i y others hy
    obtain ⟨rfl, rfl⟩ : y = x ∧ others = rest := by simpa [hy] using hfirst
    rw [dif_pos due, hwork]

theorem run_of_late (hfirst : first? t.tasks = some (x, rest)) (hlate : limit < x.due) :
    run work limit t s = ({ t with time := max t.time limit }, s) := by
  unfold run
  split
  · rfl
  · rename_i y others hy
    obtain ⟨rfl, rfl⟩ : y = x ∧ others = rest := by simpa [hy] using hfirst
    rw [dif_neg (Nat.not_le.mpr hlate)]

theorem run_of_single {pause : Duration} (htasks : t.tasks = [x]) (due : x.due ≤ limit)
    (hwork : work x.job s = (.wait pause, s')) (hlate : limit < (x.again pause).due) :
    (run work limit t s).2 = s' := by
  have hfirst (y : BackgroundTask α) : first? [y] = some (y, []) := rfl
  rw [run_of_wait (htasks ▸ hfirst x) due hwork, run_of_late (hfirst _) hlate]

end First

theorem roll_rouse (time : Nat) (t : Timeline α β) :
    ({ t with tasks := t.tasks.map (rouse time) } : Timeline α β).roll = t.roll := by
  simp only [roll, List.map_map]
  refine List.map_congr_left fun x _ => ?_
  simp only [Function.comp, rouse, entry]
  split <;> rfl

theorem roll_settle (work : α → σ → Next β × σ) (t : Timeline α β) (s : σ) :
    (settle work t s).1.roll ⊆ t.roll := by
  have hrun := roll_run work t.time { t with tasks := t.tasks.map (rouse t.time) } s
  rwa [roll_rouse] at hrun

/-- The book names every live task, and nothing but numbers that have been given out, each of
them once. -/
structure Booked (t : Timeline α β) (book : List Nat) : Prop where
  apart : book.Nodup
  below : ∀ id ∈ book, id < t.started
  known : ∀ x ∈ t.roll, x.1 ∈ book

namespace Booked

variable {book book' : List Nat}

theorem perm (h : t.Booked book) (hperm : book.Perm book') : t.Booked book' where
  apart := hperm.nodup_iff.mp h.apart
  below := fun id hid => h.below id (hperm.mem_iff.mpr hid)
  known := fun x hx => hperm.mem_iff.mp (h.known x hx)

theorem start (h : t.Booked book) (delay : Duration) (job : α) :
    (t.start delay job).2.Booked (t.started :: book) where
  apart := List.nodup_cons.mpr ⟨fun hid => Nat.lt_irrefl _ (h.below _ hid), h.apart⟩
  below := fun id hid => by
    rcases List.mem_cons.mp hid with rfl | hid
    · exact Nat.lt_succ_self _
    · exact Nat.lt_succ_of_lt (h.below id hid)
  known := fun x hx => by
    rw [roll_start] at hx
    rcases List.mem_append.mp hx with hx | hx
    · exact List.mem_cons_of_mem _ (h.known x hx)
    · rw [List.mem_singleton.mp hx]
      exact List.mem_cons_self

theorem startAll (delay : Duration) (jobs : List α) {t : Timeline α β} {book : List Nat}
    (h : t.Booked book) :
    (t.startAll delay jobs).2.Booked ((t.startAll delay jobs).1 ++ book) := by
  induction jobs generalizing t book with
  | nil => exact h
  | cons job jobs ih => exact (ih (h.start delay job)).perm List.perm_middle

theorem cancel {id : Nat} (h : t.Booked (id :: book)) : (t.cancel id).Booked book where
  apart := (List.nodup_cons.mp h.apart).2
  below := fun id' hid => h.below id' (List.mem_cons_of_mem _ hid)
  known := fun x hx => by
    rw [roll_cancel, List.mem_filter, decide_eq_true_iff] at hx
    exact (List.mem_cons.mp (h.known x hx.1)).resolve_left hx.2

end Booked

end Timeline

end Rollup
