import Rollup.Proofs.Program.Pool

namespace Rollup.Pool.Works

open Program

variable {I : Interface} {δ ε σ α γ : Type} (W : Works I δ ε σ α)

def gather (s : σ) (duties : List δ) : Pool I δ σ α :=
  ⟨s, duties.map fun duty => ⟨duty, some (W.program duty)⟩⟩

def follow (w : Pool I δ σ α) (turns : List (Nat × Treatment)) : Pool I δ σ α :=
  W.run w (turns.map fun turn => .proceed turn.1 turn.2)

variable {W} {D : Discipline Nat σ γ} {post : Nat → δ → Except Error α → σ × γ → Prop}
  {w : Pool I δ σ α} {turns : List (Nat × Treatment)}

theorem follow_append (w : Pool I δ σ α) (before after : List (Nat × Treatment)) :
    W.follow w (before ++ after) = W.follow (W.follow w before) after := by
  simp only [follow, run, List.map_append, List.foldl_append]

theorem follow_concat (w : Pool I δ σ α) (turns : List (Nat × Treatment)) (i : Nat)
    (how : Treatment) :
    W.follow w (turns ++ [(i, how)]) = W.step (W.follow w turns) (.proceed i how) := by
  rw [follow_append]
  rfl

theorem mem_gather {s : σ} {duties : List δ} {i : Nat} {duty : δ} {p : Program I α}
    (h : (W.gather s duties).tasks[i]? = some ⟨duty, some p⟩) :
    duties[i]? = some duty ∧ p = W.program duty := by
  simp only [gather, List.getElem?_map, Option.map_eq_some_iff, Task.mk.injEq,
    Option.some.injEq] at h
  obtain ⟨_, hduty, rfl, rfl⟩ := h
  exact ⟨hduty, rfl⟩

@[simp] theorem length_follow (w : Pool I δ σ α) (turns : List (Nat × Treatment)) :
    (W.follow w turns).tasks.length = w.tasks.length := by
  induction turns using List.reverseRecOn with
  | nil => rfl
  | append_singleton turns turn ih =>
      rw [follow_concat, ← ih]
      simp only [step]
      split
      · exact List.length_set
      · rfl

theorem lt_of_outcome {s : σ} {duties : List δ} {i : Nat} {ended : δ × Except Error α}
    (h : (W.follow (W.gather s duties) turns).outcome i = some ended) : i < duties.length := by
  obtain ⟨hlt, -⟩ := List.getElem?_eq_some_iff.mp (outcome_eq_some_iff.mp h)
  simpa [gather] using hlt

theorem sound_gather {s : σ} {g : γ} {duties : List δ} (hinv : D.inv s g)
    (hsafe : ∀ i duty, duties[i]? = some duty →
      (W.program duty).Safe D W.handle W.fallible i (post i duty) (s, g)) :
    W.Sound D post (W.gather s duties) := by
  refine ⟨g, hinv, fun i duty p hi => ?_⟩
  obtain ⟨hduty, rfl⟩ := mem_gather hi
  exact hsafe i duty hduty

theorem sound_follow (turns : List (Nat × Treatment)) (hsound : W.Sound D post w)
    (hwithin : ∀ before after, turns = before ++ after → D.within (W.follow w before).state) :
    W.Sound D post (W.follow w turns) := by
  induction turns using List.reverseRecOn with
  | nil => exact hsound
  | append_singleton turns turn ih =>
      have hbefore := ih fun before after h => hwithin before (after ++ [turn]) (by
        rw [h, List.append_assoc])
      have hhere := hwithin (turns ++ [turn]) [] (List.append_nil _).symm
      rw [follow_concat] at hhere ⊢
      exact sound_proceed hbefore _ _ hhere

theorem inv_follow (inv : σ → Prop) (h : ∀ q s, inv s → inv (W.handle q s).2)
    (hstart : inv w.state) : inv (W.follow w turns).state := by
  induction turns using List.reverseRecOn with
  | nil => exact hstart
  | append_singleton turns turn ih =>
      rw [follow_concat]
      simp only [step]
      split
      · next duty p _ =>
        cases p with
        | result outcome => exact ih
        | call q resume =>
            rcases treat_cases W.handle W.fallible q (W.follow w turns).state turn.2 with
              hmet | ⟨_, hmet⟩ | ⟨_, hmet⟩ <;> simp only [advance, hmet]
            · exact h q _ ih
            · exact h q _ ih
            · exact ih
      · exact ih

/-- Where each step that leaves the bounds makes its task fail, and no task has failed, the
bounds hold. The form of the programs may be taken into account. -/
theorem within_follow {within : σ → Prop} (form : Program I α → Prop)
    (hform : ∀ (i : Nat) (duty : δ) (p : Program I α), w.tasks[i]? = some ⟨duty, some p⟩ → form p)
    (hstart : within w.state)
    (hstep : ∀ p s how, form p → within s →
      let next := p.advance W.handle W.fallible how s
      form next.1 ∧ (within next.2 ∨ ∃ e, next.1 = .result (.error e)))
    (hnone : ∀ i duty e, (W.follow w turns).outcome i ≠ some (duty, .error e)) :
    within (W.follow w turns).state := by
  suffices h : within (W.follow w turns).state ∧ ∀ (i : Nat) (duty : δ) (p : Program I α),
      (W.follow w turns).tasks[i]? = some ⟨duty, some p⟩ → form p from h.1
  -- from the end: a task that has failed stays failed, so that none has before the last turn
  induction turns using List.reverseRecOn with
  | nil => exact ⟨hstart, hform⟩
  | append_singleton turns turn ih =>
      obtain ⟨j, how⟩ := turn
      rw [follow_concat] at hnone ⊢
      obtain ⟨hbefore, hforms⟩ := ih fun i duty e h => hnone i duty e (W.outcome_step h _)
      simp only [step] at hnone ⊢
      split
      · next duty p hj =>
        simp only [hj] at hnone
        obtain ⟨hnext, hbounds⟩ := hstep p _ how (hforms j duty p hj) hbefore
        have hlt := (List.getElem?_eq_some_iff.mp hj).1
        refine ⟨hbounds.resolve_right ?_, fun i duty' p' hi => ?_⟩
        · rintro ⟨e, he⟩
          refine hnone j duty e (outcome_eq_some_iff.mpr ?_)
          simp only [List.getElem?_set_self hlt, he]
        · by_cases hij : i = j
          · subst hij
            simp only [List.getElem?_set_self hlt, Option.some.injEq, Task.mk.injEq] at hi
            exact hi.2 ▸ hnext
          · simp only [List.getElem?_set_ne (Ne.symm hij)] at hi
            exact hforms i duty' p' hi
      · exact ⟨hbefore, hforms⟩

theorem not_failed_of_append {before : List (Nat × Treatment)} (after : List (Nat × Treatment))
    (hnone : ∀ i duty e, (W.follow w (before ++ after)).outcome i ≠ some (duty, .error e))
    (i : Nat) (duty : δ) (e : Error) : (W.follow w before).outcome i ≠ some (duty, .error e) := by
  intro h
  refine hnone i duty e ?_
  rw [follow_append]
  exact W.outcome_run h _

end Rollup.Pool.Works
