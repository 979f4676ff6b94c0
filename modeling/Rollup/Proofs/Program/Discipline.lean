import Rollup.Program

/-!
Programs whose steps interleave and fail. A program is safe for a task when every step that it
can take, served or failed, keeps the invariant and what the other tasks rely on. Safety
composes along `bind`.
-/

namespace Rollup.Program

variable {I J : Interface} {ι α β σ τ γ : Type}

/-- What becomes of a request: it is served, or it is reported as failed, either before
or after it took effect. -/
inductive Treatment where
  | served
  | refused (detail : String)
  | unheard (detail : String)
  deriving DecidableEq, Repr

/-- Meets a request. One that cannot fail is served whatever the treatment. -/
def treat (handle : Handler I σ) (fallible : I.Request → Bool) (q : I.Request) (s : σ) :
    Treatment → Except Error (I.Answer q) × σ
  | .served => handle q s
  | .refused detail =>
      if fallible q then (.error (.storageUnavailable detail), s) else handle q s
  | .unheard detail =>
      if fallible q then (.error (.storageUnavailable detail), (handle q s).2)
      else handle q s

theorem treat_cases (handle : Handler I σ) (fallible : I.Request → Bool) (q : I.Request) (s : σ)
    (how : Treatment) : treat handle fallible q s how = handle q s ∨
      (∃ detail, treat handle fallible q s how =
        (.error (.storageUnavailable detail), (handle q s).2)) ∨
      ∃ detail, treat handle fallible q s how = (.error (.storageUnavailable detail), s) := by
  cases how with
  | served => exact .inl rfl
  | refused detail =>
      simp only [treat]
      split
      · exact .inr (.inr ⟨detail, rfl⟩)
      · exact .inl rfl
  | unheard detail =>
      simp only [treat]
      split
      · exact .inr (.inl ⟨detail, rfl⟩)
      · exact .inl rfl

def advance (handle : Handler I σ) (fallible : I.Request → Bool) (how : Treatment) :
    Program I α → σ → Program I α × σ
  | result outcome, s => (result outcome, s)
  | call q resume, s =>
      let met := treat handle fallible q s how
      (resume met.1, met.2)

/-- What tasks agree on. Of the states only those `within` bounds are considered; the
second component of a state is seen by the proof alone. -/
structure Discipline (ι σ γ : Type) where
  within : σ → Prop := fun _ => True
  inv : σ → γ → Prop
  rely : ι → σ × γ → σ × γ → Prop
  refl : ∀ i x, rely i x x
  trans : ∀ i x y z, rely i x y → rely i y z → rely i x z

section Safe

variable (D : Discipline ι σ γ) (handle : Handler I σ) (fallible : I.Request → Bool) (i : ι)

/-- Each step keeps the invariant and what the other tasks rely on, and the outcome
meets the postcondition. Before each step the others may have moved. -/
def Safe (post : Except Error α → σ × γ → Prop) : Program I α → σ × γ → Prop
  | result outcome, x => ∀ y, D.rely i x y → D.inv y.1 y.2 → post outcome y
  | call q resume, x => ∀ y, D.rely i x y → D.inv y.1 y.2 → ∀ how,
      D.within (treat handle fallible q y.1 how).2 →
        ∃ g, D.inv (treat handle fallible q y.1 how).2 g ∧
          (∀ j, j ≠ i → D.rely j y ((treat handle fallible q y.1 how).2, g)) ∧
          Safe post (resume (treat handle fallible q y.1 how).1)
            ((treat handle fallible q y.1 how).2, g)

variable {D handle fallible i}

theorem safe_of_rely {post : Except Error α → σ × γ → Prop} {p : Program I α} {x y : σ × γ}
    (h : p.Safe D handle fallible i post x) (hrely : D.rely i x y) :
    p.Safe D handle fallible i post y := by
  cases p with
  | result outcome => exact fun z hz => h z (D.trans i x y z hrely hz)
  | call q resume => exact fun z hz => h z (D.trans i x y z hrely hz)

theorem safe_of_forall {post : Except Error α → σ × γ → Prop} {p : Program I α} {x : σ × γ}
    (h : ∀ y, D.rely i x y → D.inv y.1 y.2 → p.Safe D handle fallible i post y) :
    p.Safe D handle fallible i post x := by
  cases p with
  | result outcome => exact fun y hrely hinv => h y hrely hinv y (D.refl i y) hinv
  | call q resume => exact fun y hrely hinv => h y hrely hinv y (D.refl i y) hinv

theorem safe_advance {post : Except Error α → σ × γ → Prop} {p : Program I α} {x : σ × γ}
    (h : p.Safe D handle fallible i post x) (hinv : D.inv x.1 x.2) (how : Treatment)
    (hwithin : D.within (p.advance handle fallible how x.1).2) :
    ∃ g, D.inv (p.advance handle fallible how x.1).2 g ∧
      (∀ j, j ≠ i → D.rely j x ((p.advance handle fallible how x.1).2, g)) ∧
      (p.advance handle fallible how x.1).1.Safe D handle fallible i post
        ((p.advance handle fallible how x.1).2, g) := by
  cases p with
  | result outcome => exact ⟨x.2, hinv, fun j _ => D.refl j x, h⟩
  | call q resume => exact h x (D.refl i x) hinv how hwithin

theorem safe_mono {post post' : Except Error α → σ × γ → Prop} {p : Program I α} {x : σ × γ}
    (hpost : ∀ outcome y, D.inv y.1 y.2 → post outcome y → post' outcome y)
    (h : p.Safe D handle fallible i post x) : p.Safe D handle fallible i post' x := by
  induction p generalizing x with
  | result outcome => exact fun y hrely hinv => hpost outcome y hinv (h y hrely hinv)
  | call q resume ih =>
      intro y hrely hinv how hwithin
      obtain ⟨g, hinv', hothers, hrest⟩ := h y hrely hinv how hwithin
      exact ⟨g, hinv', hothers, ih _ hrest⟩

theorem safe_bind {m : Except Error α → σ × γ → Prop} {post : Except Error β → σ × γ → Prop}
    {p : Program I α} {f : α → Program I β} {x : σ × γ}
    (h : p.Safe D handle fallible i m x)
    (hok : ∀ a y, D.inv y.1 y.2 → m (.ok a) y → (f a).Safe D handle fallible i post y)
    (herror : ∀ e y, D.inv y.1 y.2 → m (.error e) y → post (.error e) y) :
    (p.bind f).Safe D handle fallible i post x := by
  induction p generalizing x with
  | result outcome =>
      cases outcome with
      | ok a => exact safe_of_forall fun y hrely hinv => hok a y hinv (h y hrely hinv)
      | error e => exact fun y hrely hinv => herror e y hinv (h y hrely hinv)
  | call q resume ih =>
      intro y hrely hinv how hwithin
      obtain ⟨g, hinv', hothers, hrest⟩ := h y hrely hinv how hwithin
      exact ⟨g, hinv', hothers, ih _ hrest⟩

theorem safe_frame {R : σ × γ → Prop} (hR : ∀ j x y, D.rely j x y → R x → R y)
    (hother : ∃ j, j ≠ i) {post : Except Error α → σ × γ → Prop} {p : Program I α} {x : σ × γ}
    (h : p.Safe D handle fallible i post x) (hx : R x) :
    p.Safe D handle fallible i (fun outcome y => post outcome y ∧ R y) x := by
  obtain ⟨j, hj⟩ := hother
  induction p generalizing x with
  | result outcome => exact fun y hrely hinv => ⟨h y hrely hinv, hR i x y hrely hx⟩
  | call q resume ih =>
      intro y hrely hinv how hwithin
      obtain ⟨g, hinv', hothers, hrest⟩ := h y hrely hinv how hwithin
      exact ⟨g, hinv', hothers, ih _ hrest (hR j y _ (hothers j hj) (hR i x y hrely hx))⟩

theorem safe_attempt {post : Except Error (Except Error α) → σ × γ → Prop} {p : Program I α}
    {x : σ × γ} (h : p.Safe D handle fallible i (fun outcome => post (.ok outcome)) x) :
    p.attempt.Safe D handle fallible i post x := by
  induction p generalizing x with
  | result outcome => exact h
  | call q resume ih =>
      intro y hrely hinv how hwithin
      obtain ⟨g, hinv', hothers, hrest⟩ := h y hrely hinv how hwithin
      exact ⟨g, hinv', hothers, ih _ hrest⟩

theorem safe_request {q : I.Request} {R : σ × γ → Prop} {Q : I.Answer q → σ × γ → Prop}
    (hR : ∀ y z, D.rely i y z → D.inv z.1 z.2 → R y → R z)
    (hQ : ∀ a y z, D.rely i y z → D.inv z.1 z.2 → Q a y → Q a z)
    (h : ∀ y, D.rely i x y → D.inv y.1 y.2 → R y ∧ (D.within (handle q y.1).2 →
      ∃ g, D.inv (handle q y.1).2 g ∧ (∀ j, j ≠ i → D.rely j y ((handle q y.1).2, g)) ∧
        R ((handle q y.1).2, g) ∧
        ∀ a, (handle q y.1).1 = .ok a → Q a ((handle q y.1).2, g))) :
    (request q).Safe D handle fallible i
      (fun outcome y => R y ∧ ∀ a, outcome = .ok a → Q a y) x := by
  intro y hrely hinv how hwithin
  obtain ⟨hhere, hthere⟩ := h y hrely hinv
  rcases treat_cases handle fallible q y.1 how with hmet | ⟨detail, hmet⟩ | ⟨detail, hmet⟩
  · rw [hmet] at hwithin ⊢
    obtain ⟨g, hnext, hothers, hR', hQ'⟩ := hthere hwithin
    refine ⟨g, hnext, hothers, fun z hz hinv' => ⟨hR _ z hz hinv' hR', ?_⟩⟩
    intro a ha
    exact hQ a _ z hz hinv' (hQ' a ha)
  · rw [hmet] at hwithin ⊢
    obtain ⟨g, hnext, hothers, hR', -⟩ := hthere hwithin
    refine ⟨g, hnext, hothers, fun z hz hinv' => ⟨hR _ z hz hinv' hR', ?_⟩⟩
    intro a ha
    cases ha
  · rw [hmet]
    refine ⟨y.2, hinv, fun j _ => D.refl j y, fun z hz hinv' => ⟨hR _ z hz hinv' hhere, ?_⟩⟩
    intro a ha
    cases ha

theorem safe_answer {q : I.Request} {Q : I.Answer q → σ × γ → Prop}
    (hQ : ∀ a y z, D.rely i y z → D.inv z.1 z.2 → Q a y → Q a z)
    (h : ∀ y, D.rely i x y → D.inv y.1 y.2 → D.within (handle q y.1).2 →
      ∃ g, D.inv (handle q y.1).2 g ∧ (∀ j, j ≠ i → D.rely j y ((handle q y.1).2, g)) ∧
        ∀ a, (handle q y.1).1 = .ok a → Q a ((handle q y.1).2, g)) :
    (request q).Safe D handle fallible i (fun outcome y => ∀ a, outcome = .ok a → Q a y) x := by
  refine safe_mono (fun _ _ _ h => h.2) (safe_request (R := fun _ => True)
    (fun _ _ _ _ _ => trivial) hQ fun y hy hinv => ⟨trivial, fun hwithin => ?_⟩)
  obtain ⟨g, hnext, hothers, hanswer⟩ := h y hy hinv hwithin
  exact ⟨g, hnext, hothers, trivial, hanswer⟩

end Safe

end Rollup.Program
