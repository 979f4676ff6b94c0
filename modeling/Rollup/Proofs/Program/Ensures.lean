import Mathlib.Data.List.Forall2
import Rollup.Proofs.Program.Discipline

namespace Rollup.Program

variable {I : Interface} {ι α β σ γ : Type} {D : Discipline ι σ γ} {handle : Handler I σ}
  {fallible : I.Request → Bool} {i : ι} {x : σ × γ}

/-- The program leaves the task's part of the state alone, and if it ends well, `Q`
holds. -/
def Ensures (D : Discipline ι σ γ) (handle : Handler I σ) (fallible : I.Request → Bool) (i : ι)
    (Q : α → σ × γ → Prop) (p : Program I α) (x : σ × γ) : Prop :=
  p.Safe D handle fallible i (fun outcome y => D.rely i x y ∧ ∀ a, outcome = .ok a → Q a y) x

variable {Q : α → σ × γ → Prop} {R : β → σ × γ → Prop}

theorem ensures_result {outcome : Except Error α}
    (h : ∀ y, D.rely i x y → D.inv y.1 y.2 → ∀ a, outcome = .ok a → Q a y) :
    (result (I := I) outcome).Ensures D handle fallible i Q x :=
  fun y hrely hinv => ⟨hrely, h y hrely hinv⟩

theorem ensures_request {q : I.Request} {Q : I.Answer q → σ × γ → Prop}
    (hQ : ∀ a y z, D.rely i y z → D.inv z.1 z.2 → Q a y → Q a z)
    (h : ∀ y, D.rely i x y → D.inv y.1 y.2 → ∃ g, D.inv (handle q y.1).2 g ∧
      (∀ j, D.rely j y ((handle q y.1).2, g)) ∧
      ∀ a, (handle q y.1).1 = .ok a → Q a ((handle q y.1).2, g)) :
    (request q).Ensures D handle fallible i Q x := by
  refine safe_request (fun y z hz _ hy => D.trans i x y z hy hz) hQ fun y hrely hinv => ?_
  obtain ⟨g, hnext, hmoves, hanswer⟩ := h y hrely hinv
  exact ⟨hrely, fun _ => ⟨g, hnext, fun j _ => hmoves j,
    D.trans i x y _ hrely (hmoves i), hanswer⟩⟩

theorem ensures_bind {p : Program I α} {f : α → Program I β}
    (hp : p.Ensures D handle fallible i Q x)
    (hf : ∀ a y, D.inv y.1 y.2 → D.rely i x y → Q a y →
      (f a).Ensures D handle fallible i R y) :
    (p.bind f).Ensures D handle fallible i R x := by
  refine safe_bind hp ?_ ?_
  · intro a y hinv ⟨hrely, hy⟩
    refine safe_mono ?_ (hf a y hinv hrely (hy a rfl))
    intro outcome z _ ⟨hz, hpost⟩
    exact ⟨D.trans i x y z hrely hz, hpost⟩
  · intro e y _ ⟨hrely, _⟩
    refine ⟨hrely, fun b hb => ?_⟩
    cases hb

theorem ensures_attempt {p : Program I α} (h : p.Ensures D handle fallible i Q x) :
    p.attempt.Ensures D handle fallible i (fun outcome y => ∀ a, outcome = .ok a → Q a y) x := by
  refine safe_attempt (safe_mono ?_ h)
  intro outcome y _ ⟨hrely, hy⟩
  refine ⟨hrely, fun outcome' houtcome => ?_⟩
  cases houtcome
  exact hy

theorem ensures_mapM {R : β → α → σ × γ → Prop} {f : β → Program I α} {l : List β}
    (hR : ∀ b a y z, D.rely i y z → R b a y → R b a z)
    (h : ∀ b ∈ l, ∀ y, D.inv y.1 y.2 → D.rely i x y → (f b).Ensures D handle fallible i (R b) y)
    (hx : D.inv x.1 x.2) :
    (l.mapM f).Ensures D handle fallible i
      (fun as y => List.Forall₂ (fun b a => R b a y) l as) x := by
  induction l generalizing x with
  | nil =>
      refine ensures_result fun y _ _ as has => ?_
      cases has
      exact .nil
  | cons b l ih =>
      simp only [List.mapM_cons, bind_eq, pure_eq]
      refine ensures_bind (h b (List.mem_cons_self ..) x hx (D.refl i x)) ?_
      intro a y hinv hrely ha
      refine ensures_bind (ih (fun b' hb' z hz hyz => h b' (List.mem_cons_of_mem _ hb') z hz
        (D.trans i x y z hrely hyz)) hinv) ?_
      intro as z _ hz has
      refine ensures_result fun w hw _ as' has' => ?_
      cases has'
      exact .cons (hR b a y w (D.trans i y z w hz hw) ha) (has.imp fun b' a' => hR b' a' z w hw)

theorem safe_bind_of_ensures {post : Except Error β → σ × γ → Prop} {p : Program I α}
    {f : α → Program I β} (hp : p.Ensures D handle fallible i Q x)
    (hf : ∀ a y, D.inv y.1 y.2 → D.rely i x y → Q a y → (f a).Safe D handle fallible i post y)
    (herror : ∀ e y, post (.error e) y) : (p.bind f).Safe D handle fallible i post x := by
  refine safe_bind hp ?_ ?_
  · intro a y hinv ⟨hrely, hy⟩
    exact hf a y hinv hrely (hy a rfl)
  · intro e y _ _
    exact herror e y

end Rollup.Program
