import Rollup.Proofs.Program.Discipline

namespace Rollup.Program

variable {I : Interface} {α β σ : Type}

def solo (inv : σ → Prop) : Discipline Unit σ Unit where
  inv s _ := inv s
  rely _ x y := x = y
  refl _ _ := rfl
  trans _ _ _ _ h h' := h.trans h'

def steps (handle : Handler I σ) (fallible : I.Request → Bool) (p : Program I α) (s : σ)
    (hows : List Treatment) : Program I α × σ :=
  hows.foldl (fun x how => x.1.advance handle fallible how x.2) (p, s)

/-- Whatever becomes of its requests, a program keeps an invariant, and its value is as
asked. -/
def Keeps (handle : Handler I σ) (fallible : I.Request → Bool) (inv : σ → Prop)
    (Q : α → Prop) (p : Program I α) : Prop :=
  ∀ s, inv s → p.Safe (solo inv) handle fallible () (fun outcome _ => ∀ a, outcome = .ok a → Q a)
    (s, ())

variable {handle : Handler I σ} {fallible : I.Request → Bool} {inv : σ → Prop} {Q : α → Prop}

theorem keeps_result {outcome : Except Error α} (h : ∀ a, outcome = .ok a → Q a) :
    (result (I := I) outcome).Keeps handle fallible inv Q :=
  fun _ _ _ _ _ => h

theorem keeps_bind {p : Program I α} {f : α → Program I β} {R : β → Prop}
    (hp : p.Keeps handle fallible inv Q) (hf : ∀ a, Q a → (f a).Keeps handle fallible inv R) :
    (p.bind f).Keeps handle fallible inv R := by
  intro s hs
  refine safe_bind (hp s hs) ?_ ?_
  · intro a y hy ha
    exact hf a (ha a rfl) y.1 hy
  · intro e y _ _ b h
    cases h

theorem keeps_attempt {p : Program I α} (hp : p.Keeps handle fallible inv Q) :
    p.attempt.Keeps handle fallible inv fun _ => True := by
  intro s hs
  exact safe_attempt (safe_mono (fun _ _ _ _ _ _ => trivial) (hp s hs))

theorem keeps_mapM {l : List β} {f : β → Program I α}
    (h : ∀ b ∈ l, (f b).Keeps handle fallible inv Q) :
    (l.mapM f).Keeps handle fallible inv fun as => ∀ a ∈ as, Q a := by
  induction l with
  | nil =>
      refine keeps_result fun as has => ?_
      cases has
      simp
  | cons b l ih =>
      simp only [List.mapM_cons, bind_eq, pure_eq]
      refine keeps_bind (h b (List.mem_cons_self ..)) fun a ha => ?_
      refine keeps_bind (ih fun b' hb' => h b' (List.mem_cons_of_mem _ hb')) fun as has => ?_
      refine keeps_result fun as' has' => ?_
      cases has'
      exact List.forall_mem_cons.mpr ⟨ha, has⟩

theorem inv_steps {p : Program I α} (hp : p.Keeps handle fallible inv Q) {s : σ} (hs : inv s)
    (hows : List Treatment) : inv (p.steps handle fallible s hows).2 := by
  have hsafe := hp s hs
  clear hp
  induction hows generalizing p s with
  | nil => exact hs
  | cons how hows ih =>
      obtain ⟨_, hinv, -, hrest⟩ := safe_advance hsafe hs how trivial
      exact ih hinv hrest

theorem exists_steps_eq_run (handle : Handler I σ) (fallible : I.Request → Bool)
    (p : Program I α) (s : σ) : ∃ n, p.steps handle fallible s (List.replicate n .served) =
      (result (p.run handle s).1, (p.run handle s).2) := by
  induction p generalizing s with
  | result outcome => exact ⟨0, rfl⟩
  | call q resume ih =>
      obtain ⟨n, hsteps⟩ := ih (handle q s).1 (handle q s).2
      refine ⟨n + 1, ?_⟩
      rw [List.replicate_succ]
      exact hsteps

end Rollup.Program
