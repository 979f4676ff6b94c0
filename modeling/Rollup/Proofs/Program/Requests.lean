import Rollup.Proofs.Program.Solo

namespace Rollup.Program

variable {I : Interface} {ι α β σ τ γ δ : Type}

/-- Every request of the program is allowed, as long as the answers are as expected, and
then its value is as asked. -/
def Confined (allowed : I.Request → Prop) (expected : (q : I.Request) → I.Answer q → Prop)
    (Q : α → Prop) : Program I α → Prop
  | result outcome => ∀ a, outcome = .ok a → Q a
  | call q resume => allowed q ∧ ∀ answer, (∀ a, answer = .ok a → expected q a) →
      (resume answer).Confined allowed expected Q

/-- Every request of the program is allowed, whatever the answers. -/
def Only (allowed : I.Request → Prop) (p : Program I α) : Prop :=
  p.Confined allowed (fun _ _ => True) fun _ => True

variable {allowed allowed' : I.Request → Prop} {expected : (q : I.Request) → I.Answer q → Prop}
  {Q Q' : α → Prop} {R : β → Prop} {p : Program I α} {f : α → Program I β}

theorem confined_result {outcome : Except Error α} (h : ∀ a, outcome = .ok a → Q a) :
    (result (I := I) outcome).Confined allowed expected Q := h

theorem confined_request {q : I.Request} (h : allowed q) :
    (request q).Confined allowed expected (expected q) :=
  ⟨h, fun _ h => h⟩

theorem confined_mono (hallowed : ∀ q, allowed q → allowed' q) (hQ : ∀ a, Q a → Q' a)
    (h : p.Confined allowed expected Q) : p.Confined allowed' expected Q' := by
  induction p with
  | result outcome => exact fun a ha => hQ a (h a ha)
  | call q resume ih => exact ⟨hallowed q h.1, fun answer ha => ih answer (h.2 answer ha)⟩

theorem confined_bind (hp : p.Confined allowed expected Q)
    (hf : ∀ a, Q a → (f a).Confined allowed expected R) :
    (p.bind f).Confined allowed expected R := by
  induction p with
  | result outcome =>
      cases outcome with
      | ok a => exact hf a (hp a rfl)
      | error e =>
          intro b hb
          cases hb
  | call q resume ih => exact ⟨hp.1, fun answer ha => ih answer (hp.2 answer ha)⟩

theorem confined_attempt (hp : p.Confined allowed expected Q) :
    p.attempt.Confined allowed expected fun _ => True := by
  induction p with
  | result outcome => exact fun _ _ => trivial
  | call q resume ih => exact ⟨hp.1, fun answer ha => ih answer (hp.2 answer ha)⟩

theorem confined_mapM {l : List β} {f : β → Program I α}
    (h : ∀ b ∈ l, (f b).Confined allowed expected Q) :
    (l.mapM f).Confined allowed expected fun as => ∀ a ∈ as, Q a := by
  induction l with
  | nil =>
      refine confined_result fun as has => ?_
      cases has
      simp
  | cons b l ih =>
      simp only [List.mapM_cons, bind_eq, pure_eq]
      refine confined_bind (h b (List.mem_cons_self ..)) fun a ha => ?_
      refine confined_bind (ih fun b' hb' => h b' (List.mem_cons_of_mem _ hb')) fun as has => ?_
      refine confined_result fun as' has' => ?_
      cases has'
      exact List.forall_mem_cons.mpr ⟨ha, has⟩

theorem only_result (outcome : Except Error α) : (result (I := I) outcome).Only allowed :=
  fun _ _ => trivial

theorem only_request {q : I.Request} (h : allowed q) : (request q).Only allowed :=
  ⟨h, fun _ _ _ _ => trivial⟩

theorem only_mono (hallowed : ∀ q, allowed q → allowed' q) (h : p.Only allowed) :
    p.Only allowed' :=
  confined_mono hallowed (fun _ h => h) h

theorem only_bind (hp : p.Only allowed) (hf : ∀ a, (f a).Only allowed) :
    (p.bind f).Only allowed :=
  confined_bind hp fun a _ => hf a

theorem only_attempt (hp : p.Only allowed) : p.attempt.Only allowed := confined_attempt hp

theorem only_mapM {l : List β} {f : β → Program I α} (h : ∀ b ∈ l, (f b).Only allowed) :
    (l.mapM f).Only allowed :=
  confined_mono (fun _ h => h) (fun _ _ => trivial) (confined_mapM h)

/-- After an answer that is fatal to it the program fails at once. -/
def FailsOn (fatal : (q : I.Request) → Except Error (I.Answer q) → Prop) : Program I α → Prop
  | result _ => True
  | call q resume => ∀ answer,
      (fatal q answer → ∃ e, resume answer = result (.error e)) ∧ (resume answer).FailsOn fatal

section FailsOn

variable {fatal : (q : I.Request) → Except Error (I.Answer q) → Prop}

theorem failsOn_of_only (h : p.Only fun q => ∀ answer, ¬ fatal q answer) : p.FailsOn fatal := by
  induction p with
  | result outcome => trivial
  | call q resume ih =>
      intro answer
      exact ⟨fun hfatal => absurd hfatal (h.1 answer), ih answer (h.2 answer fun _ _ => trivial)⟩

theorem failsOn_bind (hp : p.FailsOn fatal) (hf : ∀ a, (f a).FailsOn fatal) :
    (p.bind f).FailsOn fatal := by
  induction p with
  | result outcome =>
      cases outcome with
      | ok a => exact hf a
      | error e => trivial
  | call q resume ih =>
      intro answer
      obtain ⟨hfatal, hrest⟩ := hp answer
      refine ⟨fun h => ?_, ih answer hrest⟩
      obtain ⟨e, he⟩ := hfatal h
      exact ⟨e, congrArg (bind · f) he⟩

theorem failsOn_request_bind {q : I.Request} {f : I.Answer q → Program I β}
    (hf : ∀ a, (f a).FailsOn fatal)
    (hfatal : ∀ a, fatal q (.ok a) → ∃ e, f a = result (.error e)) :
    ((request q).bind f).FailsOn fatal := by
  intro answer
  cases answer with
  | error e => exact ⟨fun _ => ⟨e, rfl⟩, trivial⟩
  | ok a => exact ⟨hfatal a, hf a⟩

theorem failsOn_mapM {l : List β} {f : β → Program I α} (h : ∀ b, (f b).FailsOn fatal) :
    (l.mapM f).FailsOn fatal := by
  induction l with
  | nil => trivial
  | cons b l ih =>
      simp only [List.mapM_cons, bind_eq, pure_eq]
      exact failsOn_bind (h b) fun _ => failsOn_bind ih fun _ => trivial

end FailsOn

/-- A request that fails ends the program with its own failure. -/
def PassesOn : Program I α → Prop
  | result _ => True
  | call _ resume =>
      (∀ e, resume (.error e) = result (.error e)) ∧ ∀ a, (resume (.ok a)).PassesOn

theorem passesOn_request (q : I.Request) : (request q).PassesOn :=
  ⟨fun _ => rfl, fun _ => trivial⟩

theorem passesOn_bind (hp : p.PassesOn) (hf : ∀ a, (f a).PassesOn) : (p.bind f).PassesOn := by
  induction p with
  | result outcome =>
      cases outcome with
      | ok a => exact hf a
      | error e => trivial
  | call q resume ih =>
      exact ⟨fun e => congrArg (bind · f) (hp.1 e), fun a => ih _ (hp.2 a)⟩

theorem passesOn_mapM {l : List β} {f : β → Program I α} (h : ∀ b, (f b).PassesOn) :
    (l.mapM f).PassesOn := by
  induction l with
  | nil => trivial
  | cons b l ih =>
      simp only [List.mapM_cons, bind_eq, pure_eq]
      exact passesOn_bind (h b) fun _ => passesOn_bind ih fun _ => trivial

theorem Confined.run {handle : Handler I σ} {inv : σ → Prop} (h : p.Confined allowed expected Q)
    (hstep : ∀ q s, allowed q → inv s →
      inv (handle q s).2 ∧ ∀ a, (handle q s).1 = .ok a → expected q a)
    {s : σ} (hs : inv s) :
    inv (p.run handle s).2 ∧ ∀ a, (p.run handle s).1 = .ok a → Q a := by
  induction p generalizing s with
  | result outcome => exact ⟨hs, h⟩
  | call q resume ih =>
      obtain ⟨hnext, hanswer⟩ := hstep q s h.1 hs
      exact ih _ (h.2 _ hanswer) hnext

theorem Only.run {handle : Handler I σ} (inv : σ → Prop) (h : p.Only allowed)
    (hstep : ∀ q s, allowed q → inv s → inv (handle q s).2) {s : σ} (hs : inv s) :
    inv (p.run handle s).2 :=
  (Confined.run h (fun q s hq hs => ⟨hstep q s hq hs, fun _ _ => trivial⟩) hs).1

/-- Two runs go alike that stay related under the allowed requests. -/
theorem Only.run_rel {handle : Handler I σ} {handle' : Handler I τ} {rel : σ → τ → Prop}
    (h : p.Only allowed)
    (hstep : ∀ q s t, allowed q → rel s t →
      (handle q s).1 = (handle' q t).1 ∧ rel (handle q s).2 (handle' q t).2)
    {s : σ} {t : τ} (hrel : rel s t) :
    (p.run handle s).1 = (p.run handle' t).1 ∧ rel (p.run handle s).2 (p.run handle' t).2 := by
  induction p generalizing s t with
  | result outcome => exact ⟨rfl, hrel⟩
  | call q resume ih =>
      obtain ⟨hanswer, hnext⟩ := hstep q s t h.1 hrel
      rw [run_call, run_call, ← hanswer]
      exact ih _ (h.2 _ fun _ _ => trivial) hnext

section Safe

variable {D : Discipline ι σ γ} {handle : Handler I σ} {fallible : I.Request → Bool} {i : ι}

theorem Confined.safe {R : σ × γ → Prop} (h : p.Confined allowed expected Q)
    (hR : ∀ x y, D.rely i x y → R x → R y)
    (hstep : ∀ q s g, allowed q → D.inv s g → R (s, g) → ∃ g', D.inv (handle q s).2 g' ∧
      (∀ j, j ≠ i → D.rely j (s, g) ((handle q s).2, g')) ∧ R ((handle q s).2, g') ∧
      ∀ a, (handle q s).1 = .ok a → expected q a) {x : σ × γ} (hx : R x) :
    p.Safe D handle fallible i (fun outcome y => R y ∧ ∀ a, outcome = .ok a → Q a) x := by
  induction p generalizing x with
  | result outcome => exact fun y hy _ => ⟨hR x y hy hx, h⟩
  | call q resume ih =>
      intro y hy hinv how _
      have hheld := hR x y hy hx
      obtain ⟨g, hnext, hothers, hheld', hanswer⟩ := hstep q y.1 y.2 h.1 hinv hheld
      rcases treat_cases handle fallible q y.1 how with hmet | ⟨detail, hmet⟩ | ⟨detail, hmet⟩
      · rw [hmet]
        exact ⟨g, hnext, hothers, ih _ (h.2 _ hanswer) hheld'⟩
      · rw [hmet]
        exact ⟨g, hnext, hothers, ih _ (h.2 _ (by rintro a ⟨⟩)) hheld'⟩
      · rw [hmet]
        exact ⟨y.2, hinv, fun j _ => D.refl j y, ih _ (h.2 _ (by rintro a ⟨⟩)) hheld⟩

theorem Confined.keeps {inv : σ → Prop} (h : p.Confined allowed expected Q)
    (hstep : ∀ q s, allowed q → inv s →
      inv (handle q s).2 ∧ ∀ a, (handle q s).1 = .ok a → expected q a) :
    p.Keeps handle fallible inv Q := by
  intro s _
  refine safe_mono (fun _ _ _ h => h.2) (Confined.safe (R := fun _ => True) h
    (fun _ _ _ h => h) (fun q s _ hq hs _ => ?_) trivial)
  obtain ⟨hnext, hanswer⟩ := hstep q s hq hs
  exact ⟨(), hnext, fun j hj => absurd rfl hj, trivial, hanswer⟩

end Safe

theorem Safe.lift {D : Discipline ι σ γ} {D' : Discipline ι τ δ} {handle : Handler I σ}
    {handle' : Handler I τ} {fallible : I.Request → Bool} {i : ι} (view : τ → σ)
    (ghost : δ → γ) (keep : δ → Prop) {post : Except Error α → σ × γ → Prop} {y : τ × δ}
    (h : p.Safe D handle fallible i post (view y.1, ghost y.2)) (hp : p.Only allowed)
    (hkeep : keep y.2)
    (hhandle : ∀ q s, handle q (view s) = ((handle' q s).1, view (handle' q s).2))
    (hinv : ∀ s g, D'.inv s g → D.inv (view s) (ghost g))
    (hrely : ∀ x y, D'.rely i x y → D.rely i (view x.1, ghost x.2) (view y.1, ghost y.2) ∧
      (keep x.2 → keep y.2))
    (hstep : ∀ q s g s', allowed q → D'.inv s g → keep g → s' = s ∨ s' = (handle' q s).2 →
      D'.within s' → D.within (view s') ∧ ∀ g', D.inv (view s') g' →
        (∀ j, j ≠ i → D.rely j (view s, ghost g) (view s', g')) →
        ∃ g'', ghost g'' = g' ∧ D'.inv s' g'' ∧ keep g'' ∧
          ∀ j, j ≠ i → D'.rely j (s, g) (s', g'')) :
    p.Safe D' handle' fallible i
      (fun outcome y => post outcome (view y.1, ghost y.2) ∧ keep y.2) y := by
  induction p generalizing y with
  | result outcome =>
      intro z hz hinv'
      obtain ⟨hz, hkept⟩ := hrely y z hz
      exact ⟨h _ hz (hinv z.1 z.2 hinv'), hkept hkeep⟩
  | call q resume ih =>
      intro z hz hinv' how hwithin
      obtain ⟨hz, hkept⟩ := hrely y z hz
      have hmet : treat handle fallible q (view z.1) how =
          ((treat handle' fallible q z.1 how).1, view (treat handle' fallible q z.1 how).2) := by
        cases how <;> simp only [treat, hhandle] <;> split <;> rfl
      have hnext : (treat handle' fallible q z.1 how).2 = z.1 ∨
          (treat handle' fallible q z.1 how).2 = (handle' q z.1).2 := by
        rcases treat_cases handle' fallible q z.1 how with h | ⟨_, h⟩ | ⟨_, h⟩ <;> rw [h]
        · exact .inr rfl
        · exact .inr rfl
        · exact .inl rfl
      obtain ⟨hhere, hthere⟩ := hstep q z.1 z.2 _ hp.1 hinv' (hkept hkeep) hnext hwithin
      have hserved := h _ hz (hinv z.1 z.2 hinv') how
      rw [hmet] at hserved
      obtain ⟨g', hg', hothers, hrest⟩ := hserved hhere
      obtain ⟨g'', rfl, hinv'', hkeep', hothers'⟩ := hthere g' hg' hothers
      exact ⟨g'', hinv'', hothers', ih _ hrest (hp.2 _ fun _ _ => trivial) hkeep'⟩

end Rollup.Program
