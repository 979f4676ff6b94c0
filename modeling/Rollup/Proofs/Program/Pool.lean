import Mathlib.Data.List.Induction
import Rollup.Proofs.Program.Discipline

namespace Rollup

open Program

/-- A task and what is left of it to do, which is nothing once it was given up. -/
structure Pool.Task (I : Interface) (δ α : Type) where
  duty : δ
  rest : Option (Program I α)

structure Pool (I : Interface) (δ σ α : Type) where
  state : σ
  tasks : List (Pool.Task I δ α) := []

namespace Pool

variable {I : Interface} {δ ε σ α γ : Type}

inductive Event (δ ε : Type) where
  | begin (duty : δ)
  /-- A task that has waited for another one takes over its outcome. -/
  | join (duty : δ) (leader : Nat)
  | proceed (task : Nat) (how : Treatment)
  | abandon (task : Nat)
  | disturb (cause : ε)

/-- The event is not a step that is reported as failed. -/
def Event.Served : Event δ ε → Prop
  | .proceed _ how => how = .served
  | _ => True

instance (event : Event δ ε) : Decidable event.Served :=
  match event with
  | .begin _ => isTrue trivial
  | .join _ _ => isTrue trivial
  | .proceed _ how => inferInstanceAs (Decidable (how = .served))
  | .abandon _ => isTrue trivial
  | .disturb _ => isTrue trivial

/-- How tasks work: the program behind a duty, and what answers its requests. -/
structure Works (I : Interface) (δ ε σ α : Type) where
  handle : Handler I σ
  fallible : I.Request → Bool
  program : δ → Program I α
  /-- Whether a task may take over the outcome of a task with the second duty. -/
  adopts : δ → δ → Bool := fun _ _ => false
  disturb : ε → σ → σ

def outcome (w : Pool I δ σ α) (i : Nat) : Option (δ × Except Error α) :=
  match w.tasks[i]? with
  | some ⟨duty, some (.result outcome)⟩ => some (duty, outcome)
  | _ => none

/-- All tasks that began have ended, none of them given up. -/
def Done (w : Pool I δ σ α) : Prop := ∀ i, i < w.tasks.length → (w.outcome i).isSome = true

instance (w : Pool I δ σ α) : Decidable w.Done :=
  inferInstanceAs (Decidable (∀ i, i < w.tasks.length → (w.outcome i).isSome = true))

theorem outcome_eq_some_iff {w : Pool I δ σ α} {i : Nat} {duty : δ} {ended : Except Error α} :
    w.outcome i = some (duty, ended) ↔ w.tasks[i]? = some ⟨duty, some (.result ended)⟩ := by
  simp only [outcome]
  constructor
  · intro h
    split at h
    · next htask =>
      cases h
      exact htask
    · cases h
  · intro h
    rw [h]

namespace Works

variable (W : Works I δ ε σ α)

def step (w : Pool I δ σ α) : Event δ ε → Pool I δ σ α
  | .begin duty => { w with tasks := w.tasks ++ [⟨duty, some (W.program duty)⟩] }
  | .join duty leader =>
      match w.outcome leader with
      | some (duty', outcome) =>
          if W.adopts duty duty' then
            { w with tasks := w.tasks ++ [⟨duty, some (.result outcome)⟩] }
          else w
      | none => w
  | .proceed i how =>
      match w.tasks[i]? with
      | some ⟨duty, some p⟩ =>
          let next := p.advance W.handle W.fallible how w.state
          ⟨next.2, w.tasks.set i ⟨duty, some next.1⟩⟩
      | _ => w
  | .abandon i =>
      match w.tasks[i]? with
      | some ⟨duty, some (.call ..)⟩ => { w with tasks := w.tasks.set i ⟨duty, none⟩ }
      | _ => w
  | .disturb cause => { w with state := W.disturb cause w.state }

def run (w : Pool I δ σ α) (events : List (Event δ ε)) : Pool I δ σ α :=
  events.foldl W.step w

theorem outcome_append {w : Pool I δ σ α} {i : Nat} {duty : δ} {ended : Except Error α}
    (h : w.outcome i = some (duty, ended)) (task : Task I δ α) :
    Pool.outcome { w with tasks := w.tasks ++ [task] } i = some (duty, ended) := by
  rw [outcome_eq_some_iff] at h ⊢
  obtain ⟨hlt, -⟩ := List.getElem?_eq_some_iff.mp h
  rw [List.getElem?_append_left hlt, h]

theorem outcome_step {w : Pool I δ σ α} {i : Nat} {duty : δ} {ended : Except Error α}
    (h : w.outcome i = some (duty, ended)) (event : Event δ ε) :
    (W.step w event).outcome i = some (duty, ended) := by
  have htask := outcome_eq_some_iff.mp h
  cases event with
  | begin duty => exact outcome_append h _
  | join duty leader =>
      simp only [step]
      split
      · split
        · exact outcome_append h _
        · exact h
      · exact h
  | proceed j how =>
      simp only [step]
      split
      · next duty' p hj =>
        rw [outcome_eq_some_iff]
        by_cases hij : i = j
        · subst hij
          obtain ⟨hlt, -⟩ := List.getElem?_eq_some_iff.mp hj
          cases hj.symm.trans htask
          exact List.getElem?_set_self hlt
        · rw [List.getElem?_set_ne (Ne.symm hij), htask]
      · exact h
  | abandon j =>
      simp only [step]
      split
      · next duty' q resume hj =>
        rw [outcome_eq_some_iff]
        by_cases hij : i = j
        · subst hij
          cases hj.symm.trans htask
        · rw [List.getElem?_set_ne (Ne.symm hij), htask]
      · exact h
  | disturb cause => exact h

theorem outcome_run {w : Pool I δ σ α} {i : Nat} {duty : δ} {ended : Except Error α}
    (h : w.outcome i = some (duty, ended)) (events : List (Event δ ε)) :
    (W.run w events).outcome i = some (duty, ended) := by
  induction events generalizing w with
  | nil => exact h
  | cons event events ih => exact ih (W.outcome_step h event)

/-- Every task is safe, and the tasks agree on one view of the state. What a task is to
achieve may depend on which task it is. -/
def Sound (D : Discipline Nat σ γ) (post : Nat → δ → Except Error α → σ × γ → Prop)
    (w : Pool I δ σ α) : Prop :=
  ∃ g, D.inv w.state g ∧ ∀ i duty (p : Program I α), w.tasks[i]? = some ⟨duty, some p⟩ →
    p.Safe D W.handle W.fallible i (post i duty) (w.state, g)

/-- What makes every run sound: programs are safe from their first step on, an adopted
outcome is as good as one's own, and disturbances are among what tasks rely on. -/
structure Keeps (D : Discipline Nat σ γ) (post : Nat → δ → Except Error α → σ × γ → Prop) :
    Prop where
  begin : ∀ i duty s g, D.inv s g → ∃ g', D.inv s g' ∧
    (∀ j, j ≠ i → D.rely j (s, g) (s, g')) ∧
    (W.program duty).Safe D W.handle W.fallible i (post i duty) (s, g')
  join : ∀ i leader duty duty' outcome s g, W.adopts duty duty' = true → D.inv s g →
    post leader duty' outcome (s, g) → ∃ g', D.inv s g' ∧
      (∀ j, j ≠ i → D.rely j (s, g) (s, g')) ∧
      (Program.result (I := I) outcome).Safe D W.handle W.fallible i (post i duty) (s, g')
  disturb : ∀ cause s g, D.inv s g → ∃ g', D.inv (W.disturb cause s) g' ∧
    ∀ j, D.rely j (s, g) (W.disturb cause s, g')
  within_handle : ∀ q s, D.within (W.handle q s).2 → D.within s
  within_disturb : ∀ cause s, D.within (W.disturb cause s) → D.within s

/-- Sound, and what holds of a task until it begins holds of all that have not begun. -/
def Carried (D : Discipline Nat σ γ) (post : Nat → δ → Except Error α → σ × γ → Prop)
    (idle : Nat → σ × γ → Prop) (w : Pool I δ σ α) : Prop :=
  ∃ g, D.inv w.state g ∧ (∀ i duty (p : Program I α), w.tasks[i]? = some ⟨duty, some p⟩ →
    p.Safe D W.handle W.fallible i (post i duty) (w.state, g)) ∧
    ∀ j, w.tasks.length ≤ j → idle j (w.state, g)

/-- As `Keeps`, where tasks may count on what holds of them until they begin. -/
structure Carries (D : Discipline Nat σ γ) (post : Nat → δ → Except Error α → σ × γ → Prop)
    (idle : Nat → σ × γ → Prop) : Prop where
  begin : ∀ i duty s g, D.inv s g → idle i (s, g) → ∃ g', D.inv s g' ∧
    (∀ j, j ≠ i → D.rely j (s, g) (s, g')) ∧
    (W.program duty).Safe D W.handle W.fallible i (post i duty) (s, g')
  join : ∀ i leader duty duty' outcome s g, W.adopts duty duty' = true → D.inv s g →
    idle i (s, g) → post leader duty' outcome (s, g) → ∃ g', D.inv s g' ∧
      (∀ j, j ≠ i → D.rely j (s, g) (s, g')) ∧
      (Program.result (I := I) outcome).Safe D W.handle W.fallible i (post i duty) (s, g')
  disturb : ∀ cause s g, D.inv s g → ∃ g', D.inv (W.disturb cause s) g' ∧
    ∀ j, D.rely j (s, g) (W.disturb cause s, g')
  stays : ∀ i x y, D.rely i x y → idle i x → idle i y
  within_handle : ∀ q s, D.within (W.handle q s).2 → D.within s
  within_disturb : ∀ cause s, D.within (W.disturb cause s) → D.within s

variable {W} {D : Discipline Nat σ γ} {post : Nat → δ → Except Error α → σ × γ → Prop}
  {idle : Nat → σ × γ → Prop}

theorem carried_true {w : Pool I δ σ α} :
    W.Carried D post (fun _ _ => True) w ↔ W.Sound D post w := by
  simp [Carried, Sound]

theorem Keeps.carries (h : W.Keeps D post) : W.Carries D post fun _ _ => True where
  begin i duty s g hinv _ := h.begin i duty s g hinv
  join i leader duty duty' outcome s g hadopts hinv _ :=
    h.join i leader duty duty' outcome s g hadopts hinv
  disturb := h.disturb
  stays _ _ _ _ _ := trivial
  within_handle := h.within_handle
  within_disturb := h.within_disturb

theorem within_treat (hcarries : W.Carries D post idle) (q : I.Request) (s : σ) (how : Treatment)
    (h : D.within (treat W.handle W.fallible q s how).2) : D.within s := by
  rcases treat_cases W.handle W.fallible q s how with hmet | ⟨detail, hmet⟩ | ⟨detail, hmet⟩
  · exact hcarries.within_handle q s (hmet ▸ h)
  · rw [hmet] at h
    exact hcarries.within_handle q s h
  · rw [hmet] at h
    exact h

theorem within_step (hcarries : W.Carries D post idle) (w : Pool I δ σ α) (event : Event δ ε)
    (h : D.within (W.step w event).state) : D.within w.state := by
  cases event with
  | begin duty => exact h
  | join duty leader =>
      simp only [step] at h
      split at h
      · split at h <;> exact h
      · exact h
  | proceed i how =>
      simp only [step] at h
      split at h
      · next duty p _ =>
        cases p with
        | result outcome => exact h
        | call q resume => exact within_treat hcarries q w.state how h
      · exact h
  | abandon i =>
      simp only [step] at h
      split at h <;> exact h
  | disturb cause => exact hcarries.within_disturb cause w.state h

theorem carried_append (hstays : ∀ i x y, D.rely i x y → idle i x → idle i y)
    {w : Pool I δ σ α} {duty : δ} {p : Program I α} {g g' : γ} (hinv : D.inv w.state g')
    (hsafe : ∀ i duty (p : Program I α), w.tasks[i]? = some ⟨duty, some p⟩ →
      p.Safe D W.handle W.fallible i (post i duty) (w.state, g))
    (hidle : ∀ j, w.tasks.length ≤ j → idle j (w.state, g))
    (hothers : ∀ j, j ≠ w.tasks.length → D.rely j (w.state, g) (w.state, g'))
    (hnew : p.Safe D W.handle W.fallible w.tasks.length (post w.tasks.length duty)
      (w.state, g')) :
    W.Carried D post idle { w with tasks := w.tasks ++ [⟨duty, some p⟩] } := by
  refine ⟨g', hinv, ?_, ?_⟩
  · intro i duty₁ p₁ hi
    rcases Nat.lt_trichotomy i w.tasks.length with hlt | rfl | hgt
    · rw [List.getElem?_append_left hlt] at hi
      exact safe_of_rely (hsafe i duty₁ p₁ hi) (hothers i (Nat.ne_of_lt hlt))
    · simp only [List.getElem?_concat_length, Option.some.injEq, Task.mk.injEq] at hi
      obtain ⟨rfl, rfl⟩ := hi
      exact hnew
    · have hlength : (w.tasks ++ [(⟨duty, some p⟩ : Task I δ α)]).length ≤ i := by
        rw [List.length_append, List.length_singleton]
        omega
      rw [List.getElem?_eq_none hlength] at hi
      cases hi
  · intro j hj
    have hlt : w.tasks.length < j := Nat.lt_of_succ_le (by simpa using hj)
    exact hstays j _ _ (hothers j (Nat.ne_of_gt hlt)) (hidle j (Nat.le_of_lt hlt))

theorem carried_proceed (hstays : ∀ i x y, D.rely i x y → idle i x → idle i y)
    {w : Pool I δ σ α} (hcarried : W.Carried D post idle w) (i : Nat) (how : Treatment)
    (hwithin : D.within (W.step w (.proceed i how)).state) :
    W.Carried D post idle (W.step w (.proceed i how)) := by
  obtain ⟨g, hinv, hsafe, hidle⟩ := hcarried
  simp only [step] at hwithin ⊢
  split
  · next duty p hi =>
    simp only [hi] at hwithin
    obtain ⟨g', hinv', hothers, hrest⟩ := safe_advance (hsafe i duty p hi) hinv how hwithin
    have hlt := (List.getElem?_eq_some_iff.mp hi).1
    refine ⟨g', hinv', ?_, ?_⟩
    · intro j duty₁ p₁ hj
      by_cases hij : j = i
      · subst hij
        simp only [List.getElem?_set_self hlt, Option.some.injEq, Task.mk.injEq] at hj
        obtain ⟨rfl, rfl⟩ := hj
        exact hrest
      · simp only [List.getElem?_set_ne (Ne.symm hij)] at hj
        exact safe_of_rely (hsafe j duty₁ p₁ hj) (hothers j hij)
    · intro j hj
      rw [List.length_set] at hj
      exact hstays j _ _ (hothers j (Nat.ne_of_gt (Nat.lt_of_lt_of_le hlt hj))) (hidle j hj)
  · exact ⟨g, hinv, hsafe, hidle⟩

theorem sound_proceed {w : Pool I δ σ α} (hsound : W.Sound D post w) (i : Nat) (how : Treatment)
    (hwithin : D.within (W.step w (.proceed i how)).state) :
    W.Sound D post (W.step w (.proceed i how)) :=
  carried_true.mp <|
    carried_proceed (fun _ _ _ _ _ => trivial) (carried_true.mpr hsound) i how hwithin

theorem carried_step (hcarries : W.Carries D post idle) {w : Pool I δ σ α}
    (hcarried : W.Carried D post idle w) (event : Event δ ε)
    (hwithin : D.within (W.step w event).state) :
    W.Carried D post idle (W.step w event) := by
  obtain ⟨g, hinv, hsafe, hidle⟩ := hcarried
  have hnew := hidle w.tasks.length (Nat.le_refl _)
  cases event with
  | begin duty =>
      obtain ⟨g', hinv', hothers, hprogram⟩ :=
        hcarries.begin w.tasks.length duty w.state g hinv hnew
      exact carried_append hcarries.stays hinv' hsafe hidle hothers hprogram
  | join duty leader =>
      simp only [step]
      split
      · next duty' outcome hleader =>
        split
        · next hadopts =>
          have hpost := hsafe _ _ _ (outcome_eq_some_iff.mp hleader) _ (D.refl _ _) hinv
          obtain ⟨g', hinv', hothers, hadopted⟩ :=
            hcarries.join w.tasks.length leader duty _ _ w.state g hadopts hinv hnew hpost
          exact carried_append hcarries.stays hinv' hsafe hidle hothers hadopted
        · exact ⟨g, hinv, hsafe, hidle⟩
      · exact ⟨g, hinv, hsafe, hidle⟩
  | proceed i how =>
      exact carried_proceed hcarries.stays ⟨g, hinv, hsafe, hidle⟩ i how hwithin
  | abandon i =>
      simp only [step]
      split
      · next duty q resume hi =>
        refine ⟨g, hinv, ?_, ?_⟩
        · intro j duty₁ p₁ hj
          by_cases hij : j = i
          · subst hij
            have hlt := (List.getElem?_eq_some_iff.mp hi).1
            simp [List.getElem?_set_self hlt] at hj
          · simp only [List.getElem?_set_ne (Ne.symm hij)] at hj
            exact hsafe j duty₁ p₁ hj
        · simpa using hidle
      · exact ⟨g, hinv, hsafe, hidle⟩
  | disturb cause =>
      obtain ⟨g', hinv', hrely⟩ := hcarries.disturb cause w.state g hinv
      exact ⟨g', hinv', fun i duty p hi => safe_of_rely (hsafe i duty p hi) (hrely i),
        fun j hj => hcarries.stays j _ _ (hrely j) (hidle j hj)⟩

theorem carried_run (hcarries : W.Carries D post idle) {w : Pool I δ σ α}
    (hcarried : W.Carried D post idle w) (events : List (Event δ ε))
    (hwithin : D.within (W.run w events).state) : W.Carried D post idle (W.run w events) := by
  induction events using List.reverseRecOn with
  | nil => exact hcarried
  | append_singleton events event ih =>
      simp only [run, List.foldl_append, List.foldl_cons, List.foldl_nil] at hwithin ih ⊢
      exact carried_step hcarries (ih (within_step hcarries _ event hwithin)) event hwithin

/-- A run from a state that meets the invariant ends in one that does, every outcome in it
is as its duty asks, and nothing has changed for the tasks that have not begun. -/
theorem run_carries (hcarries : W.Carries D post idle) {s : σ} {g : γ} (hinv : D.inv s g)
    (hidle : ∀ i, idle i (s, g)) (events : List (Event δ ε))
    (hwithin : D.within (W.run ⟨s, []⟩ events).state) :
    ∃ g', D.inv (W.run ⟨s, []⟩ events).state g' ∧
      (∀ i duty outcome, (W.run ⟨s, []⟩ events).outcome i = some (duty, outcome) →
        post i duty outcome ((W.run ⟨s, []⟩ events).state, g')) ∧
      ∀ i, (W.run ⟨s, []⟩ events).tasks.length ≤ i →
        idle i ((W.run ⟨s, []⟩ events).state, g') := by
  have hstart : W.Carried D post idle ⟨s, []⟩ := ⟨g, hinv, by simp, fun i _ => hidle i⟩
  obtain ⟨g', hinv', hsafe, hidle'⟩ := carried_run hcarries hstart events hwithin
  refine ⟨g', hinv', ?_, hidle'⟩
  intro i duty outcome hi
  exact hsafe _ _ _ (outcome_eq_some_iff.mp hi) _ (D.refl _ _) hinv'

theorem run_keeps (hkeeps : W.Keeps D post) {s : σ} {g : γ} (hinv : D.inv s g)
    (events : List (Event δ ε)) (hwithin : D.within (W.run ⟨s, []⟩ events).state) :
    ∃ g', D.inv (W.run ⟨s, []⟩ events).state g' ∧
      ∀ i duty outcome, (W.run ⟨s, []⟩ events).outcome i = some (duty, outcome) →
        post i duty outcome ((W.run ⟨s, []⟩ events).state, g') := by
  obtain ⟨g', hinv', hpost, -⟩ :=
    run_carries hkeeps.carries hinv (fun _ => trivial) events hwithin
  exact ⟨g', hinv', hpost⟩

theorem run_of_served (fallible : I.Request → Bool) {events : List (Event δ ε)}
    (hserved : ∀ event ∈ events, event.Served) (w : Pool I δ σ α) :
    ({ W with fallible } : Works I δ ε σ α).run w events = W.run w events := by
  induction events generalizing w with
  | nil => rfl
  | cons event events ih =>
      have hevent : ({ W with fallible } : Works I δ ε σ α).step w event = W.step w event := by
        cases event with
        | proceed i how =>
            obtain rfl : how = .served := hserved _ List.mem_cons_self
            simp only [step]
            split
            · next duty p _ => cases p <;> rfl
            · rfl
        | _ => rfl
      have hrest := ih (fun event h => hserved event (List.mem_cons_of_mem _ h)) (W.step w event)
      simpa only [run, List.foldl_cons, hevent] using hrest

end Works

end Pool

end Rollup
