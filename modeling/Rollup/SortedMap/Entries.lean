import Rollup.KeyOrder

namespace Rollup.Entries

open KeyOrder

variable {κ α : Type}

def filterKeys (p : κ → Bool) (l : List (κ × α)) : List (κ × α) := l.filter fun e => p e.1

theorem filterKeys_append (p : κ → Bool) (l r : List (κ × α)) :
    filterKeys p (l ++ r) = filterKeys p l ++ filterKeys p r := List.filter_append ..

theorem filterKeys_cons (p : κ → Bool) (k : κ) (v : α) (l : List (κ × α)) :
    filterKeys p ((k, v) :: l) = if p k then (k, v) :: filterKeys p l else filterKeys p l :=
  List.filter_cons

variable [KeyOrder κ]

abbrev Ascending (l : List (κ × α)) : Prop := l.Pairwise fun a b => before a.1 b.1 = true

theorem nodup_keys {l : List (κ × α)} (h : Ascending l) : (l.map Prod.fst).Nodup := by
  rw [List.Nodup, List.pairwise_map]
  exact h.imp ne_of_before

def find (k : κ) : List (κ × α) → Option α
  | [] => none
  | (k', v) :: rest => if !before k k' && !before k' k then some v else find k rest

theorem find_cons_self (k : κ) (v : α) (rest : List (κ × α)) :
    find k ((k, v) :: rest) = some v := by
  simp [find, KeyOrder.irrefl]

theorem find_cons_ne {k k' : κ} (h : k ≠ k') (v : α) (rest : List (κ × α)) :
    find k ((k', v) :: rest) = find k rest := by
  simp only [find]
  split
  · next h' =>
    simp only [Bool.and_eq_true, Bool.not_eq_true'] at h'
    exact absurd (connected _ _ h'.1 h'.2) h
  · rfl

theorem find_append (k : κ) (l r : List (κ × α)) :
    find k (l ++ r) = (find k l).or (find k r) := by
  induction l with
  | nil => simp [find]
  | cons e l ih =>
    simp only [List.cons_append, find]
    split <;> simp [ih]

theorem find_eq_none {k : κ} {l : List (κ × α)} (h : ∀ e ∈ l, k ≠ e.1) : find k l = none := by
  induction l with
  | nil => rfl
  | cons e l ih =>
    rw [find_cons_ne (h e (by simp))]
    exact ih fun e' he' => h e' (by simp [he'])

theorem find_eq_none_of_before {k : κ} {l : List (κ × α)} (h : ∀ e ∈ l, before k e.1 = true) :
    find k l = none :=
  find_eq_none fun e he => ne_of_before (h e he)

theorem find_eq_none_of_after {k : κ} {l : List (κ × α)} (h : ∀ e ∈ l, before e.1 k = true) :
    find k l = none :=
  find_eq_none fun e he => (ne_of_before (h e he)).symm

theorem mem_of_find {k : κ} {v : α} {l : List (κ × α)} (h : find k l = some v) :
    (k, v) ∈ l := by
  induction l with
  | nil => simp [find] at h
  | cons e l ih =>
    obtain ⟨k', v'⟩ := e
    by_cases hk : k = k'
    · subst hk
      rw [find_cons_self, Option.some.injEq] at h
      simp [h]
    · rw [find_cons_ne hk] at h
      simp [ih h]

theorem find_of_mem {k : κ} {v : α} {l : List (κ × α)} (hl : Ascending l)
    (h : (k, v) ∈ l) : find k l = some v := by
  induction l with
  | nil => simp at h
  | cons e l ih =>
    obtain ⟨k', v'⟩ := e
    have hcons := List.pairwise_cons.mp hl
    rcases List.mem_cons.mp h with h | h
    · cases h
      exact find_cons_self ..
    · rw [find_cons_ne (ne_of_before (hcons.1 _ h)).symm]
      exact ih hcons.2 h

theorem eq_of_find_eq {l r : List (κ × α)} (hl : Ascending l) (hr : Ascending r)
    (h : ∀ k, find k l = find k r) : l = r := by
  induction l generalizing r with
  | nil =>
    cases r with
    | nil => rfl
    | cons e r =>
      have := h e.1
      rw [find_cons_self] at this
      simp [find] at this
  | cons e l ih =>
    obtain ⟨k, v⟩ := e
    cases r with
    | nil =>
      have := h k
      rw [find_cons_self] at this
      simp [find] at this
    | cons e' r =>
      obtain ⟨k', v'⟩ := e'
      have hl' := List.pairwise_cons.mp hl
      have hr' := List.pairwise_cons.mp hr
      have hkk' : k = k' := by
        refine connected k k' ?_ ?_
        · cases hb : before k k' with
          | false => rfl
          | true =>
            have hk := h k
            rw [find_cons_self, find_eq_none_of_before] at hk
            · simp at hk
            · intro e he
              rcases List.mem_cons.mp he with rfl | he
              · exact hb
              · exact trans _ _ _ hb (hr'.1 e he)
        · cases hb : before k' k with
          | false => rfl
          | true =>
            have hk := h k'
            rw [find_cons_self, find_eq_none_of_before] at hk
            · simp at hk
            · intro e he
              rcases List.mem_cons.mp he with rfl | he
              · exact hb
              · exact trans _ _ _ hb (hl'.1 e he)
      subst hkk'
      have hv := h k
      rw [find_cons_self, find_cons_self, Option.some.injEq] at hv
      subst hv
      refine congrArg _ (ih hl'.2 hr'.2 fun k₁ => ?_)
      by_cases hk : k₁ = k
      · subst hk
        rw [find_eq_none_of_before hl'.1, find_eq_none_of_before hr'.1]
      · simpa [find_cons_ne hk] using h k₁

def insert (k : κ) (v : α) : List (κ × α) → List (κ × α)
  | [] => [(k, v)]
  | (k', v') :: rest =>
    if before k k' then (k, v) :: (k', v') :: rest
    else if before k' k then (k', v') :: insert k v rest
    else (k, v) :: rest

theorem mem_insert {k : κ} {v : α} {l : List (κ × α)} {e : κ × α}
    (h : e ∈ insert k v l) : e = (k, v) ∨ e ∈ l := by
  induction l with
  | nil => simpa [insert] using h
  | cons e' l ih =>
    simp only [insert] at h
    split at h
    · simpa using h
    · split at h
      · rcases List.mem_cons.mp h with rfl | h
        · simp
        · rcases ih h with h | h <;> simp [h]
      · rcases List.mem_cons.mp h with rfl | h <;> simp [*]

theorem ascending_insert (k : κ) (v : α) {l : List (κ × α)} (hl : Ascending l) :
    Ascending (insert k v l) := by
  induction l with
  | nil => simp [Ascending, insert]
  | cons e l ih =>
    obtain ⟨k', v'⟩ := e
    have hcons := List.pairwise_cons.mp hl
    simp only [insert]
    split
    · next hb =>
      refine List.pairwise_cons.mpr ⟨fun e he => ?_, hl⟩
      rcases List.mem_cons.mp he with rfl | he
      · exact hb
      · exact trans _ _ _ hb (hcons.1 e he)
    · split
      · next hb =>
        refine List.pairwise_cons.mpr ⟨fun e he => ?_, ih hcons.2⟩
        rcases mem_insert he with rfl | he
        · exact hb
        · exact hcons.1 e he
      · next h₁ h₂ =>
        obtain rfl := connected k k' (by simpa using h₁) (by simpa using h₂)
        exact List.pairwise_cons.mpr ⟨hcons.1, hcons.2⟩

theorem find_insert (k : κ) (v : α) (l : List (κ × α)) (k₁ : κ) [Decidable (k₁ = k)] :
    find k₁ (insert k v l) = if k₁ = k then some v else find k₁ l := by
  induction l with
  | nil =>
    by_cases h : k₁ = k
    · subst h
      simp [insert, find_cons_self]
    · simp [insert, find_cons_ne h, h, find]
  | cons e l ih =>
    obtain ⟨k', v'⟩ := e
    simp only [insert]
    split
    · by_cases h : k₁ = k
      · subst h
        simp [find_cons_self]
      · simp [find_cons_ne h, h]
    · split
      · next hb =>
        by_cases h' : k₁ = k'
        · subst h'
          rw [find_cons_self, find_cons_self, if_neg (ne_of_before hb)]
        · rw [find_cons_ne h', find_cons_ne h', ih]
      · next h₁ h₂ =>
        obtain rfl := connected k k' (by simpa using h₁) (by simpa using h₂)
        by_cases h : k₁ = k
        · subst h
          simp [find_cons_self]
        · simp [find_cons_ne h, h]

theorem insert_append_left {k k' : κ} (h : before k k' = true) (v v' : α)
    (l r : List (κ × α)) :
    insert k v (l ++ (k', v') :: r) = insert k v l ++ (k', v') :: r := by
  induction l with
  | nil => simp [insert, h]
  | cons e l ih =>
    simp only [List.cons_append, insert, ih]
    split
    · rfl
    · split <;> rfl

theorem insert_append_right {k : κ} {l : List (κ × α)} (h : ∀ e ∈ l, before e.1 k = true)
    (v : α) (r : List (κ × α)) : insert k v (l ++ r) = l ++ insert k v r := by
  induction l with
  | nil => rfl
  | cons e l ih =>
    have he : before e.1 k = true := h e (by simp)
    rw [List.cons_append, insert, if_neg (by simp [asymm he]), if_pos he,
      ih fun e' he' => h e' (by simp [he']), List.cons_append]

theorem ascending_filterKeys (p : κ → Bool) {l : List (κ × α)} (hl : Ascending l) :
    Ascending (filterKeys p l) :=
  hl.filter _

theorem find_filterKeys (p : κ → Bool) (l : List (κ × α)) (k : κ) :
    find k (filterKeys p l) = if p k then find k l else none := by
  induction l with
  | nil => simp [filterKeys, find]
  | cons e l ih =>
    obtain ⟨k', v'⟩ := e
    rw [filterKeys_cons]
    cases hp : p k' with
    | true =>
      by_cases h : k = k'
      · subst h
        simp [find_cons_self, hp]
      · rw [if_pos rfl, find_cons_ne h, find_cons_ne h, ih]
    | false =>
      rw [if_neg (by simp), ih]
      by_cases h : k = k'
      · subst h
        simp [hp]
      · rw [find_cons_ne h]

def differs (k k' : κ) : Bool := before k k' || before k' k

theorem differs_iff {k k' : κ} : differs k k' = true ↔ k ≠ k' := by
  constructor
  · rintro h rfl
    simp [differs, KeyOrder.irrefl] at h
  · intro h
    cases h₁ : before k k' with
    | true => simp [differs, h₁]
    | false =>
      cases h₂ : before k' k with
      | true => simp [differs, h₂]
      | false => exact absurd (connected _ _ h₁ h₂) h

def erase (k : κ) (l : List (κ × α)) : List (κ × α) := filterKeys (differs k) l

theorem erase_eq_self {k : κ} {l : List (κ × α)} (h : ∀ e ∈ l, k ≠ e.1) : erase k l = l :=
  List.filter_eq_self.mpr fun e he => differs_iff.mpr (h e he)

end Rollup.Entries
