import Rollup.SortedMap.Entries

namespace Rollup

open KeyOrder Entries

inductive SearchTree (κ α : Type) where
  | leaf
  | node (height : Nat) (left : SearchTree κ α) (key : κ) (value : α)
      (right : SearchTree κ α)

namespace SearchTree

variable {κ α β : Type}

def toList : SearchTree κ α → List (κ × α)
  | leaf => []
  | node _ l k v r => l.toList ++ (k, v) :: r.toList

def isLeaf : SearchTree κ α → Bool
  | leaf => true
  | node .. => false

theorem isLeaf_eq (t : SearchTree κ α) : t.isLeaf = t.toList.isEmpty := by
  cases t <;> simp [isLeaf, toList]

def height : SearchTree κ α → Nat
  | leaf => 0
  | node h .. => h

def join (l : SearchTree κ α) (k : κ) (v : α) (r : SearchTree κ α) : SearchTree κ α :=
  node (max l.height r.height + 1) l k v r

/-- Lifts the right subtree of a left side that is too high. -/
def rotateRight (l : SearchTree κ α) (k : κ) (v : α) (r : SearchTree κ α) : SearchTree κ α :=
  match l with
  | leaf => join leaf k v r
  | node _ ll lk lv lr =>
    if lr.height ≤ ll.height then join ll lk lv (join lr k v r)
    else
      match lr with
      | leaf => join (join ll lk lv leaf) k v r
      | node _ lrl lrk lrv lrr => join (join ll lk lv lrl) lrk lrv (join lrr k v r)

/-- Lifts the left subtree of a right side that is too high. -/
def rotateLeft (l : SearchTree κ α) (k : κ) (v : α) (r : SearchTree κ α) : SearchTree κ α :=
  match r with
  | leaf => join l k v leaf
  | node _ rl rk rv rr =>
    if rl.height ≤ rr.height then join (join l k v rl) rk rv rr
    else
      match rl with
      | leaf => join l k v (join leaf rk rv rr)
      | node _ rll rlk rlv rlr => join (join l k v rll) rlk rlv (join rlr rk rv rr)

/-- Joins two subtrees whose heights may differ. -/
def balance (l : SearchTree κ α) (k : κ) (v : α) (r : SearchTree κ α) : SearchTree κ α :=
  if r.height + 1 < l.height then rotateRight l k v r
  else if l.height + 1 < r.height then rotateLeft l k v r
  else join l k v r

@[simp] theorem toList_join (l : SearchTree κ α) (k : κ) (v : α) (r : SearchTree κ α) :
    (join l k v r).toList = l.toList ++ (k, v) :: r.toList := rfl

theorem toList_rotateRight (l : SearchTree κ α) (k : κ) (v : α) (r : SearchTree κ α) :
    (rotateRight l k v r).toList = l.toList ++ (k, v) :: r.toList := by
  unfold rotateRight
  split
  · rfl
  · split
    · simp [toList]
    · split <;> simp [toList]

theorem toList_rotateLeft (l : SearchTree κ α) (k : κ) (v : α) (r : SearchTree κ α) :
    (rotateLeft l k v r).toList = l.toList ++ (k, v) :: r.toList := by
  unfold rotateLeft
  split
  · rfl
  · split
    · simp [toList]
    · split <;> simp [toList]

@[simp] theorem toList_balance (l : SearchTree κ α) (k : κ) (v : α) (r : SearchTree κ α) :
    (balance l k v r).toList = l.toList ++ (k, v) :: r.toList := by
  unfold balance
  split
  · exact toList_rotateRight ..
  · split
    · exact toList_rotateLeft ..
    · rfl

def mapValues (f : κ → α → β) : SearchTree κ α → SearchTree κ β
  | leaf => leaf
  | node h l k v r => node h (mapValues f l) k (f k v) (mapValues f r)

theorem toList_mapValues (f : κ → α → β) (t : SearchTree κ α) :
    (t.mapValues f).toList = t.toList.map fun e => (e.1, f e.1 e.2) := by
  induction t with
  | leaf => rfl
  | node _ l k v r ihl ihr => simp [mapValues, toList, ihl, ihr]

section Keys

variable [KeyOrder κ]

theorem ascending_parts {l r : List (κ × α)} {k : κ} {v : α}
    (h : Ascending (l ++ (k, v) :: r)) :
    Ascending l ∧ Ascending r ∧ (∀ e ∈ l, before e.1 k = true) ∧
      ∀ e ∈ r, before k e.1 = true := by
  obtain ⟨hl, hr, hlr⟩ := List.pairwise_append.mp h
  obtain ⟨hk, hr⟩ := List.pairwise_cons.mp hr
  exact ⟨hl, hr, fun e he => hlr e he (k, v) (by simp), hk⟩

def find (k : κ) : SearchTree κ α → Option α
  | leaf => none
  | node _ l k' v r => if before k k' then find k l else if before k' k then find k r else some v

theorem find_eq (k : κ) {t : SearchTree κ α} (h : Ascending t.toList) :
    t.find k = Entries.find k t.toList := by
  induction t with
  | leaf => rfl
  | node _ l k' v r ihl ihr =>
    obtain ⟨hl, hr, hbefore, hafter⟩ := ascending_parts h
    rw [find, toList, find_append]
    split
    · next hk =>
      have hr : Entries.find k r.toList = none :=
        find_eq_none_of_before fun e he => trans _ _ _ hk (hafter e he)
      rw [ihl hl, find_cons_ne (ne_of_before hk), hr, Option.or_none]
    · split
      · next hk =>
        have hl : Entries.find k l.toList = none :=
          find_eq_none_of_after fun e he => trans _ _ _ (hbefore e he) hk
        rw [ihr hr, find_cons_ne (ne_of_before hk).symm, hl, Option.none_or]
      · next h₁ h₂ =>
        obtain rfl := connected k k' (by simpa using h₁) (by simpa using h₂)
        rw [find_cons_self, find_eq_none_of_after hbefore, Option.none_or]

def insert (k : κ) (v : α) : SearchTree κ α → SearchTree κ α
  | leaf => join leaf k v leaf
  | node h l k' v' r =>
    if before k k' then balance (insert k v l) k' v' r
    else if before k' k then balance l k' v' (insert k v r)
    else node h l k v r

theorem toList_insert (k : κ) (v : α) {t : SearchTree κ α} (h : Ascending t.toList) :
    (t.insert k v).toList = Entries.insert k v t.toList := by
  induction t with
  | leaf => rfl
  | node _ l k' v' r ihl ihr =>
    obtain ⟨hl, hr, hbefore, -⟩ := ascending_parts h
    rw [insert, toList]
    split
    · next hk => rw [toList_balance, ihl hl, insert_append_left hk]
    · split
      · next hk =>
        rw [toList_balance, ihr hr, insert_append_right fun e he => trans _ _ _ (hbefore e he) hk,
          Entries.insert, if_neg (by simp [asymm hk]), if_pos hk]
      · next h₁ h₂ =>
        obtain rfl := connected k k' (by simpa using h₁) (by simpa using h₂)
        rw [toList, insert_append_right hbefore, Entries.insert, if_neg h₁, if_neg h₁]

end Keys

def popFirst? : SearchTree κ α → Option ((κ × α) × SearchTree κ α)
  | leaf => none
  | node _ l k v r =>
    match popFirst? l with
    | none => some ((k, v), r)
    | some (e, l') => some (e, balance l' k v r)

theorem toList_of_popFirst?_eq_none {t : SearchTree κ α} (h : t.popFirst? = none) :
    t.toList = [] := by
  cases t with
  | leaf => rfl
  | node _ l k v r =>
    rw [popFirst?] at h
    split at h <;> simp at h

theorem toList_of_popFirst? {t t' : SearchTree κ α} {e : κ × α}
    (h : t.popFirst? = some (e, t')) : t.toList = e :: t'.toList := by
  induction t generalizing t' with
  | leaf => simp [popFirst?] at h
  | node _ l k v r ihl ihr =>
    rw [popFirst?] at h
    split at h
    · next hl =>
      obtain ⟨rfl, rfl⟩ : (k, v) = e ∧ r = t' := by simpa using h
      rw [toList, toList_of_popFirst?_eq_none hl, List.nil_append]
    · next hl =>
      obtain ⟨rfl, rfl⟩ : _ = e ∧ _ = t' := by simpa using h
      rw [toList, ihl hl, toList_balance, List.cons_append]

def append (l r : SearchTree κ α) : SearchTree κ α :=
  match r.popFirst? with
  | none => l
  | some ((k, v), r') => balance l k v r'

@[simp] theorem toList_append (l r : SearchTree κ α) :
    (l.append r).toList = l.toList ++ r.toList := by
  unfold append
  split
  · next h => rw [toList_of_popFirst?_eq_none h, List.append_nil]
  · next h => rw [toList_of_popFirst? h, toList_balance]

def filterKeys (p : κ → Bool) : SearchTree κ α → SearchTree κ α
  | leaf => leaf
  | node _ l k v r =>
    if p k then balance (filterKeys p l) k v (filterKeys p r)
    else (filterKeys p l).append (filterKeys p r)

theorem toList_filterKeys (p : κ → Bool) (t : SearchTree κ α) :
    (t.filterKeys p).toList = Entries.filterKeys p t.toList := by
  induction t with
  | leaf => rfl
  | node _ l k v r ihl ihr =>
    rw [filterKeys, toList, filterKeys_append, filterKeys_cons]
    split <;> simp [ihl, ihr]

variable [KeyOrder κ]

def erase (k : κ) : SearchTree κ α → SearchTree κ α
  | leaf => leaf
  | node _ l k' v r =>
    if before k k' then balance (erase k l) k' v r
    else if before k' k then balance l k' v (erase k r)
    else l.append r

theorem toList_erase (k : κ) {t : SearchTree κ α} (h : Ascending t.toList) :
    (t.erase k).toList = Entries.erase k t.toList := by
  induction t with
  | leaf => rfl
  | node _ l k' v r ihl ihr =>
    obtain ⟨hl, hr, hbefore, hafter⟩ := ascending_parts h
    have happ : Entries.erase k (l.toList ++ (k', v) :: r.toList) =
        Entries.erase k l.toList ++ Entries.erase k ((k', v) :: r.toList) :=
      filterKeys_append ..
    rw [erase, toList, happ]
    split
    · next hk =>
      rw [toList_balance, ihl hl, erase_eq_self (l := (k', v) :: r.toList)]
      intro e he
      rcases List.mem_cons.mp he with rfl | he
      · exact ne_of_before hk
      · exact ne_of_before (trans _ _ _ hk (hafter e he))
    · split
      · next hk =>
        have hkeep : Entries.erase k ((k', v) :: r.toList) =
            (k', v) :: Entries.erase k r.toList := by
          rw [Entries.erase, filterKeys_cons,
            if_pos (differs_iff.mpr (ne_of_before hk).symm), Entries.erase]
        rw [toList_balance, ihr hr, hkeep, erase_eq_self (l := l.toList)]
        exact fun e he => (ne_of_before (trans _ _ _ (hbefore e he) hk)).symm
      · next h₁ h₂ =>
        obtain rfl := connected k k' (by simpa using h₁) (by simpa using h₂)
        have hdrop : Entries.erase k ((k, v) :: r.toList) = Entries.erase k r.toList := by
          rw [Entries.erase, filterKeys_cons, if_neg (by simp [differs, KeyOrder.irrefl]),
            Entries.erase]
        rw [toList_append, hdrop, erase_eq_self, erase_eq_self]
        · exact fun e he => ne_of_before (hafter e he)
        · exact fun e he => (ne_of_before (hbefore e he)).symm

end SearchTree

end Rollup
