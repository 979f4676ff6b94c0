import Rollup.SortedMap.Tree

/-!
Finite maps. A map is an ascending list of entries held in a search tree; how the tree is shaped
cannot be told from the map.
-/

namespace Rollup

open KeyOrder Entries

/-- A search tree whose entries ascend. -/
abbrev OrderedTree (κ α : Type) [KeyOrder κ] := { t : SearchTree κ α // Ascending t.toList }

namespace OrderedTree

/-- Trees are alike when they hold the same entries. -/
instance alike (κ α : Type) [KeyOrder κ] : Setoid (OrderedTree κ α) where
  r s t := s.1.toList = t.1.toList
  iseqv := ⟨fun _ => rfl, Eq.symm, Eq.trans⟩

end OrderedTree

structure SortedMap (κ α : Type) [KeyOrder κ] where
  tree : Quotient (OrderedTree.alike κ α)

namespace SortedMap

variable {κ α β : Type} [KeyOrder κ]

def ofTree (t : SearchTree κ α) (h : Ascending t.toList) : SortedMap κ α :=
  ⟨Quotient.mk _ ⟨t, h⟩⟩

theorem ofTree_eq {s t : SearchTree κ α} {hs : Ascending s.toList} {ht : Ascending t.toList}
    (h : s.toList = t.toList) : ofTree s hs = ofTree t ht :=
  congrArg mk (Quotient.sound h)

theorem exists_eq_ofTree (m : SortedMap κ α) : ∃ t h, m = ofTree t h := by
  obtain ⟨q⟩ := m
  induction q using Quotient.ind with
  | _ t => exact ⟨t.1, t.2, rfl⟩

def view (m : SortedMap κ α) (f : OrderedTree κ α → β)
    (alike : ∀ s t : OrderedTree κ α, s.1.toList = t.1.toList → f s = f t) : β :=
  m.tree.lift f alike

def entries (m : SortedMap κ α) : List (κ × α) := m.view (·.1.toList) fun _ _ h => h

theorem ascending (m : SortedMap κ α) : Ascending m.entries := by
  obtain ⟨t, h, rfl⟩ := m.exists_eq_ofTree
  exact h

theorem ext {m n : SortedMap κ α} (h : m.entries = n.entries) : m = n := by
  obtain ⟨s, hs, rfl⟩ := m.exists_eq_ofTree
  obtain ⟨t, ht, rfl⟩ := n.exists_eq_ofTree
  exact ofTree_eq h

theorem ext_iff {m n : SortedMap κ α} : m = n ↔ m.entries = n.entries :=
  ⟨fun h => h ▸ rfl, ext⟩

instance [DecidableEq κ] [DecidableEq α] : DecidableEq (SortedMap κ α) := fun _ _ =>
  decidable_of_iff _ ext_iff.symm

instance [KeyOrder α] : KeyOrder (SortedMap κ α) := ofInjective entries fun _ _ => ext

instance [Repr κ] [Repr α] : Repr (SortedMap κ α) := ⟨fun m => reprPrec m.entries⟩

def empty : SortedMap κ α := ofTree .leaf .nil

instance : Inhabited (SortedMap κ α) := ⟨empty⟩

instance : EmptyCollection (SortedMap κ α) := ⟨empty⟩

@[simp] theorem entries_empty : (empty : SortedMap κ α).entries = [] := rfl

def isEmpty (m : SortedMap κ α) : Bool :=
  m.view (·.1.isLeaf) fun s t h => by rw [s.1.isLeaf_eq, t.1.isLeaf_eq, h]

theorem isEmpty_eq (m : SortedMap κ α) : m.isEmpty = m.entries.isEmpty := by
  obtain ⟨t, h, rfl⟩ := m.exists_eq_ofTree
  exact t.isLeaf_eq

theorem isEmpty_iff {m : SortedMap κ α} : m.isEmpty = true ↔ m = empty := by
  rw [isEmpty_eq, List.isEmpty_iff, ext_iff, entries_empty]

def size (m : SortedMap κ α) : Nat := m.entries.length

def keys (m : SortedMap κ α) : List κ := m.entries.map Prod.fst

def values (m : SortedMap κ α) : List α := m.entries.map Prod.snd

def get? (m : SortedMap κ α) (k : κ) : Option α :=
  m.view (·.1.find k) fun s t h => by
    rw [SearchTree.find_eq k s.2, SearchTree.find_eq k t.2, h]

def contains (m : SortedMap κ α) (k : κ) : Bool := (m.get? k).isSome

theorem get?_eq_find (m : SortedMap κ α) (k : κ) : m.get? k = find k m.entries := by
  obtain ⟨t, h, rfl⟩ := m.exists_eq_ofTree
  exact SearchTree.find_eq k h

theorem mem_entries {m : SortedMap κ α} {k : κ} {v : α} :
    (k, v) ∈ m.entries ↔ m.get? k = some v := by
  rw [get?_eq_find]
  exact ⟨find_of_mem m.ascending, mem_of_find⟩

@[simp] theorem get?_empty (k : κ) : (empty : SortedMap κ α).get? k = none := rfl

/-- A map is determined by its lookups. -/
theorem ext_get? {m n : SortedMap κ α} (h : ∀ k, m.get? k = n.get? k) : m = n :=
  ext (eq_of_find_eq m.ascending n.ascending fun k => by
    rw [← get?_eq_find, ← get?_eq_find, h])

def insert (m : SortedMap κ α) (k : κ) (v : α) : SortedMap κ α :=
  m.view (fun t => ofTree (t.1.insert k v) (by
      rw [SearchTree.toList_insert k v t.2]
      exact ascending_insert k v t.2))
    fun s t h => ofTree_eq (by
      rw [SearchTree.toList_insert k v s.2, SearchTree.toList_insert k v t.2, h])

theorem entries_insert (m : SortedMap κ α) (k : κ) (v : α) :
    (m.insert k v).entries = Entries.insert k v m.entries := by
  obtain ⟨t, h, rfl⟩ := m.exists_eq_ofTree
  exact SearchTree.toList_insert k v h

theorem get?_insert (m : SortedMap κ α) (k : κ) (v : α) (k₁ : κ) [Decidable (k₁ = k)] :
    (m.insert k v).get? k₁ = if k₁ = k then some v else m.get? k₁ := by
  rw [get?_eq_find, get?_eq_find, entries_insert, find_insert]

def singleton (k : κ) (v : α) : SortedMap κ α := empty.insert k v

def filterKeys (m : SortedMap κ α) (p : κ → Bool) : SortedMap κ α :=
  m.view (fun t => ofTree (t.1.filterKeys p) (by
      rw [SearchTree.toList_filterKeys]
      exact ascending_filterKeys p t.2))
    fun s t h => ofTree_eq (by
      rw [SearchTree.toList_filterKeys, SearchTree.toList_filterKeys, h])

theorem entries_filterKeys (m : SortedMap κ α) (p : κ → Bool) :
    (m.filterKeys p).entries = Entries.filterKeys p m.entries := by
  obtain ⟨t, h, rfl⟩ := m.exists_eq_ofTree
  exact SearchTree.toList_filterKeys p t

theorem get?_filterKeys (m : SortedMap κ α) (p : κ → Bool) (k : κ) :
    (m.filterKeys p).get? k = if p k then m.get? k else none := by
  rw [get?_eq_find, get?_eq_find, entries_filterKeys, find_filterKeys]

def erase (m : SortedMap κ α) (k : κ) : SortedMap κ α :=
  m.view (fun t => ofTree (t.1.erase k) (by
      rw [SearchTree.toList_erase k t.2]
      exact ascending_filterKeys _ t.2))
    fun s t h => ofTree_eq (by
      rw [SearchTree.toList_erase k s.2, SearchTree.toList_erase k t.2, h])

theorem entries_erase (m : SortedMap κ α) (k : κ) :
    (m.erase k).entries = Entries.erase k m.entries := by
  obtain ⟨t, h, rfl⟩ := m.exists_eq_ofTree
  exact SearchTree.toList_erase k h

theorem get?_erase (m : SortedMap κ α) (k k₁ : κ) [Decidable (k₁ = k)] :
    (m.erase k).get? k₁ = if k₁ = k then none else m.get? k₁ := by
  rw [get?_eq_find, get?_eq_find, entries_erase, Entries.erase, find_filterKeys]
  by_cases h : k₁ = k
  · subst h
    simp [differs, KeyOrder.irrefl]
  · rw [if_neg h, if_pos (differs_iff.mpr (Ne.symm h))]

def set (m : SortedMap κ α) (k : κ) : Option α → SortedMap κ α
  | some v => m.insert k v
  | none => m.erase k

theorem get?_set (m : SortedMap κ α) (k : κ) (v : Option α) (k₁ : κ) [Decidable (k₁ = k)] :
    (m.set k v).get? k₁ = if k₁ = k then v else m.get? k₁ := by
  cases v with
  | none => exact get?_erase ..
  | some v => exact get?_insert ..

def alter (m : SortedMap κ α) (k : κ) (f : Option α → Option α) : SortedMap κ α :=
  m.set k (f (m.get? k))

theorem get?_alter (m : SortedMap κ α) (k : κ) (f : Option α → Option α) (k₁ : κ)
    [Decidable (k₁ = k)] :
    (m.alter k f).get? k₁ = if k₁ = k then f (m.get? k) else m.get? k₁ :=
  get?_set ..

/-- Adds the entries of a list; of several with one key the first stays. -/
def insertAll (m : SortedMap κ α) (l : List (κ × α)) : SortedMap κ α :=
  l.foldr (fun e m => m.insert e.1 e.2) m

theorem get?_insertAll (m : SortedMap κ α) (l : List (κ × α)) (k : κ) :
    (m.insertAll l).get? k = (find k l).or (m.get? k) := by
  induction l with
  | nil => rfl
  | cons e l ih =>
    obtain ⟨k', v⟩ := e
    cases hk : differs k k' with
    | true =>
      have hne := differs_iff.mp hk
      have : Decidable (k = k') := .isFalse hne
      rw [insertAll, List.foldr_cons, get?_insert, if_neg hne, find_cons_ne hne]
      exact ih
    | false =>
      obtain rfl : k = k' := by
        have h : before k k' = false ∧ before k' k = false := by simpa [differs] using hk
        exact connected _ _ h.1 h.2
      have : Decidable (k = k) := .isTrue rfl
      rw [insertAll, List.foldr_cons, get?_insert, if_pos rfl, find_cons_self, Option.some_or]

/-- Both maps together; the right one wins where both hold a key. -/
def union (m n : SortedMap κ α) : SortedMap κ α := m.insertAll n.entries

theorem get?_union (m n : SortedMap κ α) (k : κ) :
    (m.union n).get? k = (n.get? k).or (m.get? k) := by
  rw [union, get?_insertAll, get?_eq_find n]

/-- The entries of a list; of several with one key the last stays. -/
def ofList (l : List (κ × α)) : SortedMap κ α := empty.insertAll l.reverse

theorem get?_ofList (l : List (κ × α)) (k : κ) :
    (ofList l).get? k = find k l.reverse := by
  simp [ofList, get?_insertAll]

def mapValues (m : SortedMap κ α) (f : κ → α → β) : SortedMap κ β :=
  m.view (fun t => ofTree (t.1.mapValues f) (by
      rw [SearchTree.toList_mapValues, Ascending, List.pairwise_map]
      exact t.2))
    fun s t h => ofTree_eq (by
      rw [SearchTree.toList_mapValues, SearchTree.toList_mapValues, h])

theorem entries_mapValues (m : SortedMap κ α) (f : κ → α → β) :
    (m.mapValues f).entries = m.entries.map fun e => (e.1, f e.1 e.2) := by
  obtain ⟨t, h, rfl⟩ := m.exists_eq_ofTree
  exact SearchTree.toList_mapValues f t

end SortedMap

end Rollup
