import Rollup.Entity.Numbering
import Rollup.Proofs.Entity.Numbered
import Rollup.Proofs.Program.Discipline
import Rollup.Proofs.Storage.Run

namespace Rollup.Numbering

open Storage Entity

structure Metered where
  storage : Storage
  attempts : Nat := 0

def raises : Storage.Request → Bool
  | .table _ (.incrementAndGet ..) => true
  | _ => false

def answer : Handler interface Metered := fun q s =>
  let met := Storage.answer q s.storage
  (met.1, ⟨met.2, s.attempts + if raises q && met.1.isOk then 1 else 0⟩)

/-- How many numbers of each kind were given out, and the number that each task holds. -/
structure Account where
  count : EntityKind → Nat := fun _ => 0
  holder : Nat → Option (EntityKind × UInt32) := fun _ => none

def Account.give (g : Account) (i : Nat) (held : Option (EntityKind × UInt32)) : Account :=
  { g with holder := fun j => if j = i then held else g.holder j }

def Account.raise (g : Account) (kind : EntityKind) : Account :=
  { g with count := fun kind' => if kind' = kind then g.count kind + 1 else g.count kind' }

def Account.reserve (g : Account) (i : Nat) (kind : EntityKind) : Account :=
  (g.raise kind).give i (if g.count kind + 1 ≤ 4294967295 then
    some (kind, UInt32.ofNat (g.count kind + 1)) else none)

namespace Account

variable {g : Account} {i j : Nat} {kind : EntityKind} {held : EntityKind × UInt32}

@[simp] theorem holder_give_self (g : Account) (i : Nat)
    (held : Option (EntityKind × UInt32)) : (g.give i held).holder i = held := if_pos rfl

@[simp] theorem holder_give_ne (h : j ≠ i) (held : Option (EntityKind × UInt32)) :
    (g.give i held).holder j = g.holder j := if_neg h

theorem count_reserve (g : Account) (i : Nat) (kind kind' : EntityKind) :
    (g.reserve i kind).count kind' = if kind' = kind then g.count kind + 1 else g.count kind' :=
  rfl

theorem count_le_reserve (g : Account) (i : Nat) (kind kind' : EntityKind) :
    g.count kind' ≤ (g.reserve i kind).count kind' := by
  rw [count_reserve]
  split
  · next heq => rw [heq]; omega
  · exact Nat.le_refl _

theorem holder_reserve_ne (h : j ≠ i) : (g.reserve i kind).holder j = g.holder j := by
  simp [reserve, give, raise, h]

theorem holder_reserve_self (h : g.count kind + 1 ≤ 4294967295) :
    (g.reserve i kind).holder i = some (kind, UInt32.ofNat (g.count kind + 1)) := by
  simp [reserve, give, h]

theorem toNat_ofNat_count (h : g.count kind + 1 ≤ 4294967295) :
    (UInt32.ofNat (g.count kind + 1)).toNat = g.count kind + 1 :=
  UInt32.toNat_ofNat_of_lt' (by simp only [UInt32.size]; omega)

theorem of_holder_reserve (h : (g.reserve i kind).holder j = some held) :
    g.holder j = some held ∧ j ≠ i ∨
      j = i ∧ held = (kind, UInt32.ofNat (g.count kind + 1)) ∧
        g.count kind + 1 ≤ 4294967295 := by
  by_cases hji : j = i
  · subst hji
    by_cases hle : g.count kind + 1 ≤ 4294967295
    · rw [holder_reserve_self hle] at h
      exact .inr ⟨rfl, (Option.some.inj h).symm, hle⟩
    · simp [reserve, give, hle] at h
  · rw [holder_reserve_ne hji] at h
    exact .inl ⟨h, hji⟩

end Account

/-- The account agrees with the tables: a number that is held was given out, to one task,
and no string has it yet. -/
structure Tidy (table : TableId) (s : Metered) (g : Account) : Prop where
  numbered : Numbered (s.storage.contents table) g.count
  attempted : ∀ kind, g.count kind ≤ s.attempts
  remembered : ∀ cache (e : Entity) id, s.storage.memory cache e = some id →
    NumberedAs (s.storage.contents table) e id
  given : ∀ i kind id, g.holder i = some (kind, id) → 0 < id.toNat ∧ id.toNat ≤ g.count kind
  free : ∀ i kind id, g.holder i = some (kind, id) → ∀ e : Entity, e.kind = kind →
    ¬ NumberedAs (s.storage.contents table) e id
  distinct : ∀ i j held, g.holder i = some held → g.holder j = some held → i = j

/-- What a task relies on: strings keep their numbers, and nobody else touches the record
of the number that it holds. -/
structure Stable (table : TableId) (i : Nat) (x y : Metered × Account) : Prop where
  numbers : ∀ (e : Entity) id, NumberedAs (x.1.storage.contents table) e id →
    NumberedAs (y.1.storage.contents table) e id
  counts : ∀ kind, x.2.count kind ≤ y.2.count kind
  holder : y.2.holder i = x.2.holder i
  record : ∀ kind id, x.2.holder i = some (kind, id) →
    (y.1.storage.contents table).cell? (numberRow kind id) nameColumn =
      (x.1.storage.contents table).cell? (numberRow kind id) nameColumn

namespace Stable

variable {table : TableId} {i : Nat} {x y z : Metered × Account}

theorem refl (table : TableId) (i : Nat) (x : Metered × Account) : Stable table i x x :=
  ⟨fun _ _ h => h, fun _ => Nat.le_refl _, rfl, fun _ _ _ => rfl⟩

theorem trans (h : Stable table i x y) (h' : Stable table i y z) : Stable table i x z := by
  refine ⟨fun e id hid => h'.numbers e id (h.numbers e id hid),
    fun kind => Nat.le_trans (h.counts kind) (h'.counts kind), h'.holder.trans h.holder, ?_⟩
  intro kind id hheld
  rw [h'.record kind id (h.holder ▸ hheld), h.record kind id hheld]

theorem of_contents_eq {s s' : Metered}
    (h : s'.storage.contents table = s.storage.contents table) (i : Nat) (g : Account) :
    Stable table i (s, g) (s', g) := by
  refine ⟨?_, fun _ => Nat.le_refl _, rfl, ?_⟩
  · intro e id hid
    rwa [h]
  · intro kind id _
    rw [h]

end Stable

namespace Tidy

variable {table : TableId} {s : Metered} {g : Account} {i : Nat} {kind : EntityKind}
  {e : Entity} {id : UInt32}

theorem empty {s : Storage} (hempty : s.contents table = .empty)
    (hmemory : ∀ cache e, s.memory cache e = none) : Tidy table ⟨s, 0⟩ {} := by
  refine ⟨?_, fun _ => Nat.le_refl 0, ?_, by simp, by simp, by simp⟩
  · rw [hempty]
    exact Numbered.empty
  · intro cache e id h
    simp [hmemory] at h

theorem congr {s' : Metered} (h : Tidy table s g)
    (hcontents : s'.storage.contents table = s.storage.contents table)
    (hmemory : ∀ cache e, s'.storage.memory cache e = s.storage.memory cache e)
    (hattempts : s.attempts ≤ s'.attempts) : Tidy table s' g := by
  refine ⟨?_, fun kind => Nat.le_trans (h.attempted kind) hattempts, ?_, h.given, ?_, h.distinct⟩
  · rw [hcontents]
    exact h.numbered
  · simp only [hcontents, hmemory]
    exact h.remembered
  · rw [hcontents]
    exact h.free

theorem read (h : Tidy table s g) :
    let s' : Metered := ⟨s.storage.update table (s.storage.contents table), s.attempts⟩
    Tidy table s' g ∧ ∀ j, Stable table j (s, g) (s', g) := by
  intro s'
  have hcontents : s'.storage.contents table = s.storage.contents table := by
    simp [s']
  exact ⟨h.congr hcontents (fun _ _ => rfl) (Nat.le_refl _),
    fun j => Stable.of_contents_eq hcontents j g⟩

theorem release (h : Tidy table s g) (i : Nat) :
    Tidy table s (g.give i none) ∧ ∀ j, j ≠ i → Stable table j (s, g) (s, g.give i none) := by
  have hheld : ∀ j held, (g.give i none).holder j = some held → g.holder j = some held := by
    intro j held hj
    simp only [Account.give] at hj
    split at hj
    · cases hj
    · exact hj
  constructor
  · exact ⟨h.numbered, h.attempted, h.remembered,
      fun j kind id hj => h.given j kind id (hheld _ _ hj),
      fun j kind id hj => h.free j kind id (hheld _ _ hj),
      fun j k held hj hk => h.distinct j k held (hheld _ _ hj) (hheld _ _ hk)⟩
  · intro j hji
    refine ⟨fun _ _ hid => hid, fun _ => Nat.le_refl _, ?_, fun _ _ _ => rfl⟩
    simp [Account.give, hji]

theorem note (h : Tidy table s g) (cache : Nat)
    (hid : NumberedAs (s.storage.contents table) e id) :
    let s' : Metered := ⟨s.storage.noted cache e id, s.attempts⟩
    Tidy table s' g ∧ ∀ j, Stable table j (s, g) (s', g) := by
  intro s'
  refine ⟨⟨h.numbered, h.attempted, ?_, h.given, h.free, h.distinct⟩,
    fun j => Stable.of_contents_eq (s := s) (show s'.storage.contents table = _ from rfl) j g⟩
  intro cache' e' id' hmemory
  rw [memory_noted] at hmemory
  split at hmemory
  · next heq =>
    obtain ⟨-, rfl⟩ := heq
    cases hmemory
    exact hid
  · exact h.remembered cache' e' id' hmemory

theorem not_holds_next (h : Tidy table s g) (hle : g.count kind + 1 ≤ 4294967295) (j : Nat) :
    g.holder j ≠ some (kind, UInt32.ofNat (g.count kind + 1)) := by
  intro hj
  have hgiven := (h.given j _ _ hj).2
  rw [Account.toNat_ofNat_count hle] at hgiven
  omega

/-- Counting up gives out a number that nobody holds and no string has. -/
theorem raise (h : Tidy table s g) (i : Nat) (kind : EntityKind) :
    let s' : Metered := ⟨s.storage.update table ((s.storage.contents table).setCell
      (counterRow kind) counterColumn
        (some (Bytes.ofInt64 (Int64.ofNat (g.count kind + 1))))), s.attempts + 1⟩
    Tidy table s' (g.reserve i kind) ∧
      ∀ j, j ≠ i → Stable table j (s, g) (s', g.reserve i kind) := by
  intro s'
  have hcells : ∀ (e : Entity) id, NumberedAs (s'.storage.contents table) e id ↔
      NumberedAs (s.storage.contents table) e id := by
    intro e id
    simp [s', numberedAs_setCell]
  constructor
  · refine ⟨?_, ?_, ?_, ?_, ?_, ?_⟩
    · simp only [s', contents_update, if_true]
      exact h.numbered.counted kind
    · intro kind'
      have := h.attempted kind
      have := h.attempted kind'
      simp only [s', Account.count_reserve]
      split <;> omega
    · intro cache e id hmemory
      exact (hcells e id).mpr (h.remembered cache e id hmemory)
    · intro j kind' id hj
      rcases Account.of_holder_reserve hj with ⟨hj, -⟩ | ⟨-, heq, hle⟩
      · obtain ⟨hpos, hgiven⟩ := h.given j kind' id hj
        exact ⟨hpos, Nat.le_trans hgiven (g.count_le_reserve i kind kind')⟩
      · cases heq
        rw [Account.toNat_ofNat_count hle, Account.count_reserve]
        simp
    · intro j kind' id hj e he hnumber
      rw [hcells] at hnumber
      rcases Account.of_holder_reserve hj with ⟨hj, -⟩ | ⟨-, heq, hle⟩
      · exact h.free j kind' id hj e he hnumber
      · cases heq
        have hgiven := (h.numbered.recorded hnumber).2.1
        rw [Account.toNat_ofNat_count hle, he] at hgiven
        omega
    · intro j k held hj hk
      rcases Account.of_holder_reserve hj with ⟨hj, -⟩ | ⟨rfl, rfl, hle⟩
      · rcases Account.of_holder_reserve hk with ⟨hk, -⟩ | ⟨-, rfl, hle⟩
        · exact h.distinct j k held hj hk
        · exact absurd hj (h.not_holds_next hle j)
      · rcases Account.of_holder_reserve hk with ⟨hk, -⟩ | ⟨rfl, -⟩
        · exact absurd hk (h.not_holds_next hle k)
        · rfl
  · intro j hji
    refine ⟨fun e id => (hcells e id).mpr, g.count_le_reserve i kind,
      Account.holder_reserve_ne hji, ?_⟩
    intro kind' id _
    simp [s', Table.cell?_setCell]

theorem setRecord (h : Tidy table s g) (hheld : g.holder i = some (kind, id))
    (name : Option Bytes) :
    let s' : Metered := ⟨s.storage.update table ((s.storage.contents table).setCell
      (numberRow kind id) nameColumn name), s.attempts⟩
    Tidy table s' g ∧ ∀ j, j ≠ i → Stable table j (s, g) (s', g) := by
  intro s'
  have hcells : ∀ (e : Entity) id, NumberedAs (s'.storage.contents table) e id ↔
      NumberedAs (s.storage.contents table) e id := by
    intro e id
    simp [s', numberedAs_setCell]
  constructor
  · refine ⟨?_, h.attempted, ?_, h.given, ?_, h.distinct⟩
    · simp only [s', contents_update, if_true]
      exact h.numbered.setRecord (h.free i kind id hheld) name
    · intro cache e id hmemory
      exact (hcells e id).mpr (h.remembered cache e id hmemory)
    · intro j kind' id' hj e he hnumber
      exact h.free j kind' id' hj e he ((hcells e id').mp hnumber)
  · intro j hji
    refine ⟨fun e id => (hcells e id).mpr, fun _ => Nat.le_refl _, rfl, ?_⟩
    intro kind' id' hj
    have hrow : numberRow kind' id' ≠ numberRow kind id := by
      intro hrow
      obtain ⟨rfl, rfl⟩ := numberRow_injective hrow
      exact hji (h.distinct j i _ hj hheld)
    simp [s', Table.cell?_setCell, hrow]

theorem claim (h : Tidy table s g) (hheld : g.holder i = some (e.kind, id))
    (hrecord : (s.storage.contents table).cell? (numberRow e.kind id) nameColumn =
      some (Utf8.encode e.name))
    (hfree : (s.storage.contents table).cell? e.nameRow idColumn = none) :
    let s' : Metered := ⟨s.storage.update table ((s.storage.contents table).setCell
      e.nameRow idColumn (some (Bytes.ofUInt32 id))), s.attempts⟩
    Tidy table s' (g.give i none) ∧
      (∀ j, j ≠ i → Stable table j (s, g) (s', g.give i none)) ∧
      NumberedAs (s'.storage.contents table) e id := by
  intro s'
  obtain ⟨hreleased, hstable⟩ := h.release i
  obtain ⟨hpos, hle⟩ := h.given i _ _ hheld
  have hself : ∀ id', NumberedAs (s'.storage.contents table) e id' ↔ id' = id := by
    intro id'
    simp only [s', NumberedAs, contents_update, if_true, Table.cell?_setCell, and_self,
      Option.some.injEq]
    exact ⟨fun h => (Bytes.ofUInt32_injective h).symm, fun h => h ▸ rfl⟩
  have hother : ∀ e' : Entity, e' ≠ e → ∀ id', NumberedAs (s'.storage.contents table) e' id' ↔
      NumberedAs (s.storage.contents table) e' id' := by
    intro e' he id'
    have hrow : e'.nameRow ≠ e.nameRow := fun h => he (nameRow_injective h)
    simp [s', numberedAs_setCell hrow]
  have hkeep : ∀ (e' : Entity) id', NumberedAs (s.storage.contents table) e' id' →
      NumberedAs (s'.storage.contents table) e' id' := by
    intro e' id' hnumber
    have he : e' ≠ e := by
      rintro rfl
      rw [NumberedAs, hfree] at hnumber
      cases hnumber
    exact (hother e' he id').mpr hnumber
  refine ⟨⟨?_, h.attempted, ?_, hreleased.given, ?_, hreleased.distinct⟩, ?_,
    (hself id).mpr rfl⟩
  · simp only [s', contents_update, if_true]
    exact h.numbered.claim hpos hle hrecord
  · intro cache e' id' hmemory
    exact hkeep e' id' (h.remembered cache e' id' hmemory)
  · intro j kind' id' hj e' he' hnumber
    have hji : j ≠ i := by
      rintro rfl
      simp [Account.give] at hj
    by_cases he : e' = e
    · subst he
      obtain rfl := (hself id').mp hnumber
      simp only [Account.give, if_neg hji] at hj
      exact hji (h.distinct j i _ (he' ▸ hj) hheld)
    · exact hreleased.free j kind' id' hj e' he' ((hother e' he id').mp hnumber)
  · intro j hji
    refine ⟨hkeep, fun _ => Nat.le_refl _, (hstable j hji).holder, ?_⟩
    intro kind' id' _
    simp [s', Table.cell?_setCell]

end Tidy

end Rollup.Numbering
