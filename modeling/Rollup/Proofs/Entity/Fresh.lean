import Mathlib.Order.Interval.Finset.Nat
import Rollup.Proofs.Entity.Account
import Rollup.Proofs.Entity.Room

namespace Rollup.Numbering

open Storage Entity

/-- A number that was given out and that no string has. -/
def Spare (T : Table) (count : EntityKind → Nat) (held : EntityKind × UInt32) : Prop :=
  0 < held.2.toNat ∧ held.2.toNat ≤ count held.1 ∧
    ∀ e : Entity, e.kind = held.1 → ¬ NumberedAs T e held.2

def rank (held : EntityKind × UInt32) : Nat := held.1.code.toNat * 2 ^ 32 + held.2.toNat

theorem rank_injective {held held' : EntityKind × UInt32} (h : rank held = rank held') :
    held = held' := by
  have hid := held.2.toNat_lt
  have hid' := held'.2.toNat_lt
  simp only [rank] at h
  refine Prod.ext (EntityKind.code_injective _ _ (UInt8.toNat_inj.mp ?_)) (UInt32.toNat_inj.mp ?_)
  · omega
  · omega

open Classical in
/-- From some task on, each onlooker holds the spare number of its rank. -/
noncomputable def watched (T : Table) (count : EntityKind → Nat) (n : Nat) : Account where
  count := count
  holder j :=
    if h : ∃ held, j = n + rank held ∧ Spare T count held then some h.choose else none

section

variable {T : Table} {count : EntityKind → Nat} {n j : Nat} {held : EntityKind × UInt32}

theorem watched_holder : (watched T count n).holder j = some held ↔
    j = n + rank held ∧ Spare T count held := by
  simp only [watched]
  split
  · next h =>
    have hchosen := h.choose_spec
    rw [Option.some.injEq]
    constructor
    · rintro rfl
      exact hchosen
    · rintro ⟨hj, -⟩
      exact rank_injective (by omega)
  · next h =>
    simp only [reduceCtorEq, false_iff]
    exact fun hheld => h ⟨held, hheld⟩

variable {table : TableId} {s : Storage} {attempts : Nat}

theorem tidy_watched (hn : Numbered (s.contents table) count)
    (hattempts : ∀ kind, count kind ≤ attempts)
    (hmemory : ∀ cache (e : Entity) id, s.memory cache e = some id →
      NumberedAs (s.contents table) e id) (n : Nat) :
    Tidy table ⟨s, attempts⟩ (watched (s.contents table) count n) := by
  refine ⟨hn, hattempts, hmemory, ?_, ?_, ?_⟩
  · intro j kind id hj
    obtain ⟨-, hpos, hle, -⟩ := watched_holder.mp hj
    exact ⟨hpos, hle⟩
  · intro j kind id hj
    exact (watched_holder.mp hj).2.2.2
  · intro i j held hi hj
    exact (watched_holder.mp hi).1.trans (watched_holder.mp hj).1.symm

theorem count_lt_of_watched {x : Metered × Account} (hx : Tidy table x.1 x.2)
    (hstable : ∀ j, n ≤ j → Stable table j
      (⟨s, attempts⟩, watched (s.contents table) count n) x) {e : Entity} {id : UInt32}
    (hfree : (s.contents table).cell? e.nameRow idColumn = none)
    (hid : NumberedAs (x.1.storage.contents table) e id) : count e.kind < id.toNat := by
  by_contra hle
  -- otherwise the number was spare at the start, and its onlooker still holds it
  have hpos := (hx.numbered.recorded hid).1
  have hspare : Spare (s.contents table) count (e.kind, id) := by
    refine ⟨hpos, Nat.le_of_not_lt hle, fun e' hkind hid' => ?_⟩
    have hkept := (hstable n (Nat.le_refl n)).numbers e' id hid'
    obtain rfl := hx.numbered.injective hid hkept hkind.symm
    rw [NumberedAs, hfree] at hid'
    cases hid'
  have hheld := (hstable _ (Nat.le_add_right n (rank (e.kind, id)))).holder.trans
    (watched_holder.mpr ⟨rfl, hspare⟩)
  exact hx.free _ _ _ hheld e rfl hid

theorem room_of_watched {t : EntityTable} {strings : List Entity} {x : Metered × Account}
    (hx : Tidy t.table x.1 x.2) (hready : t.Ready s) (hn : Numbered (s.contents t.table) count)
    (hstable : ∀ j, n ≤ j → Stable t.table j
      (⟨s, attempts⟩, watched (s.contents t.table) count n) x)
    (hstrings : ∀ e ∈ strings, ∃ id, NumberedAs (x.1.storage.contents t.table) e id)
    (hcount : ∀ kind, count kind ≤ 4294967295) : t.Room strings s := by
  obtain ⟨T, _, hT, -⟩ := hready.table
  obtain rfl := hT.contents_eq
  refine ⟨⟨_, count, hT, hn, fun kind => ?_⟩, hready.memory⟩
  choose! number hnumber using hstrings
  have hcard : (unnumbered (s.contents t.table) strings kind).card ≤
      (Finset.Ioc (count kind) 4294967295).card := by
    refine Finset.card_le_card_of_injOn (fun e => (number e).toNat) ?_ ?_
    · intro e he
      obtain ⟨hmem, rfl, hfree⟩ := mem_unnumbered.mp he
      have hlt := (number e).toNat_lt
      simp only [Finset.mem_coe, Finset.mem_Ioc]
      exact ⟨count_lt_of_watched hx hstable hfree (hnumber e hmem), by omega⟩
    · intro e he e' he' heq
      obtain ⟨hmem, hkind, -⟩ := mem_unnumbered.mp he
      obtain ⟨hmem', hkind', -⟩ := mem_unnumbered.mp he'
      have hid := hnumber e hmem
      rw [UInt32.toNat_inj.mp heq] at hid
      exact hx.numbered.injective hid (hnumber e' hmem') (hkind.trans hkind'.symm)
  have hle := hcount kind
  rw [Nat.card_Ioc] at hcard
  omega

end

end Rollup.Numbering
