import Mathlib.Data.Finset.Card
import Rollup.Proofs.Entity.Account
import Rollup.Proofs.Entity.Resolve
import Rollup.Proofs.Program.Requests
import Rollup.Proofs.Storage.Column

namespace Rollup

open Storage Entity

def unnumbered (T : Table) (strings : List Entity) (kind : EntityKind) : Finset Entity :=
  strings.toFinset.filter fun e => e.kind = kind ∧ T.cell? e.nameRow idColumn = none

theorem mem_unnumbered {T : Table} {strings : List Entity} {kind : EntityKind} {e : Entity} :
    e ∈ unnumbered T strings kind ↔
      e ∈ strings ∧ e.kind = kind ∧ T.cell? e.nameRow idColumn = none := by
  simp [unnumbered]

namespace Entity

def columns : List Bytes := [idColumn, nameColumn, counterColumn]

theorem length_of_mem_columns {column : Bytes} (h : column ∈ columns) : column.length = 1 := by
  revert column
  decide

end Entity

theorem Numbered.congr {T T' : Table} {count : EntityKind → Nat} (h : Numbered T count)
    (hcells : ∀ row, ∀ column ∈ Entity.columns, T'.cell? row column = T.cell? row column) :
    Numbered T' count := by
  have hid : ∀ row, T'.cell? row idColumn = T.cell? row idColumn :=
    fun row => hcells row _ (by decide)
  refine ⟨fun kind => ?_, fun e cell hcell => ?_⟩
  · rw [hcells _ _ (by decide)]
    exact h.counter kind
  · rw [hid] at hcell
    obtain ⟨id, hcell, hpos, hle, hrecord⟩ := h.record e cell hcell
    exact ⟨id, hcell, hpos, hle, by rwa [hcells _ _ (by decide)]⟩

namespace EntityTable

variable {t : EntityTable} {strings : List Entity} {s s' : Storage} {T T' : Table}
  {count : EntityKind → Nat} {e : Entity} {id : UInt32}

/-- The table is in reach and in order, and there are numbers left for all strings without
one. -/
structure Room (t : EntityTable) (strings : List Entity) (s : Storage) : Prop where
  table : ∃ T count, s.Holds t.table T ∧ Numbered T count ∧
    ∀ kind, count kind + (unnumbered T strings kind).card ≤ 4294967295
  memory : ∀ e id, s.memory t.cache e = some id → NumberedAs (s.contents t.table) e id

namespace Room

theorem ready (h : t.Room strings s) : t.Ready s := by
  obtain ⟨T, count, hT, hn, hcount⟩ := h.table
  exact ⟨⟨T, count, hT, hn, fun kind => Nat.le_trans (Nat.le_add_right ..) (hcount kind)⟩,
    h.memory⟩

theorem of_empty (hT : s.Holds t.table .empty) (hmemory : ∀ e, s.memory t.cache e = none)
    (hlength : strings.length ≤ 4294967295) : t.Room strings s := by
  refine ⟨⟨.empty, fun _ => 0, hT, Numbered.empty, fun kind => ?_⟩, fun e id h => ?_⟩
  · have hcard := Finset.card_filter_le strings.toFinset
      fun e => e.kind = kind ∧ Table.empty.cell? e.nameRow idColumn = none
    have htotal := strings.toFinset_card_le
    rw [Nat.zero_add, unnumbered]
    omega
  · rw [hmemory] at h
    cases h

theorem update_ne (h : t.Room strings s) {other : TableId} (hother : t.table ≠ other)
    (T' : Table) : t.Room strings (s.update other T') := by
  obtain ⟨T, count, hT, hn, hcount⟩ := h.table
  refine ⟨⟨T, count, (holds_update_ne hother).mpr hT, hn, hcount⟩, fun e id hmemory => ?_⟩
  rw [contents_update, if_neg hother]
  exact h.memory e id hmemory

theorem update (h : t.Room strings s) {other : TableId} (hT : s.Holds other T)
    (hcells : ∀ row, ∀ column ∈ Entity.columns, T'.cell? row column = T.cell? row column) :
    t.Room strings (s.update other T') := by
  by_cases hother : t.table = other
  · subst hother
    obtain ⟨U, count, hU, hn, hcount⟩ := h.table
    obtain rfl : U = T := hU.contents_eq.symm.trans hT.contents_eq
    have hid : ∀ row, T'.cell? row idColumn = U.cell? row idColumn :=
      fun row => hcells row _ (by decide)
    refine ⟨⟨T', count, hT.update_self T', hn.congr hcells, fun kind => ?_⟩, ?_⟩
    · simpa only [unnumbered, hid] using hcount kind
    · intro e id hmemory
      have hnumber := h.memory e id hmemory
      rwa [hT.contents_eq, NumberedAs, ← hid, ← (hT.update_self T').contents_eq] at hnumber
  · exact h.update_ne hother T'

theorem card_unnumbered_lt (hn : Numbered T count) (he : e ∈ strings)
    (hfree : T.cell? e.nameRow idColumn = none) (hid : NumberedAs T' e id)
    (hkept : ∀ e id, NumberedAs T e id → NumberedAs T' e id) (kind : EntityKind) :
    (if kind = e.kind then 1 else 0) + (unnumbered T' strings kind).card ≤
      (unnumbered T strings kind).card := by
  have hsub : unnumbered T' strings kind ⊆ unnumbered T strings kind := by
    intro e' he'
    rw [mem_unnumbered] at he' ⊢
    obtain ⟨hmem, hkind, hfree'⟩ := he'
    refine ⟨hmem, hkind, ?_⟩
    rcases cell?_nameRow hn e' with hnone | ⟨id', hid'⟩
    · exact hnone
    · have hkept' := hkept e' id' hid'
      rw [NumberedAs, hfree'] at hkept'
      cases hkept'
  split
  · next heq =>
    subst heq
    have hlt : (unnumbered T' strings e.kind).card < (unnumbered T strings e.kind).card := by
      refine Finset.card_lt_card (Finset.ssubset_iff_of_subset hsub |>.mpr ⟨e, ?_, ?_⟩)
      · exact mem_unnumbered.mpr ⟨he, rfl, hfree⟩
      · rw [mem_unnumbered, hid]
        simp
    omega
  · rw [Nat.zero_add]
    exact Finset.card_le_card hsub

theorem resolve_run (h : t.Room strings s) (he : e ∈ strings) :
    ∃ id s', (t.resolve e).run answer s = (.ok id, s') ∧ t.Room strings s' ∧ t.Grows s s' ∧
      NumberedAs (s'.contents t.table) e id := by
  obtain ⟨T, count, hT, hn, hcount⟩ := h.table
  have hcontents := hT.contents_eq
  rcases cell?_nameRow hn e with hfree | ⟨id, hid⟩
  · have hpos : 0 < (unnumbered T strings e.kind).card :=
      Finset.card_pos.mpr ⟨e, mem_unnumbered.mpr ⟨he, rfl, hfree⟩⟩
    have hlt : count e.kind < 4294967295 := by
      have := hcount e.kind
      omega
    obtain ⟨id, s', T', hrun, hT', hn', hmemory, hid, hgrows⟩ :=
      (resolve_run_of_free hT hn (hcontents ▸ h.memory) hfree).1 hlt
    have hkept := hgrows.numbers
    rw [hcontents, hT'.contents_eq] at hkept
    rw [← hT'.contents_eq] at hmemory
    refine ⟨id, s', hrun, ⟨⟨T', _, hT', hn', fun kind => ?_⟩, hmemory⟩, hgrows,
      hT'.contents_eq.symm ▸ hid⟩
    have hfewer := card_unnumbered_lt hn he hfree hid hkept kind
    have hle := hcount kind
    split
    · next heq =>
      subst heq
      rw [if_pos rfl] at hfewer
      omega
    · next hne =>
      rw [if_neg hne] at hfewer
      omega
  · rw [← hcontents] at hid
    obtain ⟨s', hrun, hcatalog, hready⟩ := resolve_run_of_numbered h.ready hid
    have hgrows : t.Grows s s' := .of_catalog_eq hcatalog
    refine ⟨id, s', hrun, ⟨⟨T, count, ?_, hn, hcount⟩, hready.memory⟩, hgrows,
      hgrows.numbers e id hid⟩
    rwa [Holds, hcatalog]

end Room

inductive Step : TableOp → Prop where
  | read (row : Bytes) : Step (.get row idColumn)
  | count (kind : EntityKind) : Step (.incrementAndGet (counterRow kind) counterColumn 1)
  | record (kind : EntityKind) (id : UInt32) (name : Bytes) :
      Step (.put (numberRow kind id) nameColumn name)
  | claim (e : Entity) (id : UInt32) :
      Step (.swap e.nameRow idColumn none (some (Bytes.ofUInt32 id)))
  | retract (kind : EntityKind) (id : UInt32) (name : Bytes) :
      Step (.swap (numberRow kind id) nameColumn (some name) none)

theorem Step.within {op : TableOp} (h : Step op) : op.Within (· ∈ Entity.columns) := by
  cases h <;> simp [TableOp.Within, Entity.columns]

theorem Step.cell?_counter {op : TableOp} (h : Step op) {a : op.Answer}
    (hperform : T.perform op = .ok (a, T'))
    (hcount : ∀ kind, op ≠ .incrementAndGet (counterRow kind) counterColumn 1)
    (kind : EntityKind) : T'.cell? (counterRow kind) counterColumn =
      T.cell? (counterRow kind) counterColumn := by
  cases h with
  | read row =>
      cases hperform
      rfl
  | count kind' => exact absurd rfl (hcount kind')
  | record kind' id name =>
      cases hperform
      simp [Table.cell?_setCell]
  | claim e id =>
      simp only [Table.perform] at hperform
      split at hperform <;> cases hperform
      · simp [Table.cell?_setCell]
      · rfl
  | retract kind' id name =>
      simp only [Table.perform] at hperform
      split at hperform <;> cases hperform
      · simp [Table.cell?_setCell]
      · rfl

def Asks (t : EntityTable) : Storage.Request → Prop
  | .table id op => id = t.table ∧ Step op
  | .known cache _ => cache = t.cache
  | .remember cache _ _ => cache = t.cache

def AsksOnly (t : EntityTable) (q : Storage.Request) : Prop :=
  t.Asks q ∧ Numbering.raises q = false

/-- Operations on the table by which strings are numbered. -/
def Numbers (t : EntityTable) (q : Storage.Request) : Prop := ∃ op, q = .table t.table op ∧ Step op

theorem Numbers.asks {q : Storage.Request} (h : t.Numbers q) : t.Asks q := by
  obtain ⟨op, rfl, hop⟩ := h
  exact ⟨rfl, hop⟩

theorem read_numbers (t : EntityTable) (e : Entity) :
    (t.read e).Only fun q => t.Numbers q ∧ Numbering.raises q = false := by
  refine Program.only_bind (Program.only_request ⟨⟨_, rfl, .read ..⟩, rfl⟩) fun cell => ?_
  cases cell <;> exact Program.only_result _

theorem yieldClaim_numbers (t : EntityTable) (e : Entity) (id : UInt32) :
    (t.yieldClaim e id).Only fun q => t.Numbers q ∧ Numbering.raises q = false := by
  refine Program.only_bind (Program.only_attempt
    (Program.only_request ⟨⟨_, rfl, .retract ..⟩, rfl⟩)) fun _ => ?_
  refine Program.only_bind (Program.only_request ⟨⟨_, rfl, .read ..⟩, rfl⟩) fun cell => ?_
  cases cell <;> exact Program.only_result _

theorem settle_numbers (t : EntityTable) (e : Entity) (id : UInt32) :
    ((put t.table (numberRow e.kind id) nameColumn (Utf8.encode e.name)).bind fun _ =>
      (swap t.table e.nameRow idColumn none (some (Bytes.ofUInt32 id))).bind fun claimed =>
        if claimed then .result (.ok id) else t.yieldClaim e id).Only
      fun q => t.Numbers q ∧ Numbering.raises q = false := by
  refine Program.only_bind (Program.only_request ⟨⟨_, rfl, .record ..⟩, rfl⟩) fun _ => ?_
  refine Program.only_bind (Program.only_request ⟨⟨_, rfl, .claim ..⟩, rfl⟩) fun claimed => ?_
  cases claimed
  · exact t.yieldClaim_numbers e _
  · exact Program.only_result _

theorem allocate_numbers (t : EntityTable) (e : Entity) : (t.allocate e).Only t.Numbers := by
  refine Program.only_bind (Program.only_request ⟨_, rfl, .count _⟩) fun next => ?_
  split
  · exact Program.only_mono (fun _ h => h.1) (t.settle_numbers e _)
  · exact Program.only_result _

theorem readOrAllocate_numbers (t : EntityTable) (e : Entity) :
    (t.readOrAllocate e).Only t.Numbers := by
  refine Program.only_bind (Program.only_mono (fun _ h => h.1) (t.read_numbers e)) fun found => ?_
  cases found
  · exact t.allocate_numbers e
  · exact Program.only_result _

theorem resolve_only (t : EntityTable) (e : Entity) : (t.resolve e).Only t.Asks := by
  refine Program.only_bind (Program.only_request rfl) fun found => ?_
  cases found with
  | some id => exact Program.only_result _
  | none =>
      refine Program.only_bind (Program.only_mono (fun _ h => h.asks)
        (t.readOrAllocate_numbers e)) fun id => ?_
      exact Program.only_bind (Program.only_request rfl) fun _ => Program.only_result _

def Exhausts : (q : Storage.Request) → Except Error q.Answer → Prop
  | .table _ (.incrementAndGet ..), answer => ∀ n, answer = .ok n → 4294967295 < n.toInt
  | _, _ => False

theorem raises_of_exhausts {q : Storage.Request} {answer : Except Error q.Answer}
    (h : Exhausts q answer) : Numbering.raises q = true := by
  unfold Exhausts at h
  split at h
  · rfl
  · cases h

theorem failsOn_of_asksOnly {α : Type} {p : Work α} (h : p.Only t.AsksOnly) :
    p.FailsOn Exhausts := by
  refine Program.failsOn_of_only (Program.only_mono (fun q hq answer hfatal => ?_) h)
  have hraises := raises_of_exhausts hfatal
  rw [hq.2] at hraises
  cases hraises

theorem allocate_failsOn (t : EntityTable) (e : Entity) : (t.allocate e).FailsOn Exhausts := by
  refine Program.failsOn_request_bind (fun next => ?_) fun next hfatal => ?_
  · split
    · exact failsOn_of_asksOnly (Program.only_mono (fun _ h => ⟨h.1.asks, h.2⟩)
        (t.settle_numbers e _))
    · trivial
  · have hnext : 4294967295 < next.toInt := hfatal next rfl
    have hrange : ¬ (0 ≤ next && next ≤ 4294967295) = true := by
      simp only [Bool.and_eq_true, decide_eq_true_eq, not_and]
      intro _ hle
      rw [Int64.le_iff_toInt_le] at hle
      exact absurd hle (Int.not_le.mpr hnext)
    exact ⟨_, if_neg hrange⟩

theorem resolve_failsOn (t : EntityTable) (e : Entity) : (t.resolve e).FailsOn Exhausts := by
  refine Program.failsOn_request_bind (fun found => ?_) fun _ => False.elim
  cases found with
  | some id => trivial
  | none =>
      refine Program.failsOn_bind (Program.failsOn_bind
        (failsOn_of_asksOnly (Program.only_mono (fun _ h => ⟨h.1.asks, h.2⟩)
          (t.read_numbers e))) fun found => ?_) fun id => ?_
      · cases found
        · exact t.allocate_failsOn e
        · trivial
      · exact Program.failsOn_request_bind (fun _ => trivial) fun _ => False.elim

end EntityTable

end Rollup
