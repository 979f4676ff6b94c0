import Rollup.Proofs.Entity.Cache

namespace Rollup

open Storage Entity

/-- A property of unsteady times that allows for something to be spent. -/
structure Budget where
  Holds : Nat → Unsteady → Prop
  mono : ∀ {n n' u}, n ≤ n' → Holds n u → Holds n' u

namespace Budget

variable {B : Budget} {α β : Type} {a b : Nat} {p : Work α}

/-- Whatever fails, a program spends so much at most. -/
def Spends (B : Budget) (cost : Nat) (p : Work α) : Prop :=
  ∀ n u, B.Holds n u → B.Holds (n + cost) (p.run Unsteady.answer u).2

namespace Spends

theorem result (outcome : Except Error α) : B.Spends 0 (.result outcome) := fun _ _ h => h

theorem bind {f : α → Work β} (hp : B.Spends a p) (hf : ∀ x, B.Spends b (f x)) :
    B.Spends (a + b) (p.bind f) := by
  intro n u hu
  have hu' := hp n u hu
  rw [← Nat.add_assoc, Program.run_bind]
  split
  · next x v hrun =>
    rw [hrun] at hu'
    exact hf x (n + a) v hu'
  · next e v hrun =>
    rw [hrun] at hu'
    exact B.mono (Nat.le_add_right ..) hu'

theorem bind_free {f : α → Work β} (hp : B.Spends a p) (hf : ∀ x, B.Spends 0 (f x)) :
    B.Spends a (p.bind f) := hp.bind hf

theorem mapM {f : α → Work β} {cost : α → Nat} (hf : ∀ x, B.Spends (cost x) (f x)) (l : List α) :
    B.Spends (l.map cost).sum (l.mapM f) := by
  induction l with
  | nil => exact result _
  | cons x l ih =>
      simp only [List.mapM_cons, Program.bind_eq, Program.pure_eq]
      exact (hf x).bind fun _ => ih.bind_free fun _ => result _

end Spends

end Budget

namespace EntityTable

theorem lookup_reads (t : EntityTable) (e : Entity) : (t.lookup e).Only Unsteady.Reads := by
  have hread : (t.read e).Only Unsteady.Reads :=
    Program.only_bind (Program.only_request trivial) fun cell => by
      cases cell <;> exact Program.only_result _
  refine Program.only_bind (Program.only_request trivial) fun found => ?_
  cases found with
  | some id => exact Program.only_result _
  | none =>
      refine Program.only_bind hread fun found => ?_
      cases found with
      | none => exact Program.only_result _
      | some id =>
          exact Program.only_bind (Program.only_request trivial) fun _ => Program.only_result _

variable {t : EntityTable} {table : TableId} {count : EntityKind → Nat} {e : Entity}
  {id : UInt32} {n n' : Nat} {s s' : Storage} {u : Unsteady}

/-- Memories hold nothing but the numbers of the table, which is in order after so many
attempts to give out a number, unless the counter can have come round. -/
structure Upkept (table : TableId) (attempts : Nat) (s : Storage) : Prop where
  remembers : Remembers table s
  numbered : attempts < 2 ^ 63 →
    ∃ count, Numbered (s.contents table) count ∧ ∀ kind, count kind ≤ attempts

namespace Upkept

theorem fresh (hempty : s.contents table = .empty)
    (hmemory : ∀ cache e, s.memory cache e = none) : Upkept table 0 s := by
  refine ⟨fun cache e id h => ?_, fun _ => ⟨fun _ => 0, ?_, fun _ => Nat.le_refl 0⟩⟩
  · rw [hmemory] at h
    cases h
  · rw [hempty]
    exact .empty

theorem mono (h : Upkept table n s) (hle : n ≤ n') : Upkept table n' s := by
  refine ⟨h.remembers, fun hn' => ?_⟩
  obtain ⟨count, hn, hcount⟩ := h.numbered (Nat.lt_of_le_of_lt hle hn')
  exact ⟨count, hn, fun kind => Nat.le_trans (hcount kind) hle⟩

def budget (table : TableId) : Budget where
  Holds n u := Upkept table n u.storage
  mono hle h := h.mono hle

theorem congr (h : Upkept table n s) (hremembers : Remembers table s')
    (hsame : s'.contents table = s.contents table) : Upkept table n s' :=
  ⟨hremembers, hsame ▸ h.numbered⟩

end Upkept

theorem yieldClaim_numbered (hn : Numbered (u.storage.contents t.table) count)
    (hfree : ∀ e' : Entity, e'.kind = e.kind → ¬ NumberedAs (u.storage.contents t.table) e' id) :
    Numbered (((t.yieldClaim e id).run Unsteady.answer u).2.storage.contents t.table) count := by
  obtain ⟨outcome, u₁, hattempt, hn₁⟩ : ∃ outcome u₁,
      (swap t.table (numberRow e.kind id) nameColumn (some (Utf8.encode e.name)) none).attempt.run
        Unsteady.answer u = (.ok outcome, u₁) ∧
          Numbered (u₁.storage.contents t.table) count := by
    rw [Program.run_attempt]
    refine ⟨_, _, rfl, ?_⟩
    rcases u.perform_run_cases t.table (.swap (numberRow e.kind id) nameColumn
      (some (Utf8.encode e.name)) none) with ⟨err, v, hrun, hv⟩ | ⟨a, T, v, hperform, hrun, hv⟩
    · rwa [swap, hrun, hv]
    · rw [swap, hrun, hv, Function.update_self]
      simp only [Table.perform] at hperform
      split at hperform <;> cases hperform
      · exact hn.setRecord hfree none
      · exact hn
  simp only [yieldClaim, Storage.get, Program.bind_eq]
  rw [Program.run_bind_of_ok hattempt]
  rcases u₁.perform_run_cases t.table (.get e.nameRow idColumn) with
    ⟨err, v, hrun, hv⟩ | ⟨cell, T, v, hperform, hrun, hv⟩
  · rwa [Program.run_bind_of_error hrun, hv]
  · cases hperform
    rw [Function.update_eq_self] at hv
    rw [Program.run_bind_of_ok hrun]
    split <;> exact hv.symm ▸ hn₁

theorem settle_numbered (hn : Numbered (u.storage.contents t.table) count) (hpos : 0 < id.toNat)
    (hle : id.toNat ≤ count e.kind)
    (hfree : ∀ e' : Entity, e'.kind = e.kind → ¬ NumberedAs (u.storage.contents t.table) e' id) :
    Numbered ((((put t.table (numberRow e.kind id) nameColumn (Utf8.encode e.name)).bind fun _ =>
      (swap t.table e.nameRow idColumn none (some (Bytes.ofUInt32 id))).bind fun claimed =>
        if claimed then .result (.ok id) else t.yieldClaim e id).run
          Unsteady.answer u).2.storage.contents t.table) count := by
  simp only [put, swap]
  rcases u.perform_run_cases t.table (.put (numberRow e.kind id) nameColumn (Utf8.encode e.name))
    with ⟨err, v, hrun, hv⟩ | ⟨_, T, v, hperform, hrun, hv⟩
  · rwa [Program.run_bind_of_error hrun, hv]
  cases hperform
  rw [Program.run_bind_of_ok hrun]
  have hn₁ : Numbered (v.storage.contents t.table) count := by
    rw [hv, Function.update_self]
    exact hn.setRecord hfree _
  have hrecord : (v.storage.contents t.table).cell? (numberRow e.kind id) nameColumn =
      some (Utf8.encode e.name) := by
    rw [hv, Function.update_self, Table.cell?_setCell, if_pos ⟨rfl, rfl⟩]
  have hfree₁ : ∀ e' : Entity, e'.kind = e.kind →
      ¬ NumberedAs (v.storage.contents t.table) e' id := by
    intro e' hkind hid
    refine hfree e' hkind ?_
    rw [hv, Function.update_self] at hid
    simpa [numberedAs_setCell] using hid
  rcases v.perform_run_cases t.table (.swap e.nameRow idColumn none (some (Bytes.ofUInt32 id)))
    with ⟨err, w, hrun, hw⟩ | ⟨claimed, T, w, hperform, hrun, hw⟩
  · rwa [Program.run_bind_of_error hrun, hw]
  rw [Program.run_bind_of_ok hrun]
  simp only [Table.perform] at hperform
  split at hperform <;> cases hperform
  · rw [if_pos rfl, Program.run_result, hw, Function.update_self]
    exact hn₁.claim hpos hle hrecord
  · rw [Function.update_eq_self] at hw
    rw [if_neg Bool.false_ne_true]
    exact yieldClaim_numbered (by rwa [hw]) (by rwa [hw])

theorem allocate_numbered (hn : Numbered (u.storage.contents t.table) count)
    (hcount : count e.kind + 1 < 2 ^ 63) : ∃ count',
      Numbered (((t.allocate e).run Unsteady.answer u).2.storage.contents t.table) count' ∧
        ∀ kind, count' kind ≤ count kind + 1 := by
  simp only [allocate, incrementAndGet, Program.bind_eq]
  rcases u.perform_run_cases t.table (.incrementAndGet (counterRow e.kind) counterColumn 1) with
    ⟨err, v, hrun, hv⟩ | ⟨next, T, v, hperform, hrun, hv⟩
  · rw [Program.run_bind_of_error hrun, hv]
    exact ⟨count, hn, fun kind => Nat.le_succ _⟩
  cases (hn.add_counter e.kind).symm.trans hperform
  rw [Program.run_bind_of_ok hrun]
  have hn₁ := hn.counted e.kind
  refine ⟨fun kind => if kind = e.kind then count e.kind + 1 else count kind, ?_, ?_⟩
  · by_cases hrange : count e.kind + 1 ≤ 4294967295
    · have hid : (UInt32.ofNat (count e.kind + 1)).toNat = count e.kind + 1 :=
        UInt32.toNat_ofNat_of_lt' (by simp only [UInt32.size]; omega)
      rw [if_pos ((inRange_iff (by omega)).mpr hrange)]
      simp only [Int64.toUInt64_ofNat', UInt64.toUInt32_ofNat']
      refine settle_numbered ?_ (by omega) ?_ ?_
      · rwa [hv, Function.update_self]
      · rw [if_pos rfl, hid]
      · -- the number is beyond all that strings have
        intro e' hkind hid'
        rw [hv, Function.update_self] at hid'
        have hold : NumberedAs (u.storage.contents t.table) e'
            (UInt32.ofNat (count e.kind + 1)) := by
          simpa [numberedAs_setCell] using hid'
        have hgiven := (hn.recorded hold).2.1
        rw [hkind, hid] at hgiven
        omega
    · rw [if_neg (mt (inRange_iff (by omega)).mp hrange)]
      rwa [Program.fail, Program.run_result, hv, Function.update_self]
  · intro kind
    dsimp only
    split
    · next heq => rw [heq]
    · exact Nat.le_succ _

theorem readOrAllocate_numbered (hn : Numbered (u.storage.contents t.table) count)
    (hcount : count e.kind + 1 < 2 ^ 63) : ∃ count',
      Numbered (((t.readOrAllocate e).run Unsteady.answer u).2.storage.contents t.table) count' ∧
        ∀ kind, count' kind ≤ count kind + 1 := by
  have hkept : ∀ v : Unsteady, v.storage.contents = u.storage.contents →
      ∃ count', Numbered (v.storage.contents t.table) count' ∧
        ∀ kind, count' kind ≤ count kind + 1 :=
    fun v hv => ⟨count, by rwa [hv], fun kind => Nat.le_succ _⟩
  simp only [readOrAllocate, read, Storage.get, Program.bind_eq, Program.bind_assoc]
  rcases u.perform_run_cases t.table (.get e.nameRow idColumn) with
    ⟨err, v, hrun, hv⟩ | ⟨cell, T, v, hperform, hrun, hv⟩
  · rw [Program.run_bind_of_error hrun]
    exact hkept v hv
  · cases hperform
    rw [Function.update_eq_self] at hv
    rw [Program.run_bind_of_ok hrun]
    cases (u.storage.contents t.table).cell? e.nameRow idColumn with
    | none => exact allocate_numbered (by rwa [hv]) hcount
    | some cell =>
        dsimp only
        cases readId cell with
        | error err => exact hkept v hv
        | ok id => exact hkept v hv

namespace Upkept

/-- Whatever fails, to resolve a string gives out one number at most. -/
theorem resolve (t : EntityTable) (e : Entity) : (budget t.table).Spends 1 (t.resolve e) := by
  intro n u h
  have hmet := (Question.resolve e).ask_transparent (t := t) (u := u) ⟨rfl, rfl⟩ h.remembers
  refine ⟨hmet.remembers, fun hbound => ?_⟩
  have hcontents : ((t.resolve e).run Unsteady.answer u).2.storage.contents t.table =
      ((t.readOrAllocate e).run Unsteady.answer u).2.storage.contents t.table := by
    rw [contents, contents]
    exact congrArg (fun catalog => (Catalog.table catalog t.table).contents) hmet.catalog
  obtain ⟨count, hnumbered, hcount⟩ := h.numbered (by omega)
  have hkind := hcount e.kind
  obtain ⟨count', hnumbered', hcount'⟩ := readOrAllocate_numbered (e := e) hnumbered (by omega)
  refine ⟨count', hcontents ▸ hnumbered', fun kind => ?_⟩
  have := hcount kind
  have := hcount' kind
  omega

theorem lookup (h : Upkept t.table n u.storage) (e : Entity) :
    ((t.lookup e).run Unsteady.answer u).2.storage.contents = u.storage.contents ∧
      Upkept t.table n ((t.lookup e).run Unsteady.answer u).2.storage := by
  have hmet := (Question.lookup e).ask_transparent (t := t) (u := u) ⟨rfl, rfl⟩ h.remembers
  have hcontents := Unsteady.contents_run (t.lookup_reads e) u
  exact ⟨hcontents, h.congr hmet.remembers (congrFun hcontents t.table)⟩

theorem answer (h : Upkept table n u.storage) {other : TableId} (hother : table ≠ other)
    (op : TableOp) : Upkept table n (Unsteady.answer (.table other op) u).2.storage := by
  have hsame : (Unsteady.answer (.table other op) u).2.storage.contents table =
      u.storage.contents table := by
    rcases u.answer_table other op with ⟨err, heq⟩ | ⟨a, T, -, heq⟩ <;> rw [heq]
    · exact u.contents_evicted table
    · rw [contents_update, if_neg hother, Unsteady.contents_evicted]
  exact h.congr (h.remembers.answer_table fun e id hid => hsame ▸ hid) hsame

end Upkept

end EntityTable

end Rollup
