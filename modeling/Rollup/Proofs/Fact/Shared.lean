import Rollup.Proofs.Fact.Ledger
import Rollup.Proofs.Fact.Sparing
import Rollup.Proofs.Fact.Steps
import Rollup.Proofs.Program.Schedule

namespace Rollup

open Storage Entity Program

/-- The operation sets a cell whatever the cell holds, or adds to it. -/
def TableOp.enters : TableOp → Bool
  | .put .. | .increment .. => true
  | _ => false

namespace Table

variable {T T' U : Table} {op : TableOp} {row column : Bytes}

def after (T : Table) (op : TableOp) : Table :=
  match T.perform op with
  | .ok (_, T') => T'
  | .error _ => T

def replay (T : Table) (ops : List TableOp) : Table := ops.foldl after T

theorem add_congr {delta updated : Int64} (hcell : U.cell? row column = T.cell? row column)
    (h : T.add row column delta = .ok (updated, T')) :
    U.add row column delta =
      .ok (updated, U.setCell row column (some (Bytes.ofInt64 updated))) := by
  obtain ⟨hupdated, -⟩ := of_add_ok h
  cases hold : T.cell? row column with
  | none =>
      rw [add_none delta (hcell.trans hold), hupdated, hold]
      rfl
  | some cell =>
      simp only [add, hcell, hold, Bind.bind, Except.bind, pure, Except.pure] at h ⊢
      cases hread : readLong cell with
      | error e => simp [hread] at h
      | ok current =>
          simp only [hread, Except.ok.injEq, Prod.mk.injEq] at h ⊢
          exact ⟨h.1, by rw [h.1]⟩

theorem after_add_ne {delta : Int64} {row' column' : Bytes}
    (hne : ¬ (row' = row ∧ column' = column)) :
    (U.after (.increment row column delta)).cell? row' column' = U.cell? row' column' := by
  simp only [after, perform]
  cases hadd : U.add row column delta with
  | error e => rfl
  | ok r =>
      obtain ⟨-, htable⟩ := of_add_ok hadd
      simp only [Except.map, htable, cell?_setCell, if_neg hne]

theorem after_agree {region : Bytes → Bytes → Prop} (hop : op.enters = true)
    (hagree : ∀ row column, region row column → T.cell? row column = U.cell? row column)
    {a : op.Answer} (hperform : T.perform op = .ok (a, T')) (hregion : region row column) :
    T'.cell? row column = (U.after op).cell? row column := by
  cases op with
  | put row' column' value =>
      cases hperform
      simp only [after, perform, cell?_setCell, hagree row column hregion]
  | increment row' column' delta =>
      cases hadd : T.add row' column' delta with
      | error e => simp [perform, hadd, Except.map] at hperform
      | ok r =>
          obtain ⟨updated, T₁⟩ := r
          simp only [perform, hadd, Except.map, Except.ok.injEq] at hperform
          obtain ⟨-, htable⟩ := of_add_ok hadd
          obtain rfl : T₁ = T' := congrArg Prod.snd hperform
          rw [htable, cell?_setCell]
          split
          · next heq =>
            obtain ⟨rfl, rfl⟩ := heq
            simp only [after, perform, add_congr (hagree row column hregion).symm hadd,
              Except.map, cell?_setCell, and_self, if_true]
          · next hne => rw [after_add_ne hne, hagree row column hregion]
  | _ => cases hop

end Table

/-- Tables and memories, with the table operations that were carried out, in their order. -/
structure Logged where
  storage : Storage
  log : List (TableId × TableOp) := []

namespace Logged

def kept : (q : Storage.Request) → Except Error q.Answer → List (TableId × TableOp)
  | .table id op, .ok _ => [(id, op)]
  | _, _ => []

def answer : Handler interface Logged := fun q s =>
  let met := Storage.answer q s.storage
  (met.1, ⟨met.2, s.log ++ kept q met.1⟩)

def writes (s : Logged) (id : TableId) : List TableOp :=
  s.log.filterMap fun e => if e.1 = id ∧ e.2.enters = true then some e.2 else none

variable {s : Logged} {id : TableId} {op : TableOp} {q : Storage.Request}

theorem writes_answer (hq : ∀ op, q = .table id op → op.enters = false) (s : Logged) :
    (answer q s).2.writes id = s.writes id := by
  have hskip : ∀ e ∈ kept q (Storage.answer q s.storage).1,
      ¬ (e.1 = id ∧ e.2.enters = true) := by
    cases q with
    | known cache e => simp [kept]
    | remember cache e number => simp [kept]
    | table id' op =>
        cases (Storage.answer (.table id' op) s.storage).1 with
        | error e => simp [kept]
        | ok a =>
            simp only [kept, List.mem_singleton, forall_eq]
            rintro ⟨rfl, henters⟩
            rw [hq op rfl] at henters
            cases henters
  simp only [writes, answer, List.filterMap_append]
  rw [List.filterMap_eq_nil_iff.mpr fun e he => if_neg (hskip e he), List.append_nil]

theorem answer_table (s : Logged) (id : TableId) (op : TableOp) :
    (∃ err, answer (.table id op) s = (.error err, s)) ∨
    ∃ a T, (s.storage.contents id).perform op = .ok (a, T) ∧
      answer (.table id op) s = (.ok a, ⟨s.storage.update id T, s.log ++ [(id, op)]⟩) := by
  rcases Storage.answer_table s.storage id op with ⟨e, heq⟩ | ⟨a, T, hperform, heq⟩
  · refine .inl ⟨e, ?_⟩
    simp only [answer, heq, kept, List.append_nil]
  · refine .inr ⟨a, T, hperform, ?_⟩
    simp only [answer, heq, kept]

theorem writes_concat (henters : op.enters = true) (s : Logged) (storage : Storage) :
    (⟨storage, s.log ++ [(id, op)]⟩ : Logged).writes id = s.writes id ++ [op] := by
  simp [writes, henters]

end Logged

namespace FactTable

def through (t : FactTable) (cache : Nat) : FactTable :=
  { t with entities := { t.entities with cache } }

/-- Tasks that change one table. Each has a memory of its own, or shares one. -/
def works (t : FactTable) : Pool.Works interface (Nat × Change) Empty Logged Unit where
  handle := Logged.answer
  fallible := fallible
  program duty := (t.through duty.1).perform duty.2
  disturb := nofun

/-- The operation is the one by which a task enters its value, under some numbers of the
series. -/
def Writes (t : FactTable) (duties : List (Nat × Change)) (op : TableOp)
    (d : Nat × SeriesNumbers) : Prop :=
  ∃ cache m, duties[d.1]? = some (cache, .write m) ∧ m.defect? = none ∧ op = t.entry m d.2

/-- The tasks that have got through, in their order. Each has entered its value once, and in
a part of the table nothing else has happened. -/
structure Traced (t : FactTable) (duties : List (Nat × Change)) (T : Table)
    (region : Bytes → Bytes → Prop) (s : Logged) (done : List (Nat × SeriesNumbers)) : Prop where
  writes : List.Forall₂ (t.Writes duties) (s.writes t.table) done
  once : (done.map Prod.fst).Nodup
  cells : ∀ row column, region row column → (s.storage.contents t.table).cell? row column =
    (T.replay (s.writes t.table)).cell? row column

variable {t : FactTable} {duties : List (Nat × Change)} {T T' : Table}
  {region : Bytes → Bytes → Prop} {s : Logged} {done : List (Nat × SeriesNumbers)}
  {q : Storage.Request} {op : TableOp} {cutoff : Int64} {i cache : Nat} {m : Metric}
  {k : SeriesNumbers}

theorem enters_entry (t : FactTable) (m : Metric) (k : SeriesNumbers) :
    (t.entry m k).enters = true := by
  simp only [entry]
  cases m.kind <;> rfl

theorem safe_enter {γ : Type} {D : Discipline Nat Logged γ} {x : Logged × γ}
    {through : Logged × γ → Prop} (hstays : ∀ y z, D.rely i y z → through y → through z)
    (hstep : ∀ y, D.rely i x y → D.inv y.1 y.2 → ∀ (a : (t.entry m k).Answer) T',
      (y.1.storage.contents t.table).perform (t.entry m k) = .ok (a, T') →
      let s' : Logged := ⟨y.1.storage.update t.table T', y.1.log ++ [(t.table, t.entry m k)]⟩
      ∃ g, D.inv s' g ∧ (∀ j, j ≠ i → D.rely j y (s', g)) ∧ through (s', g)) :
    (t.enter m k).Safe D Logged.answer fallible i
      (fun outcome y => outcome = .ok () → through y) x := by
  rw [enter_eq]
  refine safe_bind (safe_answer (Q := fun _ => through) (fun _ y z hz _ => hstays y z hz) ?_) ?_ ?_
  · intro y hy hinv _
    rcases Logged.answer_table y.1 t.table (t.entry m k) with ⟨_, heq⟩ | ⟨a, T', hperform, heq⟩
    · rw [heq]
      exact ⟨y.2, hinv, fun j _ => D.refl j y, nofun⟩
    · obtain ⟨g, hnext, hothers, hthrough⟩ := hstep y hy hinv a T' hperform
      rw [heq]
      exact ⟨g, hnext, hothers, fun _ _ => hthrough⟩
  · intro _ y _ hthrough z hz _ _
    exact hstays y z hz (hthrough _ rfl)
  · intro e y _ _ h
    cases h

theorem Clears.enters (h : t.Clears cutoff op) : op.enters = false := by
  cases h <;> rfl

namespace Traced

theorem start (t : FactTable) (duties : List (Nat × Change)) (region : Bytes → Bytes → Prop)
    (s : Storage) : t.Traced duties (s.contents t.table) region ⟨s, []⟩ [] :=
  ⟨.nil, .nil, fun _ _ _ => rfl⟩

theorem beside (h : t.Traced duties T region s done) (hq : ∀ op, q ≠ .table t.table op) :
    t.Traced duties T region (Logged.answer q s).2 done := by
  have hwrites := Logged.writes_answer (s := s) (fun op heq => absurd heq (hq op))
  refine ⟨hwrites ▸ h.writes, h.once, ?_⟩
  rw [hwrites]
  simp only [Logged.answer, contents_answer hq]
  exact h.cells

theorem clear (h : t.Traced duties T region s done) (hq : t.Deletes cutoff q)
    (hregion : ∀ row column, region row column → ∃ k time, row = t.rowOf k time ∧
      column = t.columnOf time ∧ 0 ≤ time.toInt ∧ ¬ t.Expired cutoff time) :
    t.Traced duties T region (Logged.answer q s).2 done := by
  have hspares := (spares_answer hq s.storage).cells
  obtain ⟨op, rfl, hclears⟩ := hq
  have hwrites : (Logged.answer (.table t.table op) s).2.writes t.table = s.writes t.table :=
    Logged.writes_answer (by rintro _ ⟨⟩; exact hclears.enters) s
  refine ⟨hwrites ▸ h.writes, h.once, fun row column hrc => ?_⟩
  rw [hwrites, ← h.cells row column hrc]
  obtain ⟨k, time, rfl, rfl, htime, hkept⟩ := hregion row column hrc
  exact hspares k time htime hkept

theorem enter (h : t.Traced duties T region s done)
    (hduty : duties[i]? = some (cache, .write m)) (hvalid : m.defect? = none)
    (hfirst : i ∉ done.map Prod.fst) {a : (t.entry m k).Answer}
    (hperform : (s.storage.contents t.table).perform (t.entry m k) = .ok (a, T')) :
    t.Traced duties T region ⟨s.storage.update t.table T', s.log ++ [(t.table, t.entry m k)]⟩
      (done ++ [(i, k)]) := by
  have henters := t.enters_entry m k
  refine ⟨?_, ?_, fun row column hregion => ?_⟩
  · rw [Logged.writes_concat henters]
    exact List.rel_append h.writes (.cons ⟨cache, m, hduty, hvalid, rfl⟩ .nil)
  · simp only [List.map_append, List.map_cons, List.map_nil]
    exact List.nodup_append.mpr ⟨h.once, List.nodup_singleton _, by
      rintro _ hi _ hj rfl
      rw [List.mem_singleton] at hj
      exact hfirst (hj ▸ hi)⟩
  · rw [Logged.writes_concat henters, Table.replay, List.foldl_append, contents_update,
      if_pos rfl]
    exact Table.after_agree henters h.cells hperform hregion

end Traced

end FactTable

end Rollup
