import Mathlib.Logic.Relation
import Rollup.Proofs.Retention.Window

namespace Rollup

open Storage Program

namespace MetricStore

variable {store : MetricStore} {s s' s'' : Storage}

def Erases (store : MetricStore) (q : Storage.Request) : Prop :=
  ∃ r, ∃ t ∈ (store.table r).generations, ∃ op, q = .table t.table op ∧ op.Erases

structure Sheds (store : MetricStore) (s s' : Storage) : Prop where
  caches : s'.caches = s.caches
  others : ∀ id, (∀ r, ∀ t ∈ (store.table r).generations, t.table ≠ id) →
    s'.contents id = s.contents id
  cells : ∀ id row column, (s'.contents id).cell? row column = (s.contents id).cell? row column ∨
    (s'.contents id).cell? row column = none

theorem Sheds.refl (store : MetricStore) (s : Storage) : store.Sheds s s :=
  ⟨rfl, fun _ _ => rfl, fun _ _ _ => .inl rfl⟩

theorem Erases.sheds {q : Storage.Request} (h : store.Erases q) (s : Storage) :
    store.Sheds s (answer q s).2 := by
  obtain ⟨r, t, ht, op, rfl, hop⟩ := h
  rcases answer_table s t.table op with ⟨e, heq⟩ | ⟨a, T, hperform, heq⟩ <;> rw [heq]
  · exact .refl store s
  · refine ⟨rfl, fun id hother => ?_, fun id row column => ?_⟩
    · rw [contents_update, if_neg (hother r t ht).symm]
    · rw [contents_update]
      split
      · next hid =>
        subst hid
        exact hop.cell?_cases hperform row column
      · exact .inl rfl

theorem deleteBefore_only (store : MetricStore) (r : Resolution) (cutoff : Int64) :
    (store.deleteBefore r cutoff).Only store.Erases := by
  have hone (t : FactTable) (ht : t ∈ (store.table r).generations) :
      (t.deleteBefore cutoff).Only store.Erases :=
    only_mono (fun q ⟨op, hq, hop⟩ => ⟨r, t, ht, op, hq, hop⟩) (t.deleteBefore_only cutoff)
  simp only [deleteBefore, MetricTable.deleteBefore]
  cases htable : store.table r with
  | direct current => exact hone current (by simp [htable, MetricTable.generations])
  | bridged legacy current =>
      refine only_bind (hone legacy (by simp [htable, MetricTable.generations])) fun _ => ?_
      exact only_bind (hone current (by simp [htable, MetricTable.generations])) fun _ =>
        only_result _

end MetricStore

namespace Retention.Pass

variable {store : MetricStore} {clock : Clock} {p p' : Pass} {s s' : Storage}

/-- A run is at nothing but deletions. -/
def Erasing (store : MetricStore) (p : Pass) : Prop := p.rest.Only store.Erases

theorem erasing_begin (store : MetricStore) (windows : List (Resolution × Duration)) :
    (begin windows).Erasing store :=
  only_result _

theorem step_cases (h : p.Erasing store) (clock : Clock) (s : Storage) :
    store.Sheds s (p.step store clock s).2 ∧
      ∀ p', (p.step store clock s).1 = .inl p' → p'.Erasing store := by
  obtain ⟨rest, later, removed⟩ := p
  match rest, later with
  | .call q resume, later =>
      refine ⟨h.1.sheds s, fun p' hp' => ?_⟩
      obtain rfl := Sum.inl.inj hp'
      exact h.2 _ fun _ _ => trivial
  | .result (.ok n), (r, window) :: later =>
      refine ⟨.refl store s, fun p' hp' => ?_⟩
      obtain rfl := Sum.inl.inj hp'
      exact store.deleteBefore_only r (clock.cutoff window)
  | .result (.ok n), [] => exact ⟨.refl store s, nofun⟩
  | .result (.error e), later => exact ⟨.refl store s, nofun⟩

/-- A step leads from one run in flight to the other, whatever the time and the tables. -/
def Goes (store : MetricStore) (p p' : Pass) : Prop :=
  ∃ clock s, (p.step store clock s).1 = .inl p'

/-- What a run comes to if nothing comes between. -/
def finish (store : MetricStore) (clock : Clock) (p : Pass) (s : Storage) :
    Except Error Nat × Storage :=
  let (removed, s) := (do
    let n ← p.rest
    let m ← deleteExpired store clock p.later
    return p.removed + n + m : Work Nat).run answer s
  (removed.mapError .schedulingFailure, s)

theorem finish_begin (store : MetricStore) (clock : Clock)
    (windows : List (Resolution × Duration)) (s : Storage) :
    (begin windows).finish store clock s = (run store clock windows).run answer s := by
  have hsame : (do
      let n ← (begin windows).rest
      let m ← deleteExpired store clock (begin windows).later
      return (begin windows).removed + n + m : Work Nat) = deleteExpired store clock windows := by
    simp only [begin, LawfulMonad.pure_bind, Nat.zero_add]
    exact Program.bind_pure _
  rw [run_eq_mapError, finish, hsame]

theorem finish_step (store : MetricStore) (clock : Clock) (p : Pass) (s : Storage) :
    p.finish store clock s =
      match p.step store clock s with
      | (.inl p', s') => p'.finish store clock s'
      | (.inr outcome, s') => (outcome, s') := by
  obtain ⟨rest, later, removed⟩ := p
  match rest, later with
  | .call q resume, later => rfl
  | .result (.ok n), (r, window) :: later =>
      have hsame : (do
          let m ← deleteExpired store clock ((r, window) :: later)
          return removed + n + m : Work Nat) = (do
          let n' ← store.deleteBefore r (clock.cutoff window)
          let m ← deleteExpired store clock later
          return removed + n + n' + m : Work Nat) := by
        simp only [deleteExpired, List.mapM_cons, LawfulMonad.bind_assoc, LawfulMonad.pure_bind,
          List.foldr_cons, Nat.add_assoc]
      exact congrArg (fun work : Work Nat =>
        ((work.run answer s).1.mapError Error.schedulingFailure, (work.run answer s).2)) hsame
  | .result (.ok n), [] => rfl
  | .result (.error e), later => rfl

/-- A run that nothing disturbs gets to its end step by step. -/
inductive Ends (store : MetricStore) (clock : Clock) : Pass → Storage → Except Error Nat →
    Storage → Prop
  | last {p s outcome s'} (h : p.step store clock s = (.inr outcome, s')) :
      Ends store clock p s outcome s'
  | next {p s p' s' outcome s''} (h : p.step store clock s = (.inl p', s'))
      (hrest : Ends store clock p' s' outcome s'') : Ends store clock p s outcome s''

theorem ends_finish (store : MetricStore) (clock : Clock) (p : Pass) (s : Storage) :
    Ends store clock p s (p.finish store clock s).1 (p.finish store clock s).2 := by
  obtain ⟨rest, later, removed⟩ := p
  induction later generalizing rest removed s with
  | nil =>
      induction rest generalizing s with
      | result outcome => cases outcome <;> exact .last rfl
      | call q resume ih =>
          rw [finish_step]
          exact .next rfl (ih _ _)
  | cons w later ih =>
      induction rest generalizing s with
      | result outcome =>
          cases outcome with
          | ok n =>
              rw [finish_step]
              exact .next rfl (ih ..)
          | error e => exact .last rfl
      | call q resume ih' =>
          rw [finish_step]
          exact .next rfl (ih' _ _)

end Retention.Pass

end Rollup
