import Mathlib.Logic.Function.Basic
import Rollup.Proofs.Program.Requests
import Rollup.Proofs.Storage.Run

namespace Rollup

open Storage

structure Unsteady where
  storage : Storage
  /-- How the coming table operations fail from outside; behind the list's end none does. -/
  outages : List (Option Error) := []
  /-- What memories drop before the coming requests. -/
  evictions : List (List (Nat × Entity)) := []

namespace Unsteady

variable {u v : Unsteady} {id : TableId} {α : Type}

def evicted (u : Unsteady) : Storage :=
  (u.evictions.headD []).foldl (fun s dropped => s.forgotten dropped.1 dropped.2) u.storage

/-- The failure from outside that meets the next request. -/
def outage? (u : Unsteady) : Request → Option Error
  | .table .. => u.outages.head?.join
  | _ => none

/-- The outages that are to come after the next request. -/
def outagesAfter (u : Unsteady) : Request → List (Option Error)
  | .table .. => u.outages.tail
  | _ => u.outages

def answer : Handler interface Unsteady := fun q u =>
  let met : Except Error q.Answer × Storage := match u.outage? q with
    | some e => (.error e, u.evicted)
    | none => Storage.answer q u.evicted
  (met.1, ⟨met.2, u.outagesAfter q, u.evictions.tail⟩)

theorem catalog_evicted (u : Unsteady) : u.evicted.catalog = u.storage.catalog := by
  rw [evicted]
  generalize u.evictions.headD [] = dropped
  induction dropped generalizing u with
  | nil => rfl
  | cons d dropped ih => exact ih { u with storage := u.storage.forgotten d.1 d.2 }

theorem contents_evicted (u : Unsteady) (id : TableId) :
    u.evicted.contents id = u.storage.contents id := by
  rw [contents, catalog_evicted, contents]

theorem contents_evicted_eq (u : Unsteady) : u.evicted.contents = u.storage.contents :=
  funext u.contents_evicted

theorem memory_of_evicted {cache : Nat} {e : Entity} {number : UInt32}
    (h : u.evicted.memory cache e = some number) : u.storage.memory cache e = some number := by
  rw [evicted] at h
  generalize u.evictions.headD [] = dropped at h
  induction dropped generalizing u with
  | nil => exact h
  | cons d dropped ih =>
      exact memory_of_forgotten (ih (u := { u with storage := u.storage.forgotten d.1 d.2 }) h)

theorem answer_table (u : Unsteady) (id : TableId) (op : TableOp) :
    (∃ e, answer (.table id op) u = (.error e, ⟨u.evicted, u.outages.tail, u.evictions.tail⟩)) ∨
    ∃ a T, (u.storage.contents id).perform op = .ok (a, T) ∧
      answer (.table id op) u =
        (.ok a, ⟨u.evicted.update id T, u.outages.tail, u.evictions.tail⟩) := by
  unfold answer
  cases hmet : u.outage? (.table id op) with
  | some e => exact .inl ⟨e, rfl⟩
  | none =>
      rcases Storage.answer_table u.evicted id op with ⟨e, heq⟩ | ⟨a, T, hperform, heq⟩
      · exact .inl ⟨e, by rw [heq]; rfl⟩
      · exact .inr ⟨a, T, contents_evicted u id ▸ hperform, by rw [heq]; rfl⟩

theorem perform_run_cases (u : Unsteady) (id : TableId) (op : TableOp) :
    (∃ e v, (perform id op).run answer u = (.error e, v) ∧
      v.storage.contents = u.storage.contents) ∨
    ∃ a T v, (u.storage.contents id).perform op = .ok (a, T) ∧
      (perform id op).run answer u = (.ok a, v) ∧
      v.storage.contents = Function.update u.storage.contents id T := by
  rcases u.answer_table id op with ⟨e, heq⟩ | ⟨a, T, hperform, heq⟩
  · exact .inl ⟨e, _, heq, u.contents_evicted_eq⟩
  · refine .inr ⟨a, T, _, hperform, heq, ?_⟩
    funext other
    rw [contents_update, contents_evicted, Function.update_apply]

theorem of_perform_run_ok {op : TableOp} {a : op.Answer}
    (hrun : (perform id op).run answer u = (.ok a, v)) :
    ∃ T, (u.storage.contents id).perform op = .ok (a, T) ∧
      v.storage.contents = Function.update u.storage.contents id T := by
  rcases u.perform_run_cases id op with ⟨e, w, herror, -⟩ | ⟨b, T, w, hperform, hok, hw⟩
  · cases herror.symm.trans hrun
  · cases hok.symm.trans hrun
    exact ⟨T, hperform, hw⟩

/-- Requests that change no table. -/
def Reads : Request → Prop
  | .table _ (.get ..) | .table _ (.scan _) | .known .. | .remember .. => True
  | .table .. => False

theorem contents_answer {q : Request} (hq : Reads q) (u : Unsteady) :
    (answer q u).2.storage.contents = u.storage.contents := by
  cases q with
  | known | remember => exact u.contents_evicted_eq
  | table id op =>
      rcases u.answer_table id op with ⟨e, heq⟩ | ⟨a, T, hperform, heq⟩ <;> rw [heq]
      · exact u.contents_evicted_eq
      · have hsame : T = u.storage.contents id := by
          cases op <;> first | exact hq.elim | (cases hperform; rfl)
        funext other
        rw [contents_update, contents_evicted]
        split
        · next hother => rw [hother, hsame]
        · rfl

theorem contents_run {p : Work α} (hp : p.Only Reads) (u : Unsteady) :
    (p.run answer u).2.storage.contents = u.storage.contents :=
  hp.run (fun v => v.storage.contents = u.storage.contents)
    (fun _ v hq hv => (contents_answer hq v).trans hv) rfl

def ForTable (q : Request) : Prop := ∃ id op, q = .table id op

/-- The same tables with the same outages before them. -/
def Alike (u v : Unsteady) : Prop :=
  u.storage.catalog = v.storage.catalog ∧ u.outages = v.outages

theorem run_alike {p : Work α} (hp : p.Only ForTable) (h : u.Alike v) :
    (p.run answer u).1 = (p.run answer v).1 ∧ (p.run answer u).2.Alike (p.run answer v).2 := by
  refine hp.run_rel (fun q u v hq h => ?_) h
  obtain ⟨id, op, rfl⟩ := hq
  have hcatalog : u.evicted.catalog = v.evicted.catalog := by
    rw [catalog_evicted, catalog_evicted, h.1]
  have houtage : u.outage? (.table id op) = v.outage? (.table id op) :=
    congrArg (·.head?.join) h.2
  have hmet : (Storage.answer (.table id op) u.evicted).1 =
        (Storage.answer (.table id op) v.evicted).1 ∧
      (Storage.answer (.table id op) u.evicted).2.catalog =
        (Storage.answer (.table id op) v.evicted).2.catalog := by
    simp only [Storage.answer, hcatalog, and_self]
  simp only [answer, houtage, Alike]
  cases v.outage? (.table id op) with
  | some e => exact ⟨rfl, hcatalog, congrArg List.tail h.2⟩
  | none => exact ⟨hmet.1, hmet.2, congrArg List.tail h.2⟩

theorem run_steady (p : Work α) (s : Storage) :
    p.run answer ⟨s, [], []⟩ =
      ((p.run Storage.answer s).1, ⟨(p.run Storage.answer s).2, [], []⟩) := by
  induction p generalizing s with
  | result outcome => rfl
  | call q resume ih =>
      have hanswer : answer q ⟨s, [], []⟩ =
          ((Storage.answer q s).1, ⟨(Storage.answer q s).2, [], []⟩) := by
        cases q <;> rfl
      rw [Program.run_call, Program.run_call, hanswer, ih]

theorem exists_holds_run (p : Work α) (h : ∃ T, u.storage.Holds id T) :
    ∃ T, (p.run answer u).2.storage.Holds id T := by
  induction p generalizing u with
  | result outcome => exact h
  | call q resume ih =>
      have hevicted : ∃ T, u.evicted.Holds id T := by
        simpa only [Holds, catalog_evicted] using h
      refine ih _ (u := (answer q u).2) ?_
      simp only [answer]
      split
      · exact hevicted
      · exact exists_holds_answer q hevicted

/-- Of some outages that were to come none was met before these are left. -/
def Spared (outages left : List (Option Error)) : Prop :=
  ∃ n, left = outages.drop n ∧ ∀ o ∈ outages.take n, o = none

/-- Of some outages that were to come the first was met, and after it no request was made. -/
def Stopped (outages : List (Option Error)) (e : Error) (left : List (Option Error)) : Prop :=
  ∃ n, outages = List.replicate n none ++ some e :: left

theorem Spared.cons {outages left : List (Option Error)} (h : Spared outages.tail left)
    (hfirst : outages.head?.join = none) : Spared outages left := by
  obtain ⟨n, hleft, hnone⟩ := h
  cases outages with
  | nil => exact ⟨n, hleft, hnone⟩
  | cons o outages =>
      obtain rfl : o = none := hfirst
      exact ⟨n + 1, hleft, List.forall_mem_cons.mpr ⟨rfl, hnone⟩⟩

theorem Stopped.cons {outages left : List (Option Error)} {e : Error}
    (h : Stopped outages.tail e left) (hfirst : outages.head?.join = none) :
    Stopped outages e left := by
  obtain ⟨n, hleft⟩ := h
  cases outages with
  | nil => simp at hleft
  | cons o outages =>
      obtain rfl : o = none := hfirst
      exact ⟨n + 1, congrArg (none :: ·) hleft⟩

/-- A program that passes failures on runs as it does without outages, or fails with the
first outage that it meets. -/
theorem run_of_passesOn {p : Work α} (hp : p.PassesOn) (hu : u.evictions = []) :
    ((p.run answer u).1 = (p.run Storage.answer u.storage).1 ∧
        (p.run answer u).2.storage = (p.run Storage.answer u.storage).2 ∧
        Spared u.outages (p.run answer u).2.outages) ∨
      ∃ e, (p.run answer u).1 = .error e ∧ Stopped u.outages e (p.run answer u).2.outages := by
  induction p generalizing u with
  | result outcome => exact .inl ⟨rfl, rfl, 0, rfl, by simp⟩
  | call q resume ih =>
      have hevicted : u.evicted = u.storage := by rw [evicted, hu]; rfl
      simp only [Program.run_call, answer, hevicted, hu]
      cases hmet : u.outage? q with
      | some e =>
          have houtages : Stopped u.outages e (u.outagesAfter q) := by
            cases q with
            | known | remember => cases hmet
            | table id op =>
                simp only [outage?, Option.join_eq_some_iff, List.head?_eq_some_iff] at hmet
                obtain ⟨left, hleft⟩ := hmet
                exact ⟨0, by rw [hleft, outagesAfter, hleft]; rfl⟩
          rw [hp.1 e]
          exact .inr ⟨e, rfl, houtages⟩
      | none =>
          have hspared : ∀ left, Spared (u.outagesAfter q) left → Spared u.outages left := by
            intro left h
            cases q with
            | known | remember => exact h
            | table id op => exact h.cons hmet
          have hstopped : ∀ left e, Stopped (u.outagesAfter q) e left →
              Stopped u.outages e left := by
            intro left e h
            cases q with
            | known | remember => exact h
            | table id op => exact h.cons hmet
          cases hserved : (Storage.answer q u.storage).1 with
          | error e =>
              rw [hp.1 e]
              exact .inl ⟨rfl, rfl, hspared _ ⟨0, rfl, by simp⟩⟩
          | ok a =>
              rcases ih _ (hp.2 a) (u := ⟨(Storage.answer q u.storage).2, u.outagesAfter q, []⟩)
                rfl with ⟨hsame, hstorage, hrest⟩ | ⟨e, hfails, hrest⟩
              · exact .inl ⟨hsame, hstorage, hspared _ hrest⟩
              · exact .inr ⟨e, hfails, hstopped _ e hrest⟩

end Unsteady

end Rollup
