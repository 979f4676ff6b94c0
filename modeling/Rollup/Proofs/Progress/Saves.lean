import Rollup.Proofs.Progress.Table
import Rollup.Proofs.Storage.Commute

namespace Rollup.ProgressTable

open Storage

variable {t : ProgressTable} {s : Storage} {p : Partition} {progress : Progress}

def reachable (t : ProgressTable) (s : Storage) : Bool := (s.catalog.table t.table).available

def unreachable (t : ProgressTable) : Error :=
  .storageUnavailable s!"table {t.table.display} is unavailable"

/-- What stands in the cell of a partition; nothing inside for a cell that cannot be read. -/
def recorded? (t : ProgressTable) (s : Storage) (p : Partition) : Option (Option Progress) :=
  ((s.contents t.table).cell? p.row column).map Progress.decode?

theorem save_run (t : ProgressTable) (s : Storage) (p : Partition) (progress : Progress) :
    (t.save p progress).run answer s =
      if t.reachable s then (.ok (), t.keeping s p progress) else (.error t.unreachable, s) := by
  have hrun : (t.save p progress).run answer s =
      answer (.table t.table (.put p.row column progress.encode)) s := rfl
  rw [hrun, answer_table_eq]
  rfl

theorem get_run (t : ProgressTable) (s : Storage) (p : Partition) :
    (get t.table p.row column).run answer s =
      if t.reachable s then
        (.ok ((s.contents t.table).cell? p.row column), s.update t.table (s.contents t.table))
      else (.error t.unreachable, s) := by
  have hrun : (get t.table p.row column).run answer s =
      answer (.table t.table (.get p.row column)) s := rfl
  rw [hrun, answer_table_eq]
  rfl

theorem read_run {saved : Option Progress} (h : t.recorded? s p = saved.map some) :
    ((t.read p).run answer s).1 =
      if t.reachable s then .ok saved else .error t.unreachable := by
  rw [read, Program.bind_eq, Program.run_bind, get_run]
  cases t.reachable s with
  | false => rfl
  | true =>
      rw [recorded?] at h
      cases hcell : (s.contents t.table).cell? p.row column with
      | none =>
          rw [hcell] at h
          cases saved with
          | none => rfl
          | some progress => cases h
      | some cell =>
          rw [hcell] at h
          cases saved with
          | none => cases h
          | some progress =>
              have hdecode : Progress.decode? cell = some progress := Option.some.inj h
              simp only [if_true, hdecode]
              rfl

theorem readOffset_run {saved : Option Progress} (h : t.recorded? s p = saved.map some) :
    ((t.readOffset p).run answer s).1 =
      if t.reachable s then .ok (saved.map (·.offset)) else .error t.unreachable := by
  have hread := read_run h
  rw [readOffset, Program.bind_eq, Program.run_bind]
  cases hrun : (t.read p).run answer s with
  | mk outcome s' =>
      rw [hrun] at hread
      cases hreach : t.reachable s <;> rw [hreach] at hread <;> cases hread <;> rfl

theorem recorded?_keeping (t : ProgressTable) (s : Storage) (p : Partition)
    (h : progress.offset ≤ Progress.maxOffset) (q : Partition) :
    t.recorded? (t.keeping s p progress) q =
      if p = q then some (some progress) else t.recorded? s q := by
  simp only [recorded?, keeping, contents_update, if_true, Table.cell?_setCell, and_true]
  by_cases hpartition : p = q
  · rw [if_pos (congrArg Partition.row hpartition.symm), if_pos hpartition, Option.map_some,
      Progress.decode?_encode progress h]
  · rw [if_neg fun hrow => hpartition (Partition.row_injective hrow).symm, if_neg hpartition]

theorem reachable_keeping (t : ProgressTable) (s : Storage) (p : Partition) (progress : Progress) :
    t.reachable (t.keeping s p progress) = t.reachable s :=
  available_update ..

inductive Event where
  | save (p : Partition) (offset : UInt64) (metadata : String)
  | setAvailable (available : Bool)

/-- Whether an event is not a save for another partition. -/
def Event.concerns (p : Partition) : Event → Bool
  | save q _ _ => q = p
  | setAvailable _ => true

def withAvailable (t : ProgressTable) (s : Storage) (available : Bool) : Storage :=
  { s with catalog := s.catalog.setAvailable t.table available }

def progressAt (offset : UInt64) (metadata : String) : Progress := ⟨offset.toNat, metadata⟩

theorem progressAt_le (offset : UInt64) (metadata : String) :
    (progressAt offset metadata).offset ≤ Progress.maxOffset :=
  Nat.le_of_lt_succ offset.toNat_lt

/-- The saves that succeed when events come one after another, and the storage after them. -/
def saving (t : ProgressTable) (s : Storage) : List Event → List (Partition × Progress) × Storage
  | [] => ([], s)
  | .save p offset metadata :: events =>
    match (t.save p (progressAt offset metadata)).run answer s with
    | (.ok (), s) =>
      ((p, progressAt offset metadata) :: (saving t s events).1, (saving t s events).2)
    | (.error _, s) => saving t s events
  | .setAvailable available :: events => saving t (t.withAvailable s available) events

def lastSaved (saved : List (Partition × Progress)) (p : Partition) : Option Progress :=
  ((saved.filter fun e => e.1 = p).map Prod.snd).getLast?

theorem lastSaved_cons (q p : Partition) (progress : Progress)
    (saved : List (Partition × Progress)) :
    lastSaved ((q, progress) :: saved) p =
      (lastSaved saved p).or (if q = p then some progress else none) := by
  by_cases hpartition : q = p
  · simp only [lastSaved, hpartition, List.filter_cons, decide_true, if_true, List.map_cons,
      List.getLast?_cons]
    cases ((saved.filter fun e => e.1 = p).map Prod.snd).getLast? <;> rfl
  · simp [lastSaved, hpartition]

theorem recorded?_withAvailable (t : ProgressTable) (s : Storage) (available : Bool)
    (p : Partition) : t.recorded? (t.withAvailable s available) p = t.recorded? s p := by
  have hcontents : (t.withAvailable s available).contents t.table = s.contents t.table := by
    simp [contents, withAvailable, Catalog.setAvailable, Catalog.table_put]
  rw [recorded?, hcontents, recorded?]

theorem reachable_withAvailable (t : ProgressTable) (s : Storage) (available : Bool) :
    t.reachable (t.withAvailable s available) = available := by
  simp [reachable, withAvailable, Catalog.setAvailable, Catalog.table_put]

theorem recorded?_saving (t : ProgressTable) (events : List Event) (s : Storage)
    (p : Partition) :
    t.recorded? (t.saving s events).2 p =
      ((lastSaved (t.saving s events).1 p).map some).or (t.recorded? s p) := by
  induction events generalizing s with
  | nil => rfl
  | cons event events ih =>
      cases event with
      | setAvailable available =>
          rw [saving, ih, recorded?_withAvailable]
      | save q offset metadata =>
          simp only [saving, save_run]
          cases hreach : t.reachable s with
          | false => exact ih s
          | true =>
              simp only [if_true, ih, recorded?_keeping t s q (progressAt_le ..) p, lastSaved_cons]
              by_cases hpartition : q = p
              · simp only [hpartition, if_true]
                cases lastSaved (t.saving _ events).1 p <;> rfl
              · simp only [hpartition, if_false, Option.or_none]

theorem lastSaved_concerns (t : ProgressTable) (p : Partition) (events : List Event) :
    ∀ s s', t.reachable s = t.reachable s' →
      lastSaved (t.saving s events).1 p =
        lastSaved (t.saving s' (events.filter (·.concerns p))).1 p ∧
      t.reachable (t.saving s events).2 =
        t.reachable (t.saving s' (events.filter (·.concerns p))).2 := by
  induction events with
  | nil => exact fun s s' h => ⟨rfl, h⟩
  | cons event events ih =>
      intro s s' h
      cases event with
      | setAvailable available =>
          exact ih _ _ (by rw [reachable_withAvailable, reachable_withAvailable])
      | save q offset metadata =>
          simp only [saving, save_run, h]
          by_cases hpartition : q = p
          · rw [List.filter_cons_of_pos (by simp [Event.concerns, hpartition])]
            simp only [saving, save_run]
            cases hreach : t.reachable s' with
            | false => exact ih s s' h
            | true =>
                obtain ⟨hlast, hend⟩ := ih (t.keeping s q (progressAt offset metadata))
                  (t.keeping s' q (progressAt offset metadata))
                  (by rw [reachable_keeping, reachable_keeping, h])
                exact ⟨by simp only [if_true, lastSaved_cons, hlast], hend⟩
          · rw [List.filter_cons_of_neg (by simp [Event.concerns, hpartition])]
            cases hreach : t.reachable s' with
            | false => exact ih s s' h
            | true =>
                obtain ⟨hlast, hend⟩ := ih (t.keeping s q (progressAt offset metadata)) s'
                  (by rw [reachable_keeping, h])
                refine ⟨?_, hend⟩
                simp only [if_true, lastSaved_cons, hlast, if_neg hpartition, Option.or_none]

/-- A table that was created empty and then saved to, with outages in between, yields for each
partition its last save that succeeded, or nothing if there was none. Reading and saving fail
just when the table cannot be reached, and saves for other partitions do not change what is
read. -/
theorem read_last_saved (t : ProgressTable) (s : Storage) (properties : TableProperties)
    (events : List Event) :
    let start : Storage := { s with catalog := s.catalog.put t.table { properties } }
    let saved := (t.saving start events).1
    let s' := (t.saving start events).2
    let whenReachable {α : Type} (a : α) : Except Error α :=
      if t.reachable s' then .ok a else .error t.unreachable
    (∀ p, ((t.read p).run answer s').1 = whenReachable (lastSaved saved p)) ∧
      (∀ p, ((t.readOffset p).run answer s').1 =
        whenReachable ((lastSaved saved p).map (·.offset))) ∧
      (∀ p progress, ((t.save p progress).run answer s').1 = whenReachable ()) ∧
      ∀ p, ((t.read p).run answer s').1 =
        ((t.read p).run answer (t.saving start (events.filter (·.concerns p))).2).1 := by
  intro start saved s' whenReachable
  have hrecorded (events : List Event) (p : Partition) :
      t.recorded? (t.saving start events).2 p =
        (lastSaved (t.saving start events).1 p).map some := by
    have hstart : t.recorded? start p = none := by
      simp [recorded?, start, contents, Catalog.table_put]
      rfl
    rw [recorded?_saving, hstart, Option.or_none]
  have hread (p : Partition) := read_run (hrecorded events p)
  refine ⟨hread, fun p => readOffset_run (hrecorded events p), fun p progress => ?_, fun p => ?_⟩
  · rw [save_run]
    cases hreach : t.reachable s' <;> simp [whenReachable, hreach]
  · obtain ⟨hlast, hreach⟩ := t.lastSaved_concerns p events start start rfl
    rw [hread p, read_run (hrecorded _ p), hlast, hreach]

/-- The topic and the number of a partition may be written alike, up to where the colon is. -/
example :
    let t : ProgressTable := ⟨.system "offsets"⟩
    let events : List Event := [.save ⟨"a:1", 2⟩ 7 "x", .setAvailable false,
      .save ⟨"a:1", 2⟩ 8 "y", .setAvailable true, .save ⟨"a", 12⟩ 9 ""]
    lastSaved (t.saving {} events).1 ⟨"a:1", 2⟩ = some ⟨7, "x"⟩ := by
  rfl

end Rollup.ProgressTable
