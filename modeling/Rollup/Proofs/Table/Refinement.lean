import Rollup.Proofs.Table.Cells
import Rollup.Table.Catalog

namespace Rollup

open KeyOrder

inductive TableCall where
  | perform (op : TableOp)
  | setAvailable (available : Bool)
  | rowCount

structure FlatTable where
  cells : Cells := .empty
  available : Bool := true

namespace TableCall

@[reducible] def Answer : TableCall → Type
  | perform op => Except Error op.Answer
  | setAvailable _ => Unit
  | rowCount => Nat

def onCatalog (id : TableId) (c : Catalog) : (call : TableCall) → call.Answer × Catalog
  | perform op => c.perform id op
  | setAvailable available => ((), c.setAvailable id available)
  | rowCount => ((c.table id).contents.rowCount, c)

def onCells (id : TableId) (flat : FlatTable) : (call : TableCall) → call.Answer × FlatTable
  | perform op =>
    if flat.available then
      match flat.cells.perform op with
      | .ok (answer, cells) => (.ok answer, { flat with cells })
      | .error e => (.error e, flat)
    else (.error (.storageUnavailable s!"table {id.display} is unavailable"), flat)
  | setAvailable available => ((), { flat with available })
  | rowCount => (flat.cells.rows.length, flat)

def run {σ : Type} (step : σ → (call : TableCall) → call.Answer × σ) (s : σ) :
    List TableCall → List ((call : TableCall) × call.Answer) × σ
  | [] => ([], s)
  | call :: calls =>
    let rest := run step (step s call).2 calls
    (⟨call, (step s call).1⟩ :: rest.1, rest.2)

theorem run_related {σ τ : Type} {step : σ → (call : TableCall) → call.Answer × σ}
    {step' : τ → (call : TableCall) → call.Answer × τ} {R : σ → τ → Prop}
    (hstep : ∀ s s', R s s' → ∀ call,
      (step s call).1 = (step' s' call).1 ∧ R (step s call).2 (step' s' call).2)
    (calls : List TableCall) :
    ∀ s s', R s s' →
      (run step s calls).1 = (run step' s' calls).1 ∧
        R (run step s calls).2 (run step' s' calls).2 := by
  induction calls with
  | nil => exact fun s s' h => ⟨rfl, h⟩
  | cons call calls ih =>
      intro s s' h
      obtain ⟨hanswer, hnext⟩ := hstep s s' h call
      obtain ⟨hanswers, hlast⟩ := ih _ _ hnext
      exact ⟨by simp only [run, hanswer, hanswers], hlast⟩

/-- A table can be reached when the flat one can, and has its cells. -/
def Agrees (id : TableId) (c : Catalog) (flat : FlatTable) : Prop :=
  (c.table id).available = flat.available ∧ (c.table id).contents.Holds flat.cells

theorem Agrees.put {id : TableId} {c : Catalog} {flat : FlatTable} {stored : StoredTable}
    (havailable : stored.available = flat.available) (hcells : stored.contents.Holds flat.cells) :
    Agrees id (c.put id stored) flat := by
  rw [Agrees, Catalog.table_put, if_pos rfl]
  exact ⟨havailable, hcells⟩

theorem call_agrees {id : TableId} {c : Catalog} {flat : FlatTable} (h : Agrees id c flat)
    (call : TableCall) :
    (call.onCatalog id c).1 = (call.onCells id flat).1 ∧
      Agrees id (call.onCatalog id c).2 (call.onCells id flat).2 := by
  obtain ⟨havailable, hcells⟩ := h
  cases call with
  | perform op =>
      simp only [onCatalog, onCells, Catalog.perform, havailable]
      cases hreach : flat.available with
      | false => exact ⟨rfl, havailable, hcells⟩
      | true =>
          have halike := hcells.perform op
          generalize (c.table id).contents.perform op = kept at halike ⊢
          generalize flat.cells.perform op = plain at halike ⊢
          cases halike with
          | ok answer h => exact ⟨rfl, .put rfl h⟩
          | error e => exact ⟨rfl, havailable, hcells⟩
  | setAvailable available => exact ⟨rfl, .put rfl hcells⟩
  | rowCount => exact ⟨hcells.rowCount_eq, havailable, hcells⟩

end TableCall

theorem Catalog.perform_of_error {c : Catalog} {id : TableId} {op : TableOp} {e : Error}
    (h : (c.perform id op).1 = .error e) : (c.perform id op).2 = c := by
  unfold Catalog.perform at h ⊢
  dsimp only at h ⊢
  cases hreach : (c.table id).available with
  | false => rfl
  | true =>
      rw [hreach] at h
      cases hop : (c.table id).contents.perform op with
      | error e => rfl
      | ok r =>
          rw [hop] at h
          cases h

/-- A new table answers every sequence of calls as a flat map of cells does, and ends with the
cells of that map. A scan then lists in strictly ascending order just the rows of its range that
have a cell, each with its cells in ascending order; the rows that are counted are those with a
cell; and a failing operation changes nothing. -/
theorem table_refines_cells (c : Catalog) (id : TableId) (properties : TableProperties)
    (calls : List TableCall) :
    let kept := TableCall.run (TableCall.onCatalog id) (c.put id { properties }) calls
    let flat := TableCall.run (TableCall.onCells id) {} calls
    let contents := (kept.2.table id).contents
    let cell (row column : Bytes) := flat.2.cells.get? (row, column)
    kept.1 = flat.1 ∧
      (∀ row column, contents.cell? row column = cell row column) ∧
      (∀ range, (contents.scan range).Pairwise fun r r' => before r.key r'.key = true) ∧
      (∀ range r, r ∈ contents.scan range ↔ range.contains r.key = true ∧
        (∃ column, cell r.key column ≠ none) ∧
        ∀ column, r.columns.get? column = cell r.key column) ∧
      (∀ r : Row, Entries.Ascending r.columns.entries) ∧
      contents.rowCount = {row | ∃ column, cell row column ≠ none}.ncard ∧
      ∀ op e, (kept.2.perform id op).1 = .error e → (kept.2.perform id op).2 = kept.2 := by
  intro kept flat contents cell
  have hstart : TableCall.Agrees id (c.put id { properties }) {} := .put rfl Table.empty_holds
  obtain ⟨hanswers, -, hcells⟩ :=
    TableCall.run_related (fun _ _ h => TableCall.call_agrees h) calls _ _ hstart
  refine ⟨hanswers, hcells, fun range => ?_, fun range r => ?_, fun r => r.columns.ascending, ?_,
    fun op e => Catalog.perform_of_error⟩
  · rw [hcells.scan_eq]
    exact Cells.scan_ascending _ range
  · rw [hcells.scan_eq]
    exact Cells.mem_scan
  · rw [hcells.rowCount_eq]
    exact Cells.length_rows _

/-- An addition to a cell of one byte fails, and a row without cells is not counted. -/
theorem sample_calls_on_table :
    let id := TableId.system "sample"
    let calls : List TableCall := [.perform (.put [1] [2] [3]), .setAvailable false,
      .perform (.delete [1] [[2]]), .setAvailable true, .perform (.increment [4] [2] 5),
      .perform (.swap [4] [2] (some (Bytes.ofInt64 5)) none)]
    let kept := TableCall.run (TableCall.onCatalog id) (Catalog.put {} id {}) calls
    (kept.2.perform id (.increment [1] [2] 1)).2 = kept.2 ∧
      (kept.2.table id).contents.rowCount = 1 := by
  intro id calls kept
  have hfails : (kept.2.perform id (.increment [1] [2] 1)).1 =
      .error (.serialization "expected 8-byte long, got 1 bytes") := by
    rfl
  have hcount : (kept.2.table id).contents.rowCount = 1 := by decide +kernel
  obtain ⟨-, -, -, -, -, -, hfailed⟩ := table_refines_cells {} id {} calls
  exact ⟨hfailed _ _ hfails, hcount⟩

end Rollup
