import Rollup.Proofs.Storage.Column

namespace Rollup

namespace Table

variable {among : Bytes → Prop} {T T₁ : Table} {op op' : TableOp} {a : op.Answer}

/-- After an operation the others yield what they would have yielded before, and the order
makes no difference to the table. -/
theorem perform_comm (hop : op.Within among) (hop' : op'.Within fun column => ¬ among column)
    (h : T.perform op = .ok (a, T₁)) :
    (∀ e, T.perform op' = .error e → T₁.perform op' = .error e) ∧
    ∀ a' T₂, T.perform op' = .ok (a', T₂) →
      ∃ U, T₁.perform op' = .ok (a', U) ∧ T₂.perform op = .ok (a, U) := by
  have hothers : T.AgreeOn (fun column => ¬ among column) T₁ :=
    fun row column hcolumn => cell?_of_perform hop hcolumn h row
  constructor
  · intro e he
    rcases hothers.perform hop' with ⟨e', hbefore, hafter⟩ | ⟨_, _, _, hbefore, -⟩
    · cases hbefore.symm.trans he
      exact hafter
    · cases hbefore.symm.trans he
  · intro a' T₂ h'
    have hcells : T.AgreeOn among T₂ :=
      fun row column hcolumn => cell?_of_perform hop' (not_not_intro hcolumn) h' row
    rcases hothers.perform hop' with ⟨_, hbefore, -⟩ | ⟨_, _, U, hbefore, hafter, hU⟩
    · cases hbefore.symm.trans h'
    · cases hbefore.symm.trans h'
      rcases hcells.perform hop with ⟨_, hfirst, -⟩ | ⟨_, _, U', hfirst, hsecond, hU'⟩
      · cases hfirst.symm.trans h
      · cases hfirst.symm.trans h
        -- each operation decides the cells in its own columns
        have heq : U' = U := ext_cell? fun row column => by
          by_cases hcolumn : among column
          · rw [hU' row column hcolumn, cell?_of_perform hop' (not_not_intro hcolumn) hafter]
          · rw [hU row column hcolumn, cell?_of_perform hop hcolumn hsecond]
        exact ⟨U, hafter, heq ▸ hsecond⟩

end Table

namespace Storage

variable {among : Bytes → Prop} {s : Storage} {id id' : TableId} {op : TableOp} {α : Type}

theorem update_comm (hne : id ≠ id') (s : Storage) (T T' : Table) :
    (s.update id T).update id' T' = (s.update id' T').update id T := by
  have htables : ∀ stored stored' : StoredTable,
      (s.catalog.put id stored).put id' stored' = (s.catalog.put id' stored').put id stored := by
    intro stored stored'
    simp only [Catalog.put, Catalog.mk.injEq, and_true]
    refine SortedMap.ext_get? fun other => ?_
    simp only [SortedMap.get?_insert]
    split
    · next h => rw [if_neg (h ▸ hne.symm)]
    · rfl
  simp only [update, Catalog.table_put, if_neg hne, if_neg hne.symm, htables]

/-- The request touches a table in no column of some kind. -/
def Clear (id : TableId) (among : Bytes → Prop) (q : Request) : Prop :=
  ∀ op, q = .table id op → op.Within fun column => ¬ among column

theorem answer_table_eq (s : Storage) (id : TableId) (op : TableOp) :
    answer (.table id op) s = if (s.catalog.table id).available then
      match (s.contents id).perform op with
      | .ok (a, T) => (.ok a, s.update id T)
      | .error e => (.error e, s)
    else (.error (.storageUnavailable s!"table {id.display} is unavailable"), s) := by
  simp only [answer, Catalog.perform, contents]
  by_cases hreach : (s.catalog.table id).available = true
  · simp only [if_pos hreach]
    cases (s.catalog.table id).contents.perform op <;> rfl
  · simp only [if_neg hreach]

theorem available_update (s : Storage) (id : TableId) (T : Table) (id' : TableId) :
    ((s.update id T).catalog.table id').available = (s.catalog.table id').available := by
  rw [update, Catalog.table_put]
  split
  · next h => rw [h]
  · rfl

theorem answer_table_comm {op' : TableOp} (hop : op.Within among)
    (hop' : op'.Within fun column => ¬ among column) (s : Storage) :
    let next := answer (.table id op)
    let other := answer (.table id op')
    (other (next s).2).1 = (other s).1 ∧ (next (other s).2).1 = (next s).1 ∧
      (other (next s).2).2 = (next (other s).2).2 := by
  intro next other
  simp only [next, other, answer_table_eq]
  by_cases hreach : (s.catalog.table id).available = true
  · have hafter : ∀ T, ((s.update id T).catalog.table id).available = true := fun T =>
      (available_update s id T id).trans hreach
    have hcontents : ∀ T, (s.update id T).contents id = T := fun T => by
      rw [contents_update, if_pos rfl]
    simp only [if_pos hreach]
    cases h : (s.contents id).perform op with
    | error e =>
        cases h' : (s.contents id).perform op' with
        | error e' => simp [hreach, h]
        | ok r' =>
            obtain ⟨a', T₂⟩ := r'
            have hfails := (Table.perform_comm hop' (by simpa using hop) h').1 e h
            simp [hreach, hafter, hcontents, hfails]
    | ok r =>
        obtain ⟨a, T₁⟩ := r
        obtain ⟨hfails, hboth⟩ := Table.perform_comm hop hop' h
        cases h' : (s.contents id).perform op' with
        | error e' => simp [hreach, h, hafter, hcontents, hfails e' h']
        | ok r' =>
            obtain ⟨a', T₂⟩ := r'
            obtain ⟨U, hfirst, hsecond⟩ := hboth a' T₂ h'
            simp [hafter, hcontents, hfirst, hsecond, update_update]
  · simp [hreach]

theorem answer_table_comm_of_ne (hne : id' ≠ id) (op op' : TableOp) (s : Storage) :
    let next := answer (.table id op)
    let other := answer (.table id' op')
    (other (next s).2).1 = (other s).1 ∧ (next (other s).2).1 = (next s).1 ∧
      (other (next s).2).2 = (next (other s).2).2 := by
  intro next other
  have hafter : ∀ T, ((s.update id T).catalog.table id').available =
      (s.catalog.table id').available := fun T => available_update s id T id'
  have hafter' : ∀ T, ((s.update id' T).catalog.table id).available =
      (s.catalog.table id).available := fun T => available_update s id' T id
  have hcontents : ∀ T, (s.update id T).contents id' = s.contents id' := fun T => by
    rw [contents_update, if_neg hne]
  have hcontents' : ∀ T, (s.update id' T).contents id = s.contents id := fun T => by
    rw [contents_update, if_neg hne.symm]
  simp only [next, other, answer_table_eq]
  by_cases hreach : (s.catalog.table id).available = true <;>
    by_cases hreach' : (s.catalog.table id').available = true <;>
    cases h : (s.contents id).perform op <;> cases h' : (s.contents id').perform op' <;>
    simp [hreach, hreach', h, h', hafter, hafter', hcontents, hcontents', update_comm hne]

theorem answer_comm (hop : op.Within among) {q : Request} (hq : Clear id among q)
    (s : Storage) :
    let next := answer (.table id op)
    (answer q (next s).2).1 = (answer q s).1 ∧
      (next (answer q s).2).1 = (next s).1 ∧
      (answer q (next s).2).2 = (next (answer q s).2).2 := by
  cases q with
  | known cache e => exact ⟨rfl, rfl, rfl⟩
  | remember cache e number => exact ⟨rfl, rfl, rfl⟩
  | table id' op' =>
      by_cases hid : id' = id
      · subst hid
        exact answer_table_comm hop (hq op' rfl) s
      · exact answer_table_comm_of_ne hid op op' s

theorem run_comm {p : Work α} (hop : op.Within among) (hp : p.Only (Clear id among))
    (s : Storage) :
    let next := answer (.table id op)
    (p.run answer (next s).2).1 = (p.run answer s).1 ∧
      (next (p.run answer s).2).1 = (next s).1 ∧
      (p.run answer (next s).2).2 = (next (p.run answer s).2).2 := by
  induction p generalizing s with
  | result outcome => exact ⟨rfl, rfl, rfl⟩
  | call q resume ih =>
      obtain ⟨hanswer, hnext, hboth⟩ := answer_comm hop hp.1 s
      obtain ⟨houtcome, hlast, hend⟩ := ih (answer q s).1 (hp.2 _ fun _ _ => trivial) (answer q s).2
      simp only [Program.run_call, hanswer, hboth]
      exact ⟨houtcome, hlast.trans hnext, hend⟩

end Storage

end Rollup
