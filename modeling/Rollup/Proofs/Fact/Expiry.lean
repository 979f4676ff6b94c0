import Rollup.Proofs.Fact.Attempts
import Rollup.Proofs.Fact.Fading
import Rollup.Proofs.Fact.Ledger

namespace Rollup

open Storage

theorem toInt_max (a b : Int64) : (max a b).toInt = max a.toInt b.toInt := by
  have hmax : max a b = if a ≤ b then b else a := rfl
  rw [hmax, apply_ite Int64.toInt, max_def]
  simp only [Int64.le_iff_toInt_le]

namespace FactTable

variable {t other : FactTable} {s : Storage} {T T' T₁ T₁' : Table} {u : Unsteady}
  {cutoff cutoff' : Int64} {row column : Bytes} {k : SeriesNumbers} {time : Int64} {n : Nat}

/-- A table starts out empty. Those who share it write values and delete buckets, whatever
fails and is forgotten meanwhile, and all else leaves it alone. -/
inductive Worked (t : FactTable) : Storage → Prop
  | empty {s : Storage} (h : s.Holds t.table .empty) : Worked t s
  | change {u : Unsteady} (entities : EntityTable) (hne : entities.table ≠ t.table)
      (change : Change) (h : Worked t u.storage) :
      Worked t (({ t with entities }.perform change).run Unsteady.answer u).2.storage
  | beside {s s' : Storage} (h : Worked t s)
      (hsame : s'.catalog.find? t.table = s.catalog.find? t.table) : Worked t s'

theorem laid_write (hne : t.entities.table ≠ t.table) (m : Metric)
    (hlaid : t.Laid (u.storage.contents t.table)) :
    t.Laid (((t.write m).run Unsteady.answer u).2.storage.contents t.table) := by
  rcases t.write_run_cases m u with ⟨e, v, hrun, hsame⟩ | ⟨k, v, hrun, hsame, -⟩ <;>
    rw [hrun, hsame.eq_of_ne hne.symm]
  · exact hlaid
  · rw [enteredInto, Function.update_self]
    exact hlaid.entered (Metric.timestamp_nonneg (defect?_of_write_ok hrun)) k

theorem Worked.laid (ht : t.Rolled) (h : t.Worked s) : ∃ T, s.Holds t.table T ∧ t.Laid T := by
  induction h with
  | empty h => exact ⟨.empty, h, t.laid_empty⟩
  | @change u entities hne change h ih =>
      obtain ⟨T, hT, hlaid⟩ := ih
      let worker : FactTable := { t with entities }
      have hworker : worker.Rolled := ⟨ht.pos, ht.le⟩
      have hbefore : worker.Laid (u.storage.contents worker.table) := hT.contents_eq.symm ▸ hlaid
      obtain ⟨T', hT'⟩ := Unsteady.exists_holds_run (worker.perform change) ⟨T, hT⟩
      have hafter : worker.Laid (((worker.perform change).run Unsteady.answer u).2.storage.contents
          worker.table) := by
        cases change with
        | write m => exact laid_write hne m hbefore
        | expire cutoff =>
            have hfades := (deleteBefore_fades hworker cutoff hbefore).1.laid hbefore
            simpa only [perform, Program.bind_eq, Program.pure_eq, Program.run_bind_pure]
              using hfades
      exact ⟨T', hT', hT'.contents_eq ▸ hafter⟩
  | beside h hsame ih => simpa only [Holds, hsame] using ih

theorem Worked.perform (h : t.Worked s) (hne : t.entities.table ≠ t.table) (change : Change) :
    t.Worked ((t.perform change).run answer s).2 := by
  have hnext := Worked.change (u := ⟨s, [], []⟩) t.entities hne change h
  rwa [Unsteady.run_steady] at hnext

theorem Worked.performAll (h : t.Worked s) (hne : t.entities.table ≠ t.table)
    (changes : List Change) : t.Worked ((t.performAll changes).run answer s).2 := by
  induction changes generalizing s with
  | nil => exact h
  | cons change changes ih =>
      rw [FactTable.performAll, Program.bind_eq, Program.run_bind]
      have hnext := h.perform hne change
      split
      · next _ s' hrun =>
        rw [hrun] at hnext
        exact ih hnext
      · next e s' hrun => rwa [hrun] at hnext

/-- The start of the bucket whose cell stands in a row and a column. -/
def bucketStart? (t : FactTable) (row column : Bytes) : Option Int64 :=
  match FactKey.decode (t.logicalKey row), Place.decodeOffset column with
  | .ok key, .ok offset => some (Place.timestamp t.resolution ⟨key.base, offset⟩)
  | _, _ => none

/-- A bucket that is read off its keys ends after a cutoff, or buckets are never deleted. -/
def Keeps (t : FactTable) (cutoff : Int64) (row column : Bytes) : Prop :=
  t.resolution = .total ∨ ∃ start, t.bucketStart? row column = some start ∧
    cutoff.toInt < start.toInt + t.resolution.width.toInt

theorem bucketStart?_rowOf (ht : t.Rolled) (htime : 0 ≤ time.toInt) :
    ∃ start, t.bucketStart? (t.rowOf k time) (t.columnOf time) = some start ∧
      start.toInt = t.resolution.bucketStart time.toInt := by
  refine ⟨Place.timestamp t.resolution (t.locate time), ?_,
    Place.timestamp_ofTimestamp ht.pos ht.le htime⟩
  simp only [bucketStart?, rowOf, columnOf, logicalKey_physicalKey, FactKey.decode_encode,
    Place.decodeOffset_encodeOffset]
  rfl

theorem keeps_iff_not_expired (ht : t.Rolled) (htime : 0 ≤ time.toInt) :
    t.Keeps cutoff (t.rowOf k time) (t.columnOf time) ↔ ¬ t.Expired cutoff time := by
  obtain ⟨start, hstart, heq⟩ := bucketStart?_rowOf (k := k) ht htime
  have hexpires : t.resolution.expires = true ↔ t.resolution ≠ .total := by
    cases t.resolution <;> simp [Resolution.expires]
  simp only [Keeps, hstart, Option.some.injEq, exists_eq_left', Expired, hexpires, heq, not_and,
    Int.not_le]
  exact (Decidable.or_iff_not_imp_left ..)

theorem keeps_max : t.Keeps (max cutoff cutoff') row column ↔
    t.Keeps cutoff row column ∧ t.Keeps cutoff' row column := by
  simp only [Keeps, toInt_max]
  cases t.bucketStart? row column with
  | none => simp
  | some start =>
      simp only [Option.some.injEq, exists_eq_left']
      rw [← or_and_left, max_lt_iff]

theorem Keeps.mono (h : t.Keeps cutoff row column) (hle : cutoff' ≤ cutoff) :
    t.Keeps cutoff' row column := by
  refine h.imp_right fun ⟨start, hstart, hlt⟩ => ⟨start, hstart, ?_⟩
  rw [Int64.le_iff_toInt_le] at hle
  omega

theorem keeps_congr (hr : other.resolution = t.resolution) (key : FactKey) (column : Bytes) :
    other.Keeps cutoff (other.physicalKey key.encode) column ↔
      t.Keeps cutoff (t.physicalKey key.encode) column := by
  simp only [Keeps, bucketStart?, logicalKey_physicalKey, hr]

theorem deleteBefore_run_keeps (ht : t.Rolled) (h : s.Holds t.table T) (hlaid : t.Laid T)
    (cutoff : Int64) :
    ∃ n T', (t.deleteBefore cutoff).run answer s = (.ok n, s.update t.table T') ∧
      T.Loses (fun row column => ¬ t.Keeps cutoff row column) T' n := by
  obtain ⟨n, T', hrun, hloses⟩ := deleteBefore_run_loses ht h hlaid cutoff
  refine ⟨n, T', hrun, hloses.congr fun row column hcell => ?_⟩
  obtain ⟨cell, hcell⟩ := Option.isSome_iff_exists.mp hcell
  obtain ⟨k, time, value, htime, rfl, rfl, -⟩ := hlaid row column cell hcell
  rw [doomed_iff ht htime, keeps_iff_not_expired ht htime, not_not]

def cellAt (t : FactTable) (T : Table) (key : FactKey) (column : Bytes) : Option Bytes :=
  T.cell? (t.physicalKey key.encode) column

def lostKeys (t : FactTable) (T T' : Table) : Set FactKey :=
  {key | ∃ column, t.cellAt T key column ≠ none ∧ t.cellAt T' key column = none}

theorem encard_lostKeys (hlaid : t.Laid T) (T' : Table) :
    (t.lostKeys T T').encard = (T.lost T').encard := by
  have hinjective : Function.Injective fun key : FactKey => t.physicalKey key.encode :=
    fun _ _ heq => FactKey.encode_injective (physicalKey_injective heq)
  rw [← hinjective.encard_image]
  congr 1
  ext row
  constructor
  · rintro ⟨key, hkey, rfl⟩
    exact hkey
  · rintro ⟨column, hcell, hnone⟩
    obtain ⟨cell, hsome⟩ := Option.ne_none_iff_exists'.mp hcell
    obtain ⟨k, time, -, -, rfl, -⟩ := hlaid row column cell hsome
    exact ⟨t.keyOf k time, ⟨column, hcell, hnone⟩, rfl⟩

theorem lostKeys_congr (hr : other.resolution = t.resolution)
    (hcells : ∀ key column, other.cellAt T₁ key column = t.cellAt T key column)
    (h : T.Without (fun row column => ¬ t.Keeps cutoff row column) T')
    (h₁ : T₁.Without (fun row column => ¬ other.Keeps cutoff row column) T₁') :
    other.lostKeys T₁ T₁' = t.lostKeys T T' := by
  have hkept : ∀ key column, other.cellAt T₁' key column = t.cellAt T' key column := by
    intro key column
    refine Option.ext fun cell => ?_
    have hcell := hcells key column
    simp only [cellAt] at hcell ⊢
    rw [h₁, h, not_not, not_not, keeps_congr hr, hcell]
  simp only [lostKeys, hcells, hkept]

theorem deleteBefore_total (htotal : t.resolution = .total) (cutoff : Int64) :
    t.deleteBefore cutoff = .result (.ok 0) := by
  rw [deleteBefore, htotal]
  rfl

/-- Of whatever writes and deletions have left, a deletion removes exactly the cells of the
buckets that have ended at its cutoff, and it yields the number of row times and series that
lose a cell, in whichever layout they are stored. To delete again up to there or less far
changes nothing, and two deletions come to one up to the later cutoff. The table of all time
never changes. -/
theorem deleteBefore_exact (t : FactTable) (asked : Nat)
    (hroll : t.roll = Place.roll t.resolution asked) (hs : t.Worked s) (cutoff : Int64) :
    ∃ T n T', s.Holds t.table T ∧
      (t.deleteBefore cutoff).run answer s = (.ok n, s.update t.table T') ∧
      (∀ row column cell, T'.cell? row column = some cell ↔
        T.cell? row column = some cell ∧ t.Keeps cutoff row column) ∧
      (∀ e ∈ T'.rows.entries, e.2.isEmpty = false) ∧
      (t.lostKeys T T').encard = n ∧
      (t.resolution = .total → n = 0 ∧ s.update t.table T' = s) ∧
      (∀ (other : FactTable) s₁ T₁, other.resolution = t.resolution → other.roll = t.roll →
        other.Worked s₁ → s₁.Holds other.table T₁ →
        (∀ key column, other.cellAt T₁ key column = t.cellAt T key column) →
          ((other.deleteBefore cutoff).run answer s₁).1 = .ok n) ∧
      (∀ earlier, earlier ≤ cutoff → (t.deleteBefore earlier).run answer (s.update t.table T') =
        (.ok 0, s.update t.table T')) ∧
      ∀ next, ∃ n' n'' s'',
        (t.deleteBefore next).run answer (s.update t.table T') = (.ok n', s'') ∧
          (t.deleteBefore (max cutoff next)).run answer s = (.ok n'', s'') := by
  have ht := rolled_of_eq hroll
  obtain ⟨T, hT, hlaid⟩ := hs.laid ht
  obtain ⟨n, T', hrun, hloses⟩ := deleteBefore_run_keeps ht hT hlaid cutoff
  have hT' := hT.update_self T'
  have hlaid' := laid_of_without hlaid hloses.without
  have hkept : ∀ row column cell, T'.cell? row column = some cell ↔
      T.cell? row column = some cell ∧ t.Keeps cutoff row column := fun row column cell => by
    rw [hloses.without, not_not]
  refine ⟨T, n, T', hT, hrun, hkept, T'.nonempty, ?_, ?_, ?_, ?_, ?_⟩
  · rw [encard_lostKeys hlaid, hloses.count]
  · intro htotal
    rw [deleteBefore_total htotal, Program.run_result, Prod.mk.injEq, Except.ok.injEq] at hrun
    exact ⟨hrun.1.symm, hrun.2.symm⟩
  · intro other s₁ T₁ hr hroll' hs₁ hT₁ hcells
    have hother : other.Rolled := ⟨hroll' ▸ ht.pos, hroll' ▸ ht.le⟩
    obtain ⟨U, hU, hlaid₁⟩ := hs₁.laid hother
    obtain rfl : T₁ = U := hT₁.contents_eq.symm.trans hU.contents_eq
    obtain ⟨n₁, T₁', hrun₁, hloses₁⟩ := deleteBefore_run_keeps hother hT₁ hlaid₁ cutoff
    -- a salt moves rows, but not the logical rows that are counted
    have hcount : (n₁ : ℕ∞) = n := by
      rw [← hloses₁.count, ← hloses.count, ← encard_lostKeys hlaid₁, ← encard_lostKeys hlaid,
        lostKeys_congr hr hcells hloses.without hloses₁.without]
    rw [hrun₁, Nat.cast_inj.mp hcount]
  · intro earlier hle
    obtain ⟨n₁, T₁, hrun₁, hloses₁⟩ := deleteBefore_run_keeps ht hT' hlaid' earlier
    have hnothing : T'.Loses (fun _ _ => False) T₁ n₁ := hloses₁.congr fun row column hcell => by
      obtain ⟨cell, hcell⟩ := Option.isSome_iff_exists.mp hcell
      exact iff_false_intro (not_not_intro (((hkept row column cell).mp hcell).2.mono hle))
    obtain ⟨rfl, rfl⟩ := hnothing.eq_self
    rw [hrun₁, update_update]
  · intro next
    obtain ⟨n₁, T₁, hrun₁, hloses₁⟩ := deleteBefore_run_keeps ht hT' hlaid' next
    obtain ⟨n₂, T₂, hrun₂, hloses₂⟩ := deleteBefore_run_keeps ht hT hlaid (max cutoff next)
    have hboth := (hloses.without.trans hloses₁.without).congr fun row column _ => by
      rw [← not_and_or, ← keeps_max]
    obtain rfl := hloses₂.without.unique hboth
    exact ⟨n₁, n₂, s.update t.table T₂, by rw [hrun₁, update_update], hrun₂⟩

/-- At the end of the minute two series lose their buckets, one row each. -/
theorem sample_deleteBefore_exact :
    let s := ((sampleTable.performAll sampleChanges).run answer sampleStorage).2
    sampleTable.Worked s ∧ ∃ T',
      (sampleTable.deleteBefore 120).run answer s = (.ok 2, s.update sampleTable.table T') ∧
      (sampleTable.deleteBefore 119).run answer (s.update sampleTable.table T') =
        (.ok 0, s.update sampleTable.table T') := by
  intro s
  have hempty : sampleStorage.Holds sampleTable.table .empty :=
    holds_of_blank (by decide +kernel)
  have hs : sampleTable.Worked s :=
    (Worked.empty hempty).performAll (by decide) sampleChanges
  have hcount : ((sampleTable.deleteBefore 120).run answer s).1.toOption = some 2 := by
    decide +kernel
  obtain ⟨T, n, T', -, hrun, -, -, -, -, -, hagain, -⟩ :=
    deleteBefore_exact sampleTable 10 rfl hs 120
  rw [hrun] at hcount
  obtain rfl : n = 2 := Option.some.inj hcount
  exact ⟨hs, T', hrun, hagain 119 (by decide)⟩

end FactTable

end Rollup
