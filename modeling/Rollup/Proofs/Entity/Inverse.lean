import Rollup.Proofs.Entity.Concurrent

/-!
Numbers back to strings. Each record belongs to a string with the number, or to a task that
still holds the number (`Accounted`) and takes the record back if it loses its claim.
-/

namespace Rollup.Numbering

open Storage Entity Program

/-- The table is there, and each record belongs to a string with its number or to a task
that holds the number. -/
structure Accounted (table : TableId) (s : Metered) (g : Account) : Prop
    extends Tidy table s g where
  present : ∃ T, s.storage.Holds table T
  accounted : ∀ kind id cell,
    (s.storage.contents table).cell? (numberRow kind id) nameColumn = some cell →
    (∃ name, NumberedAs (s.storage.contents table) ⟨kind, name⟩ id) ∨
      ∃ i, g.holder i = some (kind, id)

namespace Accounted

variable {table : TableId} {s : Metered} {g g' : Account} {i : Nat} {kind : EntityKind}
  {e : Entity} {id : UInt32} {T : Table} {attempts : Nat}

theorem empty {s : Storage} (hempty : s.Holds table .empty)
    (hmemory : ∀ cache e, s.memory cache e = none) : Accounted table ⟨s, 0⟩ {} := by
  refine ⟨Tidy.empty hempty.contents_eq hmemory, ⟨_, hempty⟩, fun kind id cell hcell => ?_⟩
  rw [hempty.contents_eq] at hcell
  cases hcell

theorem update (h : Accounted table s g)
    (htidy : Tidy table ⟨s.storage.update table T, attempts⟩ g')
    (hnumbers : ∀ (e : Entity) id, NumberedAs (s.storage.contents table) e id → NumberedAs T e id)
    (hrecords : ∀ kind id cell, T.cell? (numberRow kind id) nameColumn = some cell →
      ((s.storage.contents table).cell? (numberRow kind id) nameColumn = some cell ∧
        ∀ j, g.holder j = some (kind, id) → g'.holder j = some (kind, id)) ∨
      (∃ name, NumberedAs T ⟨kind, name⟩ id) ∨ ∃ j, g'.holder j = some (kind, id)) :
    Accounted table ⟨s.storage.update table T, attempts⟩ g' := by
  obtain ⟨T₀, hT₀⟩ := h.present
  refine ⟨htidy, ⟨T, hT₀.update_self T⟩, fun kind id cell hcell => ?_⟩
  simp only [contents_update, if_true] at hcell ⊢
  rcases hrecords kind id cell hcell with ⟨hbefore, hheld⟩ | hnew
  · rcases h.accounted kind id cell hbefore with ⟨name, hname⟩ | ⟨j, hj⟩
    · exact .inl ⟨name, hnumbers _ id hname⟩
    · exact .inr ⟨j, hheld j hj⟩
  · exact hnew

theorem read (h : Accounted table s g) :
    let s' : Metered := ⟨s.storage.update table (s.storage.contents table), s.attempts⟩
    Accounted table s' g ∧ ∀ j, Stable table j (s, g) (s', g) :=
  ⟨h.update h.toTidy.read.1 (fun _ _ hid => hid)
    fun _ _ _ hcell => .inl ⟨hcell, fun _ hj => hj⟩, h.toTidy.read.2⟩

theorem raise (h : Accounted table s g) (hidle : g.holder i = none) (kind : EntityKind) :
    let s' : Metered := ⟨s.storage.update table ((s.storage.contents table).setCell
      (counterRow kind) counterColumn
        (some (Bytes.ofInt64 (Int64.ofNat (g.count kind + 1))))), s.attempts + 1⟩
    Accounted table s' (g.reserve i kind) := by
  refine h.update (h.toTidy.raise i kind).1
    (fun _ _ => (numberedAs_setCell nameRow_ne_counterRow).mpr) ?_
  intro kind' id cell hcell
  refine .inl ⟨by simpa [Table.cell?_setCell] using hcell, fun j hj => ?_⟩
  have hji : j ≠ i := by
    rintro rfl
    rw [hidle] at hj
    cases hj
  rw [Account.holder_reserve_ne hji, hj]

theorem setRecord (h : Accounted table s g) (hheld : g.holder i = some (kind, id))
    (name : Bytes) :
    let s' : Metered := ⟨s.storage.update table ((s.storage.contents table).setCell
      (numberRow kind id) nameColumn (some name)), s.attempts⟩
    Accounted table s' g := by
  refine h.update (h.toTidy.setRecord hheld (some name)).1
    (fun _ _ => (numberedAs_setCell nameRow_ne_numberRow).mpr) ?_
  intro kind' id' cell hcell
  by_cases hrow : numberRow kind' id' = numberRow kind id
  · obtain ⟨rfl, rfl⟩ := numberRow_injective hrow
    exact .inr (.inr ⟨i, hheld⟩)
  · exact .inl ⟨by simpa [Table.cell?_setCell, hrow] using hcell, fun _ hj => hj⟩

theorem retract (h : Accounted table s g) (hheld : g.holder i = some (kind, id)) :
    let s' : Metered := ⟨s.storage.update table ((s.storage.contents table).setCell
      (numberRow kind id) nameColumn none), s.attempts⟩
    Accounted table s' (g.give i none) ∧
      ∀ j, j ≠ i → Stable table j (s, g) (s', g.give i none) := by
  intro s'
  obtain ⟨hcleared, hstable⟩ := h.toTidy.setRecord hheld none
  obtain ⟨hreleased, hstable'⟩ := hcleared.release i
  refine ⟨h.update hreleased (fun _ _ => (numberedAs_setCell nameRow_ne_numberRow).mpr) ?_,
    fun j hji => (hstable j hji).trans (hstable' j hji)⟩
  intro kind' id' cell hcell
  by_cases hrow : numberRow kind' id' = numberRow kind id
  · simp [Table.cell?_setCell, hrow] at hcell
  · refine .inl ⟨by simpa [Table.cell?_setCell, hrow] using hcell, fun j hj => ?_⟩
    have hji : j ≠ i := by
      rintro rfl
      rw [hheld] at hj
      cases hj
      exact hrow rfl
    rw [Account.holder_give_ne hji, hj]

theorem claim (h : Accounted table s g) (hheld : g.holder i = some (e.kind, id))
    (hrecord : (s.storage.contents table).cell? (numberRow e.kind id) nameColumn =
      some (Utf8.encode e.name))
    (hfree : (s.storage.contents table).cell? e.nameRow idColumn = none) :
    let s' : Metered := ⟨s.storage.update table ((s.storage.contents table).setCell
      e.nameRow idColumn (some (Bytes.ofUInt32 id))), s.attempts⟩
    Accounted table s' (g.give i none) ∧
      ∀ j, j ≠ i → Stable table j (s, g) (s', g.give i none) := by
  intro s'
  obtain ⟨hclaimed, hstable, hid⟩ := h.toTidy.claim hheld hrecord hfree
  have hnumbers := (hstable (i + 1) (Nat.succ_ne_self i)).numbers
  simp only [contents_update, if_true] at hid hnumbers
  refine ⟨h.update hclaimed hnumbers ?_, hstable⟩
  intro kind' id' cell hcell
  by_cases hheld' : g.holder i = some (kind', id')
  · cases hheld.symm.trans hheld'
    exact .inr (.inl ⟨e.name, hid⟩)
  · refine .inl ⟨by simpa [Table.cell?_setCell] using hcell, fun j hj => ?_⟩
    have hji : j ≠ i := by
      rintro rfl
      exact hheld' hj
    rw [Account.holder_give_ne hji, hj]

theorem cell?_numberRow_iff (h : Accounted table s g) (hidle : ∀ i, g.holder i = none)
    {cell : Bytes} :
    (s.storage.contents table).cell? (numberRow kind id) nameColumn = some cell ↔
      ∃ name, cell = Utf8.encode name ∧
        NumberedAs (s.storage.contents table) ⟨kind, name⟩ id := by
  constructor
  · intro hcell
    rcases h.accounted kind id cell hcell with ⟨name, hname⟩ | ⟨i, hi⟩
    · have hrecord := (h.numbered.recorded hname).2.2
      exact ⟨name, Option.some.inj (hcell.symm.trans hrecord), hname⟩
    · rw [hidle] at hi
      cases hi
  · rintro ⟨name, rfl, hname⟩
    exact (h.numbered.recorded hname).2.2

end Accounted

def Metered.bare (s : Metered) : Metered := ⟨{ s.storage with caches := .empty }, s.attempts⟩

/-- Tasks all of whose requests are served, as long as no counter has come round. -/
def servedDiscipline (table : TableId) : Discipline Nat Metered Account where
  within s := s.attempts < 2 ^ 64
  inv s := Accounted table s.bare
  rely := Stable table
  refl := Stable.refl table
  trans _ _ _ _ := Stable.trans

def served : Request → Bool := fun _ => false

section Steps

variable {table : TableId} {i : Nat} {x y : Metered × Account} {s : Metered} {g : Account}
  {e : Entity} {id : UInt32} {α β : Type}

theorem stable_bare_left : Stable table i (s.bare, g) y ↔ Stable table i (s, g) y :=
  ⟨fun h => ⟨h.numbers, h.counts, h.holder, h.record⟩,
    fun h => ⟨h.numbers, h.counts, h.holder, h.record⟩⟩

theorem stable_bare_right : Stable table i x (s.bare, g) ↔ Stable table i x (s, g) :=
  ⟨fun h => ⟨h.numbers, h.counts, h.holder, h.record⟩,
    fun h => ⟨h.numbers, h.counts, h.holder, h.record⟩⟩

/-- What is promised of an answer. There always is one. -/
def Promised (promised : α → Metered × Account → Prop) :
    Except Error α → Metered × Account → Prop
  | .ok a, y => promised a y
  | .error _, _ => False

theorem safe_serve {op : TableOp} {promised : op.Answer → Metered × Account → Prop}
    (hop : ∀ s g, Stable table i x (s, g) → Accounted table s g → ∃ a T,
      (s.storage.contents table).perform op = .ok (a, T) ∧
        let s' : Metered := ⟨s.storage.update table T,
          s.attempts + if raises (.table table op) then 1 else 0⟩
        (s'.attempts < 2 ^ 64 → ∃ g', Accounted table s' g' ∧
          (∀ j, j ≠ i → Stable table j (s, g) (s', g')) ∧
          ∀ z, Stable table i (s', g') z → promised a z)) :
    (perform table op).Safe (servedDiscipline table) answer served i (Promised promised) x := by
  rintro ⟨s, g⟩ hrely hinv how hwithin
  obtain ⟨a, T, hperform, heffect⟩ := hop s.bare g (stable_bare_right.mpr hrely) hinv
  let s' : Metered := ⟨s.storage.update table T,
    s.attempts + if raises (.table table op) then 1 else 0⟩
  have hmet : treat answer served (.table table op) s how = (.ok a, s') := by
    obtain ⟨T₀, hT₀⟩ : ∃ T₀, s.storage.Holds table T₀ := hinv.present
    have hanswer : Storage.answer (.table table op) s.storage =
        (.ok a, s.storage.update table T) :=
      run_perform op hT₀ (hT₀.contents_eq ▸ hperform)
    have hserved : answer (.table table op) s = (.ok a, s') := by
      simp [answer, hanswer, s', Except.isOk, Except.toBool]
    cases how <;> exact hserved
  rw [hmet] at hwithin ⊢
  obtain ⟨g', hinv', hothers, hpost⟩ := heffect hwithin
  refine ⟨g', hinv', fun j hji => ?_, fun z hz _ => hpost z (stable_bare_left.mpr hz)⟩
  exact stable_bare_right.mp (stable_bare_left.mp (hothers j hji))

/-- A task without a number ends the program without one. -/
def Clears (table : TableId) (i : Nat) (p : Work α) : Prop :=
  ∀ x, x.2.holder i = none →
    p.Safe (servedDiscipline table) answer served i (fun _ y => y.2.holder i = none) x

theorem clears_result (outcome : Except Error α) : Clears table i (.result outcome) :=
  fun _ hx _ hrely _ => hrely.holder.trans hx

theorem Clears.bind {p : Work α} {f : α → Work β} (hp : Clears table i p)
    (hf : ∀ a, Clears table i (f a)) : Clears table i (p.bind f) :=
  fun x hx => safe_bind (hp x hx) (fun a y _ hy => hf a y hy) fun _ _ _ hy => hy

theorem safe_of_promised {p : Work α} {promised : α → Metered × Account → Prop}
    {post : Except Error α → Metered × Account → Prop}
    (h : p.Safe (servedDiscipline table) answer served i (Promised promised) x)
    (hpost : ∀ a y, promised a y → post (.ok a) y) :
    p.Safe (servedDiscipline table) answer served i post x := by
  refine safe_mono (fun outcome y _ hy => ?_) h
  cases outcome with
  | ok a => exact hpost a y hy
  | error err => exact hy.elim

theorem clears_get (row column : Bytes) : Clears table i (get table row column) := by
  intro x hx
  have hserve : (get table row column).Safe (servedDiscipline table) answer served i
      (Promised fun _ y => y.2.holder i = none) x := by
    refine safe_serve fun s g hrely hinv => ?_
    obtain ⟨hinv', hstable⟩ := hinv.read
    refine ⟨_, _, rfl, fun _ => ⟨g, hinv', fun j _ => hstable j, fun z hz => ?_⟩⟩
    exact hz.holder.trans (hrely.holder.trans hx)
  exact safe_of_promised hserve fun _ _ hy => hy

theorem clears_known (cache : Nat) (e : Entity) : Clears table i (known cache e) := by
  rintro x hx ⟨s, g⟩ hrely hinv how -
  have hmet : treat answer served (.known cache e) s how =
      (.ok (s.storage.memory cache e), s) := by
    cases how <;> rfl
  rw [hmet]
  exact ⟨g, hinv, fun j _ => Stable.refl table j _,
    clears_result _ _ (hrely.holder.trans hx)⟩

theorem clears_remember (cache : Nat) (e : Entity) (id : UInt32) :
    Clears table i (remember cache e id) := by
  rintro x hx ⟨s, g⟩ hrely hinv how -
  have hmet : treat answer served (.remember cache e id) s how =
      (.ok (), ⟨s.storage.noted cache e id, s.attempts⟩) := by
    cases how <;> rfl
  rw [hmet]
  have hcontents : (⟨s.storage.noted cache e id, s.attempts⟩ : Metered).storage.contents table =
      s.storage.contents table := contents_noted ..
  exact ⟨g, hinv, fun j _ => Stable.of_contents_eq hcontents j g,
    clears_result _ _ (hrely.holder.trans hx)⟩

theorem safe_reserve (kind : EntityKind) (hx : x.2.holder i = none) :
    (incrementAndGet table (counterRow kind) counterColumn 1).Safe
      (servedDiscipline table) answer served i (Promised fun next y => ∃ n : Nat,
        next = Int64.ofNat n ∧ n < 2 ^ 64 ∧
          y.2.holder i = if n ≤ 4294967295 then some (kind, UInt32.ofNat n) else none) x := by
  refine safe_serve fun s g hrely hinv => ?_
  refine ⟨_, _, hinv.numbered.add_counter kind, fun hwithin => ?_⟩
  have hbound : s.attempts + 1 < 2 ^ 64 := hwithin
  have hattempted := hinv.attempted kind
  refine ⟨_, hinv.raise (hrely.holder.trans hx) kind, (hinv.toTidy.raise i kind).2,
    fun z hz => ⟨g.count kind + 1, rfl, by omega, hz.holder.trans ?_⟩⟩
  exact Account.holder_give_self ..

theorem safe_note {kind : EntityKind} {name : Bytes} (hheld : x.2.holder i = some (kind, id)) :
    (put table (numberRow kind id) nameColumn name).Safe
      (servedDiscipline table) answer served i (Promised fun _ y =>
        y.2.holder i = some (kind, id) ∧
          (y.1.storage.contents table).cell? (numberRow kind id) nameColumn = some name) x := by
  refine safe_serve fun s g hrely hinv => ?_
  have hheld' : g.holder i = some (kind, id) := hrely.holder.trans hheld
  refine ⟨_, _, rfl, fun _ => ⟨g, hinv.setRecord hheld' name,
    (hinv.toTidy.setRecord hheld' (some name)).2, fun z hz => ⟨hz.holder.trans hheld', ?_⟩⟩⟩
  rw [hz.record kind id hheld']
  simp [Table.cell?_setCell]

theorem safe_contend (hheld : x.2.holder i = some (e.kind, id))
    (hrecord : (x.1.storage.contents table).cell? (numberRow e.kind id) nameColumn =
      some (Utf8.encode e.name)) :
    (swap table e.nameRow idColumn none (some (Bytes.ofUInt32 id))).Safe
      (servedDiscipline table) answer served i (Promised fun claimed y =>
        if claimed then y.2.holder i = none
        else y.2.holder i = some (e.kind, id) ∧
          (y.1.storage.contents table).cell? (numberRow e.kind id) nameColumn =
            some (Utf8.encode e.name)) x := by
  refine safe_serve fun s g hrely hinv => ?_
  have hheld' : g.holder i = some (e.kind, id) := hrely.holder.trans hheld
  have hrecord' := (hrely.record _ _ hheld).trans hrecord
  cases hcell : (s.storage.contents table).cell? e.nameRow idColumn with
  | none =>
      obtain ⟨hinv', hothers⟩ := hinv.claim hheld' hrecord' hcell
      refine ⟨true, _, by simp [Table.perform, hcell],
        fun _ => ⟨_, hinv', hothers, fun z hz => hz.holder.trans (g.holder_give_self i none)⟩⟩
  | some cell =>
      obtain ⟨hinv', hstable⟩ := hinv.read
      refine ⟨false, _, by simp [Table.perform, hcell],
        fun _ => ⟨g, hinv', fun j _ => hstable j, fun z hz => ?_⟩⟩
      have hz' := (hstable i).trans hz
      exact ⟨hz'.holder.trans hheld', (hz'.record _ _ hheld').trans hrecord'⟩

theorem safe_retract {kind : EntityKind} {name : Bytes} (hheld : x.2.holder i = some (kind, id))
    (hrecord : (x.1.storage.contents table).cell? (numberRow kind id) nameColumn = some name) :
    (swap table (numberRow kind id) nameColumn (some name) none).Safe
      (servedDiscipline table) answer served i (Promised fun _ y => y.2.holder i = none) x := by
  refine safe_serve fun s g hrely hinv => ?_
  have hheld' : g.holder i = some (kind, id) := hrely.holder.trans hheld
  have hrecord' : (s.storage.contents table).cell? (numberRow kind id) nameColumn = some name :=
    (hrely.record _ _ hheld).trans hrecord
  obtain ⟨hinv', hothers⟩ := hinv.retract hheld'
  refine ⟨true, _, by simp [Table.perform, hrecord'],
    fun _ => ⟨_, hinv', hothers, fun z hz => hz.holder.trans (g.holder_give_self i none)⟩⟩

theorem safe_yield (t : EntityTable) (hheld : x.2.holder i = some (e.kind, id))
    (hrecord : (x.1.storage.contents t.table).cell? (numberRow e.kind id) nameColumn =
      some (Utf8.encode e.name)) :
    (t.yieldClaim e id).Safe (servedDiscipline t.table) answer served i
      (fun _ y => y.2.holder i = none) x := by
  simp only [EntityTable.yieldClaim, bind_eq]
  refine safe_bind (m := fun _ y => y.2.holder i = none)
    (safe_attempt (safe_of_promised (safe_retract hheld hrecord) fun _ _ hy => hy)) ?_
    fun _ _ _ hy => hy
  intro _ y _ hy
  refine Clears.bind (clears_get _ _) (fun found => ?_) y hy
  cases found with
  | none => exact clears_result _
  | some cell => exact clears_result _

theorem clears_allocate (t : EntityTable) (e : Entity) : Clears t.table i (t.allocate e) := by
  intro x hx
  simp only [EntityTable.allocate, bind_eq]
  refine safe_bind (safe_reserve e.kind hx) ?_ fun err y _ hy => hy.elim
  rintro _ y - ⟨n, rfl, hn, hheld⟩
  by_cases hrange : n ≤ 4294967295
  · rw [if_pos hrange] at hheld
    rw [if_pos ((EntityTable.inRange_iff hn).mpr hrange)]
    simp only [Int64.toUInt64_ofNat', UInt64.toUInt32_ofNat']
    refine safe_bind (safe_note hheld) ?_ fun err z _ hz => hz.elim
    rintro _ z - ⟨hheld', hrecord⟩
    refine safe_bind (safe_contend hheld' hrecord) ?_ fun err w _ hw => hw.elim
    intro claimed w _ hw
    cases claimed with
    | true => exact clears_result _ w hw
    | false => exact safe_yield t hw.1 hw.2
  · rw [if_neg hrange] at hheld
    rw [if_neg (mt (EntityTable.inRange_iff hn).mp hrange)]
    exact clears_result _ y hheld

theorem clears_read (t : EntityTable) (e : Entity) : Clears t.table i (t.read e) := by
  simp only [EntityTable.read, bind_eq]
  refine (clears_get _ _).bind fun found => ?_
  cases found with
  | none => exact clears_result _
  | some cell => exact clears_result _

theorem clears_resolve (t : EntityTable) (e : Entity) : Clears t.table i (t.resolve e) := by
  simp only [EntityTable.resolve, EntityTable.readOrAllocate, bind_eq]
  refine (clears_known _ _).bind fun found => ?_
  cases found with
  | some id => exact clears_result _
  | none =>
      refine Clears.bind ?_ fun id => (clears_remember _ _ _).bind fun _ => clears_result _
      refine (clears_read t e).bind fun found => ?_
      cases found with
      | some id => exact clears_result _
      | none => exact clears_allocate t e

theorem clears_lookup (t : EntityTable) (e : Entity) : Clears t.table i (t.lookup e) := by
  simp only [EntityTable.lookup, bind_eq]
  refine (clears_known _ _).bind fun found => ?_
  cases found with
  | some id => exact clears_result _
  | none =>
      refine (clears_read t e).bind fun found => ?_
      cases found with
      | none => exact clears_result _
      | some id => exact (clears_remember _ _ _).bind fun _ => clears_result _

theorem clears_program (c : Call) : Clears table i (c.program table) := by
  simp only [Call.program]
  split
  · exact (clears_resolve ⟨table, c.cache⟩ c.entity).bind fun _ => clears_result _
  · exact clears_lookup ⟨table, c.cache⟩ c.entity

end Steps

theorem works_carries (table : TableId) :
    ({ works table with fallible := served } : Pool.Works ..).Carries (servedDiscipline table)
      (fun i _ _ y => y.2.holder i = none) fun i y => y.2.holder i = none where
  begin i c s g hinv hidle := ⟨g, hinv, fun j _ => Stable.refl table j _, clears_program c _ hidle⟩
  join i _ c c' outcome s g _ hinv hidle _ :=
    ⟨g, hinv, fun j _ => Stable.refl table j _, clears_result _ _ hidle⟩
  disturb cause s g hinv :=
    ⟨g, hinv, fun j => Stable.of_contents_eq (show (forget s cause.1 cause.2).storage.contents
      table = s.storage.contents table from rfl) j g⟩
  stays _ _ _ hrely hidle := hrely.holder.trans hidle
  within_handle q s h := by
    simp only [servedDiscipline, works, answer] at h ⊢
    omega
  within_disturb cause s h := h

theorem nameOf_run {t : EntityTable} {s : Storage} {T : Table} (hT : s.Holds t.table T)
    (kind : EntityKind) (id : UInt32) {named : String → Prop}
    (hnamed : ∀ cell, T.cell? (numberRow kind id) nameColumn = some cell ↔
      ∃ name, cell = Utf8.encode name ∧ named name) :
    ∃ found, (t.nameOf kind id).run Storage.answer s = (.ok found, s) ∧
      ∀ name, found = some name ↔ named name := by
  simp only [EntityTable.nameOf, bind_eq]
  rw [run_bind_of_ok (run_get hT (numberRow kind id) nameColumn)]
  cases hcell : T.cell? (numberRow kind id) nameColumn with
  | none =>
      refine ⟨none, rfl, fun name => ?_⟩
      have hnone : ¬ named name := fun hname => by
        have hrecord := (hnamed _).mpr ⟨name, rfl, hname⟩
        rw [hcell] at hrecord
        cases hrecord
      simp [hnone]
  | some cell =>
      obtain ⟨name, rfl, hname⟩ := (hnamed cell).mp hcell
      refine ⟨some name, by simp [readName, Utf8.decode_encode, Except.map], fun name' => ?_⟩
      rw [Option.some.injEq]
      constructor
      · rintro rfl
        exact hname
      · intro hname'
        have hrecord := (hnamed _).mpr ⟨name', rfl, hname'⟩
        rw [hcell] at hrecord
        exact Utf8.encode_injective _ _ (Option.some.inj hrecord)

/-- Asked for the name of a number, the table answers with the string of the kind that has
the number, or that there is none. Zero has none. -/
def Invertible (table : TableId) (s : Storage) : Prop :=
  ∀ cache kind id, ∃ found,
    ((⟨table, cache⟩ : EntityTable).nameOf kind id).run Storage.answer s = (.ok found, s) ∧
    (∀ name, found = some name ↔ NumberedAs (s.contents table) ⟨kind, name⟩ id) ∧
    (id = 0 → found = none)

theorem invertible_of_accounted {table : TableId} {s : Metered} {g : Account}
    (h : Accounted table s.bare g) (hidle : ∀ i, g.holder i = none) :
    Invertible table s.storage := by
  intro cache kind id
  obtain ⟨T, hT⟩ : ∃ T, s.storage.Holds table T := h.present
  obtain rfl := hT.contents_eq
  obtain ⟨found, hfound, hnames⟩ := nameOf_run (t := ⟨table, cache⟩) hT kind id
    fun cell => h.cell?_numberRow_iff hidle
  refine ⟨found, hfound, hnames, ?_⟩
  rintro rfl
  cases found with
  | none => rfl
  | some name =>
      have hpos := (h.numbered.recorded ((hnames name).mp rfl)).1
      cases hpos

/-- Names are exact once callers are done. Any number of calls over one table that was empty
take their steps in any order, all of them served, until all have returned. No counter may
have come round, which takes 2^64 reserved numbers: the next number would be zero. -/
theorem names_exact (table : TableId) (s : Storage) (hempty : s.Holds table .empty)
    (events : List (Pool.Event Call (Nat × Entity))) (hserved : ∀ event ∈ events, event.Served)
    (hdone : ((works table).run ⟨⟨s, 0⟩, []⟩ events).Done)
    (hattempts : ((works table).run ⟨⟨s, 0⟩, []⟩ events).state.attempts < 2 ^ 64) :
    Invertible table ((works table).run ⟨⟨s, 0⟩, []⟩ events).state.storage := by
  have hrun := Pool.Works.run_of_served (W := works table) served hserved ⟨⟨s, 0⟩, []⟩
  have hstart : Accounted table (Metered.bare ⟨s, 0⟩) {} := .empty hempty fun _ _ => rfl
  obtain ⟨g, hinv, hended, hidle⟩ := Pool.Works.run_carries (works_carries table) hstart
    (fun _ => rfl) events (hrun ▸ hattempts)
  rw [hrun] at hinv hended hidle
  generalize (works table).run ⟨⟨s, 0⟩, []⟩ events = w at hdone hinv hended hidle ⊢
  have hnone : ∀ i, g.holder i = none := fun i => by
    rcases Nat.lt_or_ge i w.tasks.length with hlt | hge
    · obtain ⟨⟨c, outcome⟩, houtcome⟩ := Option.isSome_iff_exists.mp (hdone i hlt)
      exact hended i c outcome houtcome
    · exact hidle i hge
  exact invertible_of_accounted hinv hnone

def contestStore : Storage := { catalog := Catalog.create {} ⟨"s", "e"⟩ {} }

/-- The number that the second reader reserved for its lost claim names nothing. -/
theorem contest_names :
    let final := ((works ⟨"s", "e"⟩).run ⟨⟨contestStore, 0⟩, []⟩ contest).state
    let name id := ((⟨⟨"s", "e"⟩, 0⟩ : EntityTable).nameOf .metric id).run Storage.answer
      final.storage
    final.attempts = 2 ∧ (name 1).1 = .ok (some "a") ∧ (name 2).1 = .ok none ∧
      Invertible ⟨"s", "e"⟩ final.storage := by
  have hempty : contestStore.Holds ⟨"s", "e"⟩ .empty := holds_of_blank (by decide +kernel)
  have hserved : ∀ event ∈ contest, event.Served := by decide
  have hdone : ((works ⟨"s", "e"⟩).run ⟨⟨contestStore, 0⟩, []⟩ contest).Done := by
    decide +kernel
  have hattempts : ((works ⟨"s", "e"⟩).run ⟨⟨contestStore, 0⟩, []⟩ contest).state.attempts =
      2 := by decide +kernel
  exact ⟨hattempts, rfl, rfl, names_exact ⟨"s", "e"⟩ contestStore hempty contest hserved hdone
    (by rw [hattempts]; decide)⟩

/-- A counter that stands at its last value gives out zero next. -/
example :
    let T := Table.empty.setCell (counterRow .metric) counterColumn (some (Bytes.ofInt64 (-1)))
    let s := ({} : Storage).update ⟨"s", "e"⟩ T
    (((⟨⟨"s", "e"⟩, 0⟩ : EntityTable).resolve ⟨.metric, "a"⟩).run Storage.answer s).1 =
      .ok 0 := by
  rfl

end Rollup.Numbering
