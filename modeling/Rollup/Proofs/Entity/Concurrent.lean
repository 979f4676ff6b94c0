import Rollup.Proofs.Entity.Account
import Rollup.Proofs.Entity.Resolve
import Rollup.Proofs.Program.Pool

namespace Rollup.Numbering

open Storage Entity Program

structure Call where
  cache : Nat
  entity : Entity
  resolves : Bool
  deriving DecidableEq

def Call.program (table : TableId) (c : Call) : Work (Option UInt32) :=
  let t : EntityTable := ⟨table, c.cache⟩
  if c.resolves then do return some (← t.resolve c.entity) else t.lookup c.entity

def forget (s : Metered) (cache : Nat) (e : Entity) : Metered :=
  { s with storage := s.storage.forgotten cache e }

/-- Calls over one table. Of two calls to resolve one string over one memory, the later one
may wait for the other and take over its outcome. -/
def works (table : TableId) :
    Pool.Works interface Call (Nat × Entity) Metered (Option UInt32) where
  handle := answer
  fallible := fallible
  program := Call.program table
  adopts c c' := c.resolves && decide (c = c')
  disturb cause s := forget s cause.1 cause.2

def lostClaim (e : Entity) : Error :=
  .internal s!"{e.kind.name} '{e.name}' lost its id claim but no winner is recorded"

def discipline (table : TableId) : Discipline Nat Metered Account where
  within s := s.attempts < 2 ^ 63
  inv := Tidy table
  rely := Stable table
  refl := Stable.refl table
  trans _ _ _ _ := Stable.trans

section Steps

variable {table : TableId} {i : Nat} {x : Metered × Account} {e : Entity} {id : UInt32}

theorem safe_perform {op : TableOp}
    {post : Except Error op.Answer → Metered × Account → Prop}
    (hfail : ∀ detail y, Stable table i x y → Tidy table y.1 y.2 →
      post (.error (.storageUnavailable detail)) y)
    (hop : ∀ y, Stable table i x y → Tidy table y.1 y.2 → ∃ a T,
      (y.1.storage.contents table).perform op = .ok (a, T) ∧
        let s' : Metered := ⟨y.1.storage.update table T,
          y.1.attempts + if raises (.table table op) then 1 else 0⟩
        (s'.attempts < 2 ^ 63 → ∃ g, Tidy table s' g ∧
          (∀ j, j ≠ i → Stable table j y (s', g)) ∧
          ∀ z, Stable table i (s', g) z → Tidy table z.1 z.2 → post (.ok a) z ∧
            ∀ detail, post (.error (.storageUnavailable detail)) z)) :
    (perform table op).Safe (discipline table) answer fallible i post x := by
  intro y hrely hinv how hwithin
  obtain ⟨a, T, hperform, heffect⟩ := hop y hrely hinv
  -- without an effect nothing has moved
  have hnothing : ∀ detail, ∃ g, Tidy table y.1 g ∧ (∀ j, j ≠ i → Stable table j y (y.1, g)) ∧
      (Program.result (I := interface) (.error (.storageUnavailable detail))).Safe
        (discipline table) answer fallible i post (y.1, g) := fun detail =>
    ⟨y.2, hinv, fun j _ => Stable.refl table j y, fun z hz hz' =>
      hfail detail z (hrely.trans hz) hz'⟩
  have hmet := treat_cases answer fallible (.table table op) y.1 how
  rcases answer_of_perform hperform with hserved | ⟨detail, hfailed⟩
  · have hanswer : answer (.table table op) y.1 = (.ok a, ⟨y.1.storage.update table T,
        y.1.attempts + if raises (.table table op) then 1 else 0⟩) := by
      simp [answer, hserved, Except.isOk, Except.toBool]
    rw [hanswer] at hmet
    rcases hmet with hmet | ⟨detail, hmet⟩ | ⟨detail, hmet⟩
    · rw [hmet] at hwithin ⊢
      obtain ⟨g, hinv', hothers, hpost⟩ := heffect hwithin
      exact ⟨g, hinv', hothers, fun z hz hz' => (hpost z hz hz').1⟩
    · rw [hmet] at hwithin ⊢
      obtain ⟨g, hinv', hothers, hpost⟩ := heffect hwithin
      exact ⟨g, hinv', hothers, fun z hz hz' => (hpost z hz hz').2 detail⟩
    · rw [hmet]
      exact hnothing detail
  · have hanswer : answer (.table table op) y.1 =
        (.error (.storageUnavailable detail), y.1) := by
      simp [answer, hfailed, Except.isOk, Except.toBool]
    rw [hanswer] at hmet
    rcases hmet with hmet | ⟨detail, hmet⟩ | ⟨detail, hmet⟩ <;>
      (rw [hmet]; exact hnothing detail)

/-- What a table operation promises of its answer, unless the table fails. -/
def OrUnavailable {α : Type} (promised : α → Metered × Account → Prop) :
    Except Error α → Metered × Account → Prop
  | .ok a, y => promised a y
  | .error err, _ => ∃ detail, err = .storageUnavailable detail

theorem OrUnavailable.failed {α : Type} {promised : α → Metered × Account → Prop}
    (detail : String) (y : Metered × Account) :
    OrUnavailable promised (.error (.storageUnavailable detail)) y :=
  ⟨detail, rfl⟩

theorem safe_get {row column : Bytes}
    {post : Except Error (Option Bytes) → Metered × Account → Prop}
    (hfail : ∀ detail y, Stable table i x y → Tidy table y.1 y.2 →
      post (.error (.storageUnavailable detail)) y)
    (hok : ∀ y z, Stable table i x y → Tidy table y.1 y.2 → Stable table i y z →
      post (.ok ((y.1.storage.contents table).cell? row column)) z) :
    (get table row column).Safe (discipline table) answer fallible i post x := by
  refine safe_perform hfail ?_
  intro y hrely hinv
  obtain ⟨hinv', hstable⟩ := hinv.read
  refine ⟨_, _, rfl, fun _ => ⟨y.2, hinv', fun j _ => hstable j, ?_⟩⟩
  intro z hz hz'
  exact ⟨hok y z hrely hinv ((hstable i).trans hz),
    fun detail => hfail detail z (hrely.trans ((hstable i).trans hz)) hz'⟩

/-- What a call may end with: a number that the string has from then on, or a failure of
the table, or that all numbers of the kind were given out. -/
def Answers (table : TableId) (e : Entity) :
    Except Error (Option UInt32) → Metered × Account → Prop
  | .ok none, _ => True
  | .ok (some id), y => NumberedAs (y.1.storage.contents table) e id
  | .error err, y => (∃ detail, err = .storageUnavailable detail) ∨
      err = EntityTable.exhausted e.kind ∧ 4294967295 < y.2.count e.kind

theorem Answers.stable {outcome : Except Error (Option UInt32)} {y : Metered × Account}
    (h : Answers table e outcome x) (hrely : Stable table i x y) :
    Answers table e outcome y := by
  cases outcome with
  | error err =>
      rcases h with h | ⟨h, hcount⟩
      · exact .inl h
      · exact .inr ⟨h, Nat.lt_of_lt_of_le hcount (hrely.counts e.kind)⟩
  | ok found =>
      cases found with
      | none => trivial
      | some id => exact hrely.numbers e id h

theorem safe_read (t : EntityTable) (e : Entity) (x : Metered × Account) :
    (t.read e).Safe (discipline t.table) answer fallible i (Answers t.table e) x := by
  simp only [EntityTable.read, bind_eq]
  refine safe_bind (m := OrUnavailable fun found y => ∀ cell, found = some cell →
    ∃ id, cell = Bytes.ofUInt32 id ∧ NumberedAs (y.1.storage.contents t.table) e id)
    (safe_get (fun detail y _ _ => .failed detail y) ?_) ?_ ?_
  · intro y z _ hinv hz cell hcell
    obtain ⟨id, rfl, -⟩ := hinv.numbered.record e cell hcell
    exact ⟨id, rfl, hz.numbers e id hcell⟩
  · intro found y _ hfound
    cases found with
    | none =>
        intro z _ _
        trivial
    | some cell =>
        obtain ⟨id, rfl, hid⟩ := hfound cell rfl
        intro z hz _
        simp only [readId_ofUInt32, Except.map]
        exact hz.numbers e id hid
  · intro err y _ herr
    exact .inl herr

theorem safe_raise (kind : EntityKind) (x : Metered × Account) :
    (incrementAndGet table (counterRow kind) counterColumn 1).Safe
      (discipline table) answer fallible i (OrUnavailable fun next y => ∃ n : Nat,
        next = Int64.ofNat n ∧ n < 2 ^ 63 ∧ n ≤ y.2.count kind ∧
          (n ≤ 4294967295 → y.2.holder i = some (kind, UInt32.ofNat n))) x := by
  refine safe_perform (fun detail y _ _ => .failed detail y) ?_
  intro y _ hinv
  refine ⟨_, _, hinv.numbered.add_counter kind, fun hwithin => ?_⟩
  have hattempted := hinv.attempted kind
  have hbound : y.1.attempts + 1 < 2 ^ 63 := hwithin
  obtain ⟨hinv', hothers⟩ := hinv.raise i kind
  refine ⟨_, hinv', hothers, fun z hz _ => ⟨?_, fun detail => .failed detail z⟩⟩
  refine ⟨y.2.count kind + 1, rfl, by omega, ?_, fun hle => ?_⟩
  · refine Nat.le_trans ?_ (hz.counts kind)
    simp [Account.count_reserve]
  · rw [hz.holder]
    exact Account.holder_reserve_self hle

theorem safe_record {kind : EntityKind} {name : Bytes}
    (hheld : x.2.holder i = some (kind, id)) :
    (put table (numberRow kind id) nameColumn name).Safe
      (discipline table) answer fallible i (OrUnavailable fun _ y =>
        y.2.holder i = some (kind, id) ∧
          (y.1.storage.contents table).cell? (numberRow kind id) nameColumn = some name) x := by
  refine safe_perform (fun detail y _ _ => .failed detail y) ?_
  intro y hrely hinv
  have hheld' : y.2.holder i = some (kind, id) := hrely.holder.trans hheld
  obtain ⟨hinv', hothers⟩ := hinv.setRecord hheld' (some name)
  refine ⟨_, _, rfl, fun _ => ⟨y.2, hinv', hothers, fun z hz _ => ⟨⟨?_, ?_⟩, ?_⟩⟩⟩
  · exact hz.holder.trans hheld'
  · rw [hz.record kind id hheld']
    simp [Table.cell?_setCell]
  · exact fun detail => .failed detail z

theorem safe_claim (hheld : x.2.holder i = some (e.kind, id))
    (hrecord : (x.1.storage.contents table).cell? (numberRow e.kind id) nameColumn =
      some (Utf8.encode e.name)) :
    (swap table e.nameRow idColumn none (some (Bytes.ofUInt32 id))).Safe
      (discipline table) answer fallible i (OrUnavailable fun claimed y =>
        if claimed then NumberedAs (y.1.storage.contents table) e id
        else y.2.holder i = some (e.kind, id) ∧
          ∃ winner, NumberedAs (y.1.storage.contents table) e winner) x := by
  refine safe_perform (fun detail y _ _ => .failed detail y) ?_
  intro y hrely hinv
  have hheld' : y.2.holder i = some (e.kind, id) := hrely.holder.trans hheld
  cases hcell : (y.1.storage.contents table).cell? e.nameRow idColumn with
  | none =>
      obtain ⟨hinv', hothers, hid⟩ :=
        hinv.claim hheld' ((hrely.record _ _ hheld).trans hrecord) hcell
      refine ⟨true, _, by simp [Table.perform, hcell], fun _ => ⟨_, hinv', hothers, ?_⟩⟩
      intro z hz _
      exact ⟨hz.numbers e id hid, fun detail => .failed detail z⟩
  | some cell =>
      obtain ⟨winner, rfl, -⟩ := hinv.numbered.record e cell hcell
      obtain ⟨hinv', hstable⟩ := hinv.read
      refine ⟨false, _, by simp [Table.perform, hcell],
        fun _ => ⟨y.2, hinv', fun j _ => hstable j, ?_⟩⟩
      intro z hz _
      have hyz := (hstable i).trans hz
      exact ⟨⟨hyz.holder.trans hheld', winner, hyz.numbers e winner hcell⟩,
        fun detail => .failed detail z⟩

theorem safe_yieldClaim (t : EntityTable) (hheld : x.2.holder i = some (e.kind, id))
    (hwinner : ∃ winner, NumberedAs (x.1.storage.contents t.table) e winner) :
    (t.yieldClaim e id).Safe (discipline t.table) answer fallible i
      (fun outcome => Answers t.table e (outcome.map some)) x := by
  obtain ⟨winner, hwinner⟩ := hwinner
  simp only [EntityTable.yieldClaim, bind_eq]
  refine safe_bind (m := fun outcome y => outcome.isOk = true ∧
    NumberedAs (y.1.storage.contents t.table) e winner) (safe_attempt (safe_perform ?_ ?_)) ?_ ?_
  · intro detail y hrely _
    exact ⟨rfl, hrely.numbers e winner hwinner⟩
  · intro y hrely hinv
    have hheld' : y.2.holder i = some (e.kind, id) := hrely.holder.trans hheld
    have hwinner' := hrely.numbers e winner hwinner
    by_cases hcell : (y.1.storage.contents t.table).cell? (numberRow e.kind id) nameColumn =
        some (Utf8.encode e.name)
    · obtain ⟨hinv', hothers⟩ := hinv.setRecord hheld' none
      refine ⟨true, _, by simp [Table.perform, hcell], fun _ => ⟨y.2, hinv', hothers, ?_⟩⟩
      intro z hz _
      have hnumber : NumberedAs (z.1.storage.contents t.table) e winner :=
        hz.numbers e winner (by simpa [numberedAs_setCell] using hwinner')
      exact ⟨⟨rfl, hnumber⟩, fun _ => ⟨rfl, hnumber⟩⟩
    · obtain ⟨hinv', hstable⟩ := hinv.read
      refine ⟨false, _, by simp [Table.perform, hcell],
        fun _ => ⟨y.2, hinv', fun j _ => hstable j, ?_⟩⟩
      intro z hz _
      have hnumber := ((hstable i).trans hz).numbers e winner hwinner'
      exact ⟨⟨rfl, hnumber⟩, fun _ => ⟨rfl, hnumber⟩⟩
  · intro _ y _ hmid
    refine safe_bind (m := OrUnavailable fun found z =>
      found = some (Bytes.ofUInt32 winner) ∧ NumberedAs (z.1.storage.contents t.table) e winner)
      (safe_get (fun detail z _ _ => .failed detail z) ?_) ?_ ?_
    · intro z z' hz _ hz'
      have hnumber := hz.numbers e winner hmid.2
      exact ⟨hnumber, hz'.numbers e winner hnumber⟩
    · rintro _ z _ ⟨rfl, hnumber⟩
      intro z' hz' _
      simp only [readId_ofUInt32]
      exact hz'.numbers e winner hnumber
    · intro err z _ herr
      exact .inl herr
  · intro err y _ hmid
    cases hmid.1

theorem safe_allocate (t : EntityTable) (e : Entity) (x : Metered × Account) :
    (t.allocate e).Safe (discipline t.table) answer fallible i
      (fun outcome => Answers t.table e (outcome.map some)) x := by
  simp only [EntityTable.allocate, bind_eq]
  refine safe_bind (safe_raise e.kind x) ?_ fun err y _ herr => .inl herr
  rintro _ y - ⟨n, rfl, hn, hcount, hheld⟩
  by_cases hrange : n ≤ 4294967295
  · rw [if_pos ((EntityTable.inRange_iff (by omega)).mpr hrange)]
    simp only [Int64.toUInt64_ofNat', UInt64.toUInt32_ofNat']
    refine safe_bind (safe_record (hheld hrange)) ?_ fun err z _ herr => .inl herr
    rintro _ z - ⟨hheld', hrecord⟩
    refine safe_bind (safe_claim hheld' hrecord) ?_ fun err w _ herr => .inl herr
    intro claimed w _ hw
    cases claimed with
    | true => exact fun w' hrely _ => hrely.numbers e _ hw
    | false => exact safe_yieldClaim t hw.1 hw.2
  · rw [if_neg (mt (EntityTable.inRange_iff (by omega)).mp hrange)]
    intro z hrely _
    exact .inr ⟨rfl, by have := hrely.counts e.kind; omega⟩

theorem safe_known (cache : Nat) (e : Entity) (x : Metered × Account) :
    (known cache e).Safe (discipline table) answer fallible i (Answers table e) x := by
  intro y _ hinv how _
  have hmet : treat answer fallible (.known cache e) y.1 how =
      (.ok (y.1.storage.memory cache e), y.1) := by
    cases how <;> rfl
  rw [hmet]
  refine ⟨y.2, hinv, fun j _ => Stable.refl table j y, fun z hz _ => ?_⟩
  cases hmemory : y.1.storage.memory cache e with
  | none => trivial
  | some id => exact hz.numbers e id (hinv.remembered cache e id hmemory)

theorem safe_remember (cache : Nat) (hid : NumberedAs (x.1.storage.contents table) e id) :
    (remember cache e id).Safe (discipline table) answer fallible i
      (fun outcome y => outcome.isOk = true ∧
        NumberedAs (y.1.storage.contents table) e id) x := by
  intro y hrely hinv how _
  have hid' := hrely.numbers e id hid
  have hmet : treat answer fallible (.remember cache e id) y.1 how =
      (.ok (), ⟨y.1.storage.noted cache e id, y.1.attempts⟩) := by
    cases how <;> rfl
  rw [hmet]
  obtain ⟨hinv', hstable⟩ := hinv.note cache hid'
  refine ⟨y.2, hinv', fun j _ => hstable j, ?_⟩
  intro z hz _
  exact ⟨rfl, hz.numbers e id hid'⟩

theorem safe_noted {α : Type} (cache : Nat) (a : α)
    {post : Except Error α → Metered × Account → Prop}
    (hid : NumberedAs (x.1.storage.contents table) e id)
    (hpost : ∀ y : Metered × Account, NumberedAs (y.1.storage.contents table) e id →
      post (.ok a) y) :
    ((remember cache e id).bind fun _ => .result (.ok a)).Safe
      (discipline table) answer fallible i post x := by
  refine safe_bind (safe_remember cache hid) ?_ ?_
  · intro _ y _ hmid z hz _
    exact hpost z (hz.numbers e id hmid.2)
  · intro err y _ hmid
    cases hmid.1

theorem safe_resolve (t : EntityTable) (e : Entity) (x : Metered × Account) :
    (t.resolve e).Safe (discipline t.table) answer fallible i
      (fun outcome => Answers t.table e (outcome.map some)) x := by
  simp only [EntityTable.resolve, bind_eq]
  refine safe_bind (safe_known t.cache e x) ?_ fun err y _ herr => herr
  intro found y _ hfound
  cases found with
  | some id => exact fun z hz _ => hz.numbers e id hfound
  | none =>
      refine safe_bind (m := fun outcome => Answers t.table e (outcome.map some)) ?_ ?_
        fun err z _ herr => herr
      · simp only [EntityTable.readOrAllocate, bind_eq]
        refine safe_bind (safe_read t e y) ?_ fun err z _ herr => herr
        intro found z _ hfound
        cases found with
        | some id => exact fun w hw _ => hw.numbers e id hfound
        | none => exact safe_allocate t e z
      · intro id z _ hid
        exact safe_noted t.cache id hid fun _ h => h

theorem safe_lookup (t : EntityTable) (e : Entity) (x : Metered × Account) :
    (t.lookup e).Safe (discipline t.table) answer fallible i (Answers t.table e) x := by
  simp only [EntityTable.lookup, bind_eq]
  refine safe_bind (safe_known t.cache e x) ?_ fun err y _ herr => herr
  intro found y _ hfound
  cases found with
  | some id => exact fun z hz _ => hz.numbers e id hfound
  | none =>
      refine safe_bind (safe_read t e y) ?_ fun err z _ herr => herr
      intro found z _ hfound
      cases found with
      | none =>
          intro _ _ _
          trivial
      | some id => exact safe_noted t.cache (some id) hfound fun _ h => h

theorem safe_program (c : Call) (x : Metered × Account) :
    (c.program table).Safe (discipline table) answer fallible i (Answers table c.entity) x := by
  simp only [Call.program]
  split
  · refine safe_bind (safe_resolve ⟨table, c.cache⟩ c.entity x) ?_ fun err y _ herr => herr
    intro id y _ hid z hz _
    exact hz.numbers c.entity id hid
  · exact safe_lookup ⟨table, c.cache⟩ c.entity x

end Steps

variable {table : TableId}

theorem tidy_forget {s : Metered} {g : Account} (h : Tidy table s g) (cache : Nat) (e : Entity) :
    Tidy table (forget s cache e) g ∧ ∀ j, Stable table j (s, g) (forget s cache e, g) := by
  refine ⟨⟨h.numbered, h.attempted, ?_, h.given, h.free, h.distinct⟩,
    fun j => Stable.of_contents_eq (show (forget s cache e).storage.contents table =
      s.storage.contents table from rfl) j g⟩
  intro cache' e' id hmemory
  exact h.remembered cache' e' id (memory_of_forgotten hmemory)

theorem works_keeps (table : TableId) :
    (works table).Keeps (discipline table) fun _ c => Answers table c.entity where
  begin i c s g hinv := ⟨g, hinv, fun j _ => Stable.refl table j _, safe_program c _⟩
  join i _ c c' outcome s g hadopts hinv hpost := by
    obtain rfl : c = c' := by
      simp only [works, Bool.and_eq_true, decide_eq_true_eq] at hadopts
      exact hadopts.2
    exact ⟨g, hinv, fun j _ => Stable.refl table j _, fun y hy _ => hpost.stable hy⟩
  disturb cause s g hinv :=
    ⟨g, tidy_forget hinv cause.1 cause.2⟩
  within_handle q s h := by
    simp only [discipline, works, answer] at h ⊢
    omega
  within_disturb cause s h := h

theorem lostClaim_ne_exhausted (e : Entity) (kind : EntityKind) :
    lostClaim e ≠ EntityTable.exhausted kind := by
  intro h
  have hmessages : s!"{e.kind.name} '{e.name}' lost its id claim but no winner is recorded".toList =
      s!"{kind.name} id space exhausted".toList :=
    congrArg String.toList (Error.internal.inj h)
  cases hkind : e.kind <;> cases kind <;>
    simp [hkind, EntityKind.name, toString, String.toList_append] at hmessages

theorem count_of_counter {s : Metered} {g : Account} (h : Tidy table s g)
    (hattempts : s.attempts < 2 ^ 63) (kind : EntityKind) {n : Int64}
    (hcell : (s.storage.contents table).cell? (counterRow kind) counterColumn =
      some (Bytes.ofInt64 n)) : n.toInt = g.count kind := by
  have hle := h.attempted kind
  rw [h.numbered.counter kind] at hcell
  split at hcell
  · cases hcell
  · rw [← Bytes.toInt64_ofInt64 n, ← Option.some.inj hcell, Bytes.toInt64_ofInt64,
      Int64.toInt_ofNat_of_lt (by omega)]

/-- What the calls of a run have come to, and what they have left in the tables. -/
structure Agreed (table : TableId) (w : Pool interface Call Metered (Option UInt32)) :
    Prop where
  /-- Of one string all calls that return a number return the same. -/
  same : ∀ i j c c' id id', w.outcome i = some (c, .ok (some id)) →
    w.outcome j = some (c', .ok (some id')) → c.entity = c'.entity → id = id'
  /-- Two strings of one kind never share a number. -/
  distinct : ∀ i j c c' id, w.outcome i = some (c, .ok (some id)) →
    w.outcome j = some (c', .ok (some id)) → c.entity.kind = c'.entity.kind →
    c.entity = c'.entity
  inRange : ∀ i c id, w.outcome i = some (c, .ok (some id)) →
    1 ≤ id.toNat ∧ id.toNat ≤ 4294967295
  /-- Calls fail only for want of the table or because the numbers of a kind have run out. -/
  failure : ∀ i c err, w.outcome i = some (c, .error err) →
    (∃ detail, err = .storageUnavailable detail) ∨
    err = EntityTable.exhausted c.entity.kind ∧ ∃ n : Int64, 4294967295 < n.toInt ∧
      (w.state.storage.contents table).cell? (counterRow c.entity.kind) counterColumn =
        some (Bytes.ofInt64 n)
  /-- Once the numbers of a kind have run out, resolving a string without one reports so. -/
  exhaustion : ∀ T cache (e : Entity) (n : Int64), w.state.storage.Holds table T →
    T.cell? (counterRow e.kind) counterColumn = some (Bytes.ofInt64 n) →
    4294967295 ≤ n.toInt → T.cell? e.nameRow idColumn = none →
    w.state.attempts + 1 < 2 ^ 63 →
    ((⟨table, cache⟩ : EntityTable).resolve e |>.run Storage.answer w.state.storage).1 =
      .error (EntityTable.exhausted e.kind)
  /-- A string with a number is what is recorded of the number. -/
  recorded : ∀ (e : Entity) id, NumberedAs (w.state.storage.contents table) e id →
    (w.state.storage.contents table).cell? (numberRow e.kind id) nameColumn =
      some (Utf8.encode e.name)
  neverLost : ∀ i c e, w.outcome i ≠ some (c, .error (lostClaim e))

theorem resolve_exhausted {s : Metered} {g : Account} (h : Tidy table s g)
    (hattempts : s.attempts + 1 < 2 ^ 63) {T : Table} (hT : s.storage.Holds table T)
    {e : Entity} {n : Int64} (cache : Nat)
    (hcell : T.cell? (counterRow e.kind) counterColumn = some (Bytes.ofInt64 n))
    (hn : 4294967295 ≤ n.toInt) (hfree : T.cell? e.nameRow idColumn = none) :
    ((⟨table, cache⟩ : EntityTable).resolve e |>.run Storage.answer s.storage).1 =
      .error (EntityTable.exhausted e.kind) := by
  have hnumbered := h.numbered
  rw [hT.contents_eq] at hnumbered
  have hcount := count_of_counter h (by omega) e.kind (hT.contents_eq.symm ▸ hcell)
  have hattempted := h.attempted e.kind
  have hmemory : s.storage.memory cache e = none := by
    cases hmemory : s.storage.memory cache e with
    | none => rfl
    | some id =>
        have hid := h.remembered cache e id hmemory
        rw [hT.contents_eq, NumberedAs, hfree] at hid
        cases hid
  obtain ⟨found, hread, hfound⟩ :=
    EntityTable.read_run (t := ⟨table, cache⟩) hT hnumbered e
  have hnone : found = none := by
    cases found with
    | none => rfl
    | some id =>
        have hid := (hfound id).mp rfl
        rw [NumberedAs, hfree] at hid
        cases hid
  subst hnone
  simp only [EntityTable.resolve, EntityTable.readOrAllocate, bind_eq, bind_assoc]
  rw [run_bind_of_ok (run_known s.storage cache e)]
  simp only [hmemory]
  rw [run_bind_of_ok hread,
    run_bind_of_error (EntityTable.allocate_run_exhausted hT hnumbered (by omega) (by omega))]

/-- Whatever the order in which calls over one empty table take their steps, whichever
steps fail and whichever calls are given up, the calls agree. -/
theorem concurrent_calls_agree (table : TableId) (s : Storage)
    (hempty : s.contents table = .empty) (hcaches : ∀ cache e, s.memory cache e = none)
    (events : List (Pool.Event Call (Nat × Entity)))
    (hattempts : ((works table).run ⟨⟨s, 0⟩, []⟩ events).state.attempts < 2 ^ 63) :
    Agreed table ((works table).run ⟨⟨s, 0⟩, []⟩ events) := by
  obtain ⟨g, hinv, hcalls⟩ :=
    Pool.Works.run_keeps (works_keeps table) (Tidy.empty hempty hcaches) events hattempts
  generalize (works table).run ⟨⟨s, 0⟩, []⟩ events = w at hattempts hinv hcalls ⊢
  have hinv : Tidy table w.state g := hinv
  refine ⟨?_, ?_, ?_, ?_, ?_, fun e id hid => (hinv.numbered.recorded hid).2.2, ?_⟩
  · intro i j c c' id id' hi hj he
    have hid : NumberedAs _ c.entity id := hcalls i c _ hi
    have hid' : NumberedAs _ c'.entity id' := hcalls j c' _ hj
    exact hid.unique (he ▸ hid')
  · intro i j c c' id hi hj hkind
    exact hinv.numbered.injective (hcalls i c _ hi) (hcalls j c' _ hj) hkind
  · intro i c id hi
    have hlt := id.toNat_lt
    exact ⟨(hinv.numbered.recorded (hcalls i c _ hi)).1, by omega⟩
  · intro i c err hi
    rcases hcalls i c _ hi with herr | ⟨herr, hcount⟩
    · exact .inl herr
    · have hle := hinv.attempted c.entity.kind
      have hcount : 4294967295 < g.count c.entity.kind := hcount
      refine .inr ⟨herr, Int64.ofNat (g.count c.entity.kind), ?_, ?_⟩
      · rw [Int64.toInt_ofNat_of_lt (by omega)]
        omega
      · rw [hinv.numbered.counter, if_neg (by omega)]
  · intro T cache e n hT hcell hn hfree hbound
    exact resolve_exhausted hinv hbound hT cache hcell hn hfree
  · intro i c e hi
    rcases hcalls i c _ hi with ⟨detail, herr⟩ | ⟨herr, -⟩
    · cases herr
    · exact lostClaim_ne_exhausted e _ herr

/-- Two readers take turns in resolving one string, and the second one loses its claim. -/
def contest : List (Pool.Event Call (Nat × Entity)) :=
  [.begin ⟨0, ⟨.metric, "a"⟩, true⟩, .begin ⟨1, ⟨.metric, "a"⟩, true⟩] ++
    (List.replicate 10 [.proceed 0 .served, .proceed 1 .served]).flatten

theorem contest_agrees :
    let w := (works ⟨"s", "e"⟩).run ⟨⟨{}, 0⟩, []⟩ contest
    w.state.attempts = 2 ∧
      w.outcome 0 = some (⟨0, ⟨.metric, "a"⟩, true⟩, .ok (some 1)) ∧
      w.outcome 1 = some (⟨1, ⟨.metric, "a"⟩, true⟩, .ok (some 1)) ∧ Agreed ⟨"s", "e"⟩ w := by
  have hattempts : ((works ⟨"s", "e"⟩).run ⟨⟨{}, 0⟩, []⟩ contest).state.attempts = 2 := by
    decide +kernel
  refine ⟨hattempts, rfl, rfl, ?_⟩
  exact concurrent_calls_agree ⟨"s", "e"⟩ {} rfl (fun _ _ => rfl) contest
    (by rw [hattempts]; decide)

end Rollup.Numbering
