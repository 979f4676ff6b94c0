import Rollup.Proofs.Entity.Concurrent
import Rollup.Proofs.Entity.Fresh
import Rollup.Proofs.Fact.Shared

namespace Rollup

open Storage Entity Program Rollup.Numbering

/-- A state as those see it who number strings, with so many numbers given out at the
start. -/
def Logged.metered (given : Nat) (s : Logged) : Metered :=
  ⟨s.storage, given + s.log.countP fun e => raises (.table e.1 e.2)⟩

theorem Logged.countP_kept (q : Storage.Request) (outcome : Except Error q.Answer) :
    (kept q outcome).countP (fun e => raises (.table e.1 e.2)) =
      if raises q && outcome.isOk then 1 else 0 := by
  cases q with
  | known cache e => rfl
  | remember cache e number => rfl
  | table id op =>
      cases outcome with
      | error err => simp [kept, Except.isOk, Except.toBool]
      | ok a => simp [kept, Except.isOk, Except.toBool, List.countP_cons]

theorem Logged.metered_answer (given : Nat) (q : Storage.Request) (s : Logged) :
    Numbering.answer q (s.metered given) =
      ((Logged.answer q s).1, (Logged.answer q s).2.metered given) := by
  simp only [Numbering.answer, Logged.answer, metered, List.countP_append, countP_kept,
    Nat.add_assoc]
  rfl

theorem Logged.attempts_answer (given : Nat) (q : Storage.Request) (s : Logged) :
    ((Logged.answer q s).2.metered given).attempts = (s.metered given).attempts +
      if raises q && (Logged.answer q s).1.isOk then 1 else 0 :=
  (congrArg (fun r => r.2.attempts) (metered_answer given q s)).symm

def Logged.Bounded (table : TableId) (s : Logged) : Prop :=
  ∀ kind n, (s.storage.contents table).cell? (counterRow kind) counterColumn =
    some (Bytes.ofInt64 n) → n.toInt ≤ 4294967295

namespace Logged.Bounded

variable {table : TableId} {s s' : Logged}

theorem congr (h : s.Bounded table) (hcells : ∀ kind,
      (s'.storage.contents table).cell? (counterRow kind) counterColumn =
        (s.storage.contents table).cell? (counterRow kind) counterColumn) :
    s'.Bounded table := by
  intro kind n hcell
  exact h kind n (hcells kind ▸ hcell)

theorem count (h : s.Bounded table) {kind : EntityKind} {n : Int64} (hn : n.toInt ≤ 4294967295)
    (log : List (TableId × TableOp)) :
    Logged.Bounded table ⟨s.storage.update table ((s.storage.contents table).setCell
      (counterRow kind) counterColumn (some (Bytes.ofInt64 n))), log⟩ := by
  intro kind' n' hcell
  simp only [contents_update, if_true, Table.cell?_setCell] at hcell
  split at hcell
  · rwa [← FactTable.ofInt64_injective (Option.some.inj hcell)]
  · exact h kind' n' hcell

end Logged.Bounded

def total (count : EntityKind → Nat) : Nat := count .tagName + count .tagValue + count .metric

section

variable {count count' : EntityKind → Nat}

theorem le_total (count : EntityKind → Nat) (kind : EntityKind) : count kind ≤ total count := by
  cases kind <;> simp only [total] <;> omega

theorem total_mono (h : ∀ kind, count kind ≤ count' kind) : total count ≤ total count' :=
  Nat.add_le_add (Nat.add_le_add (h _) (h _)) (h _)

theorem total_lt (h : ∀ kind, count kind ≤ count' kind) {kind : EntityKind}
    (hkind : count kind < count' kind) : total count < total count' := by
  have hname := h .tagName
  have hvalue := h .tagValue
  have hmetric := h .metric
  cases kind <;> simp only [total] <;> omega

end

namespace FactTable

variable {t : FactTable} {i : Nat} {m : Metric} {k : SeriesNumbers} {series : Series}

section Numbers

variable {x : Metered × Account}

theorem safe_meanwhile {α : Type} {table : TableId} {p : Work α}
    {post : Except Error α → Metered × Account → Prop} (known : Table → Prop)
    (hknown : ∀ T T', (∀ (e : Entity) id, NumberedAs T e id → NumberedAs T' e id) →
      known T → known T')
    (h : p.Safe (discipline table) Numbering.answer fallible i post x)
    (hx : known (x.1.storage.contents table)) :
    p.Safe (discipline table) Numbering.answer fallible i
      (fun outcome y => post outcome y ∧ known (y.1.storage.contents table)) x :=
  safe_frame (R := fun y : Metered × Account => known (y.1.storage.contents table))
    (fun _ _ _ (hy : Stable table _ _ _) => hknown _ _ hy.numbers) ⟨i + 1, Nat.succ_ne_self i⟩
    h hx

theorem safe_resolveTag (t : FactTable) (tag : String × String) (x : Metered × Account) :
    (t.resolveTag tag).Safe (discipline t.entities.table) Numbering.answer fallible i
      (fun outcome y => ∀ ids, outcome = .ok ids →
        TagNumbers (y.1.storage.contents t.entities.table) tag ids) x := by
  refine safe_bind (safe_resolve t.entities _ x) (fun name y _ hname => ?_)
    fun _ _ _ _ _ => nofun
  refine safe_bind (safe_meanwhile (NumberedAs · ⟨.tagName, tag.1⟩ name)
    (fun _ _ h => h _ _) (safe_resolve t.entities _ y) hname) ?_ fun _ _ _ _ _ => nofun
  rintro value z - ⟨hvalue, hname⟩ w hw - _ ⟨⟩
  exact ⟨hw.numbers _ _ hname, hw.numbers _ _ hvalue⟩

theorem safe_resolveTags (t : FactTable) (tags : List (String × String))
    (x : Metered × Account) :
    (tags.mapM t.resolveTag).Safe (discipline t.entities.table) Numbering.answer fallible i
      (fun outcome y => ∀ ids, outcome = .ok ids →
        List.Forall₂ (TagNumbers (y.1.storage.contents t.entities.table)) tags ids) x := by
  induction tags generalizing x with
  | nil =>
      rintro y - - _ ⟨⟩
      exact .nil
  | cons tag tags ih =>
      simp only [List.mapM_cons, bind_eq, pure_eq]
      refine safe_bind (safe_resolveTag t tag x) (fun first y _ hfirst => ?_)
        fun _ _ _ _ _ => nofun
      refine safe_bind (safe_meanwhile (TagNumbers · tag first)
        (fun _ _ h => TagNumbers.mono h) (ih y) (hfirst first rfl)) ?_ fun _ _ _ _ _ => nofun
      rintro rest z - ⟨hrest, hfirst⟩ w hw - _ ⟨⟩
      exact .cons (hfirst.mono hw.numbers)
        ((hrest rest rfl).imp fun _ _ => TagNumbers.mono hw.numbers)

theorem safe_numbers (t : FactTable) (series : Series) (x : Metered × Account) :
    (t.numbers series).Safe (discipline t.entities.table) Numbering.answer fallible i
      (fun outcome y => ∀ k, outcome = .ok k →
        SeriesNumbered (y.1.storage.contents t.entities.table) series k) x := by
  refine safe_bind (safe_resolve t.entities _ x) (fun metric y _ hmetric => ?_)
    fun _ _ _ _ _ => nofun
  refine safe_bind (safe_meanwhile (NumberedAs · ⟨.metric, series.name⟩ metric)
    (fun _ _ h => h _ _) (safe_resolveTags t _ y) hmetric) ?_ fun _ _ _ _ _ => nofun
  rintro tags z - ⟨htags, hmetric⟩ w hw - _ ⟨⟩
  exact ⟨hw.numbers _ _ hmetric,
    (htags tags rfl).imp fun _ _ => TagNumbers.mono hw.numbers⟩

end Numbers

noncomputable def outset (t : FactTable) (duties : List (Nat × Change)) (s₀ : Storage)
    (count : EntityKind → Nat) : Metered × Account :=
  (⟨s₀, total count⟩, watched (s₀.contents t.entities.table) count duties.length)

/-- The writers have one set of numbers, and every value in the table is there under the
numbers of its series. Onlookers keep the numbers that were spare at the start from being
given out. -/
structure Joint (t : FactTable) (duties : List (Nat × Change)) (s₀ : Storage)
    (count : EntityKind → Nat) (s : Logged) (g : Account × List (Nat × SeriesNumbers)) :
    Prop where
  tidy : Tidy t.entities.table (s.metered (total count)) g.1
  raised : (s.metered (total count)).attempts ≤ total g.1.count
  bounded : ∀ kind, g.1.count kind ≤ 4294967295
  onlookers : ∀ j, duties.length ≤ j →
    Stable t.entities.table j (t.outset duties s₀ count) (s.metered (total count), g.1)
  traced : t.Traced duties (s₀.contents t.table) (fun _ _ => True) s g.2
  numbered : ∀ d ∈ g.2, ∀ cache m, duties[d.1]? = some (cache, .write m) →
    SeriesNumbered (s.storage.contents t.entities.table) m.series d.2

def writing (t : FactTable) (duties : List (Nat × Change)) (s₀ : Storage)
    (count : EntityKind → Nat) : Discipline Nat Logged (Account × List (Nat × SeriesNumbers)) where
  within := Logged.Bounded t.entities.table
  inv := t.Joint duties s₀ count
  rely i x y := Stable t.entities.table i (x.1.metered (total count), x.2.1)
      (y.1.metered (total count), y.2.1) ∧
    (i ∈ x.2.2.map Prod.fst ↔ i ∈ y.2.2.map Prod.fst)
  refl _ _ := ⟨Stable.refl .., Iff.rfl⟩
  trans _ _ _ _ h h' := ⟨h.1.trans h'.1, h.2.trans h'.2⟩

variable {duties : List (Nat × Change)} {s₀ : Storage} {count : EntityKind → Nat}
  {s s' : Logged} {g : Account × List (Nat × SeriesNumbers)} {g' : Account} {cache : Nat}
  {q : Storage.Request}

theorem count_le_of_bounded {b : Nat} (h : Tidy t.entities.table (s.metered b) g')
    (hattempts : (s.metered b).attempts < 2 ^ 63) (hbounded : s.Bounded t.entities.table)
    (kind : EntityKind) : g'.count kind ≤ 4294967295 := by
  have hle := h.attempted kind
  have hcounter := h.numbered.counter kind
  split at hcounter
  · omega
  · have hword := hbounded kind _ hcounter
    rw [Int64.toInt_ofNat_of_lt (by omega)] at hword
    omega

namespace Joint

theorem attempts_lt (h : t.Joint duties s₀ count s g)
    (hs' : s' = s ∨ s' = (Logged.answer q s).2) :
    (s'.metered (total count)).attempts < 2 ^ 63 := by
  have hraised := h.raised
  have htotal : total g.1.count ≤ total fun _ => 4294967295 := total_mono h.bounded
  have hmax : total (fun _ => 4294967295) = 12884901885 := rfl
  rcases hs' with rfl | rfl
  · omega
  · rw [Logged.attempts_answer]
    split <;> omega

theorem attempts_le (h : t.Joint duties s₀ count s g) (hq : (t.through cache).entities.Asks q)
    (htidy : Tidy t.entities.table ((Logged.answer q s).2.metered (total count)) g')
    (hcounts : ∀ kind, g.1.count kind ≤ g'.count kind) :
    ((Logged.answer q s).2.metered (total count)).attempts ≤ total g'.count := by
  have hlt : ((Logged.answer q s).2.metered (total count)).attempts < 2 ^ 63 :=
    h.attempts_lt (.inr rfl)
  have hraised := Nat.le_trans h.raised (total_mono hcounts)
  rw [Logged.attempts_answer]
  split
  · next hraise =>
    -- the counter has gone up, and tidiness ties the numbers given out to the counter
    obtain ⟨hraises, hok⟩ := Bool.and_eq_true_iff.mp hraise
    cases q with
    | known cache e => cases hraises
    | remember cache e number => cases hraises
    | table id op =>
        obtain ⟨hid, hop⟩ := hq
        obtain rfl : id = t.entities.table := hid
        cases hop with
        | count kind =>
            rcases Logged.answer_table s t.entities.table
              (.incrementAndGet (counterRow kind) counterColumn 1) with
              ⟨err, heq⟩ | ⟨a, T', hperform, heq⟩
            · rw [heq] at hok
              cases hok
            · have hadd := hperform.symm.trans (h.tidy.numbered.add_counter kind)
              obtain ⟨-, rfl⟩ := Prod.mk.inj (Except.ok.inj hadd)
              rw [heq] at htidy hlt
              have hgiven := count_of_counter htidy hlt kind
                (n := Int64.ofNat (g.1.count kind + 1))
                (by simp [Logged.metered, Table.cell?_setCell])
              have hle := h.bounded kind
              rw [Int64.toInt_ofNat_of_lt (by omega)] at hgiven
              have := total_lt hcounts (show g.1.count kind < g'.count kind by omega)
              have := h.raised
              omega
        | _ => cases hraises
  · exact hraised

theorem number (hne : t.entities.table ≠ t.table) (h : t.Joint duties s₀ count s g)
    (hi : i < duties.length) (hq : (t.through cache).entities.Asks q)
    (hs' : s' = s ∨ s' = (Logged.answer q s).2) (hbounded : s'.Bounded t.entities.table)
    (htidy : Tidy t.entities.table (s'.metered (total count)) g')
    (hstable : ∀ j, j ≠ i → Stable t.entities.table j (s.metered (total count), g.1)
      (s'.metered (total count), g')) : t.Joint duties s₀ count s' (g', g.2) := by
  have hlt := h.attempts_lt hs'
  have hnext := hstable (i + 1) (Nat.succ_ne_self i)
  refine ⟨htidy, ?_, count_le_of_bounded htidy hlt hbounded,
    fun j hj => (h.onlookers j hj).trans (hstable j (by omega)), ?_, ?_⟩
  · rcases hs' with rfl | rfl
    · exact Nat.le_trans h.raised (total_mono hnext.counts)
    · exact h.attempts_le hq htidy hnext.counts
  · rcases hs' with rfl | rfl
    · exact h.traced
    · refine h.traced.beside ?_
      rintro op rfl
      exact hne hq.1.symm
  · intro d hd cache m hduty
    exact (h.numbered d hd cache m hduty).mono hnext.numbers

theorem enter (hne : t.entities.table ≠ t.table) (h : t.Joint duties s₀ count s g)
    (hduty : duties[i]? = some (cache, .write m)) (hvalid : m.defect? = none)
    (hfirst : i ∉ g.2.map Prod.fst)
    (hk : SeriesNumbered (s.storage.contents t.entities.table) m.series k)
    {a : (t.entry m k).Answer} {T' : Table}
    (hperform : (s.storage.contents t.table).perform (t.entry m k) = .ok (a, T')) :
    let s' : Logged := ⟨s.storage.update t.table T', s.log ++ [(t.table, t.entry m k)]⟩
    t.Joint duties s₀ count s' (g.1, g.2 ++ [(i, k)]) ∧
      ∀ j, Stable t.entities.table j (s.metered (total count), g.1)
        (s'.metered (total count), g.1) := by
  intro s'
  have hcontents : s'.storage.contents t.entities.table =
      s.storage.contents t.entities.table := by
    simp only [s', contents_update, if_neg hne]
  have hattempts : (s'.metered (total count)).attempts = (s.metered (total count)).attempts := by
    have hraises : raises (.table t.table (t.entry m k)) = false := by
      simp only [entry]
      cases m.kind <;> rfl
    simp [s', Logged.metered, List.countP_append, hraises]
  have hstable : ∀ j, Stable t.entities.table j (s.metered (total count), g.1)
      (s'.metered (total count), g.1) := fun j => Stable.of_contents_eq hcontents j g.1
  refine ⟨⟨h.tidy.congr hcontents (fun _ _ => rfl) (Nat.le_of_eq hattempts.symm),
    hattempts ▸ h.raised, h.bounded, fun j hj => (h.onlookers j hj).trans (hstable j),
    h.traced.enter hduty hvalid hfirst hperform, ?_⟩, hstable⟩
  intro d hd cache' m' hduty'
  rw [hcontents]
  rcases List.mem_append.mp hd with hd | hd
  · exact h.numbered d hd cache' m' hduty'
  · obtain rfl := List.mem_singleton.mp hd
    cases hduty.symm.trans hduty'
    exact hk

end Joint

theorem safe_write_joint (hne : t.entities.table ≠ t.table)
    (hduty : duties[i]? = some (cache, .write m))
    {x : Logged × (Account × List (Nat × SeriesNumbers))} (hfirst : i ∉ x.2.2.map Prod.fst) :
    ((t.through cache).write m).Safe (t.writing duties s₀ count) Logged.answer fallible i
      (fun outcome y => outcome = .ok () → i ∈ y.2.2.map Prod.fst) x := by
  have hi : i < duties.length := (List.getElem?_eq_some_iff.mp hduty).1
  rw [write_eq]
  refine safe_bind (m := fun outcome y => i ∉ y.2.2.map Prod.fst ∧
    (outcome = .ok () → m.defect? = none))
    (fun y hy _ => ⟨mt hy.2.mpr hfirst, Metric.of_validate⟩) ?_ fun _ _ _ _ => nofun
  rintro ⟨⟩ y - ⟨hfirst, hvalid⟩
  -- to those who number strings the log is of no concern, nor is this task in it yet
  refine safe_bind (Safe.lift (Logged.metered (total count)) Prod.fst
    (fun g => i ∉ g.2.map Prod.fst) (safe_numbers (t.through cache) m.series _)
    ((t.through cache).numbers_only m.series) hfirst
    (Logged.metered_answer (total count)) (fun _ _ h => h.tidy)
    (fun _ _ h => ⟨h.1, mt h.2.mpr⟩) ?_) ?_ fun _ _ _ _ => nofun
  · intro q s g s' hq hinv hkeep hs' hbounded
    refine ⟨hinv.attempts_lt hs', fun g' htidy hstable => ⟨(g', g.2), rfl, ?_, hkeep,
      fun j hji => ⟨hstable j hji, Iff.rfl⟩⟩⟩
    exact hinv.number hne hi hq hs' hbounded htidy hstable
  · intro k z _ hz
    refine safe_enter (fun _ _ h => h.2.mp) fun y hy hinv a T' hperform => ?_
    obtain ⟨hnext, hstable⟩ := hinv.enter hne hduty (hvalid rfl) (mt hy.2.mpr hz.2)
      ((hz.1 k rfl).mono hy.1.numbers) hperform
    refine ⟨(y.2.1, y.2.2 ++ [(i, k)]), hnext, fun j hji => ⟨hstable j, ?_⟩, ?_⟩
    · simp [hji]
    · simp

theorem write_failsOn (t : FactTable) (m : Metric) : (t.write m).FailsOn EntityTable.Exhausts := by
  have hresolve := t.entities.resolve_failsOn
  have htag : ∀ tag, (t.resolveTag tag).FailsOn EntityTable.Exhausts := fun tag =>
    failsOn_bind (hresolve _) fun _ => failsOn_bind (hresolve _) fun _ => trivial
  rw [write_eq]
  refine failsOn_bind trivial fun _ => failsOn_bind ?_ fun k => ?_
  · exact failsOn_bind (hresolve _) fun _ => failsOn_bind (failsOn_mapM htag) fun _ => trivial
  · refine failsOn_of_only ⟨fun answer hfatal => ?_, fun _ _ => only_result _⟩
    have hraises := EntityTable.raises_of_exhausts hfatal
    simp only [entry] at hraises
    cases hkind : m.kind <;> simp [hkind, raises] at hraises

def AnyAsks (t : FactTable) (q : Storage.Request) : Prop := ∃ cache m, (t.through cache).Asks m q

theorem bounded_answer (hne : t.entities.table ≠ t.table)
    (h : s.Bounded t.entities.table) (hq : t.AnyAsks q) :
    (Logged.answer q s).2.Bounded t.entities.table ∨
      ∀ answer, (∀ a, answer = .ok a → (Logged.answer q s).1 = .ok a) →
        EntityTable.Exhausts q answer := by
  obtain ⟨cache, m, hq | ⟨k, rfl⟩⟩ := hq
  · cases q with
    | known cache e => exact .inl (h.congr fun _ => rfl)
    | remember cache e number => exact .inl (h.congr fun _ => rfl)
    | table id op =>
        obtain ⟨hid, hop⟩ := hq
        obtain rfl : id = t.entities.table := hid
        rcases Logged.answer_table s t.entities.table op with ⟨_, heq⟩ | ⟨a, T', hperform, heq⟩
        · rw [heq]
          exact .inl h
        · by_cases hcount : ∃ kind, op = .incrementAndGet (counterRow kind) counterColumn 1
          · obtain ⟨kind, rfl⟩ := hcount
            obtain ⟨-, rfl⟩ := Table.of_add_ok hperform
            by_cases hle : a.toInt ≤ 4294967295
            · rw [heq]
              exact .inl (h.count hle _)
            · refine .inr fun answer hanswer n hn => ?_
              have hsame := hanswer n hn
              rw [heq] at hsame
              cases hsame
              omega
          · rw [heq]
            refine .inl (h.congr fun kind => ?_)
            simp only [contents_update, if_true]
            exact hop.cell?_counter hperform (fun kind h => hcount ⟨kind, h⟩) kind
  · refine .inl (h.congr fun kind => ?_)
    simp only [Logged.answer]
    rw [contents_answer]
    intro op heq
    injection heq with htable
    exact hne htable.symm

theorem bounded_follow (hne : t.entities.table ≠ t.table)
    (hwrites : ∀ duty ∈ duties, ∃ m, duty.2 = .write m) {turns : List (Nat × Treatment)}
    (hstart : Logged.Bounded t.entities.table ⟨s₀, []⟩)
    (hnone : ∀ i duty e, (t.works.follow (t.works.gather ⟨s₀, []⟩ duties) turns).outcome i ≠
      some (duty, .error e)) :
    (t.works.follow (t.works.gather ⟨s₀, []⟩ duties) turns).state.Bounded t.entities.table := by
  refine Pool.Works.within_follow
    (fun p => p.Only t.AnyAsks ∧ p.FailsOn EntityTable.Exhausts) ?_ hstart ?_ hnone
  · intro i duty p hi
    obtain ⟨hduty, rfl⟩ := Pool.Works.mem_gather hi
    obtain ⟨m, hm⟩ := hwrites duty (List.mem_of_getElem? hduty)
    obtain ⟨cache, _⟩ := duty
    subst hm
    exact ⟨only_mono (fun q hq => ⟨cache, m, hq⟩) ((t.through cache).write_only m),
      (t.through cache).write_failsOn m⟩
  · rintro p s how ⟨honly, hfails⟩ hs
    cases p with
    | result outcome => exact ⟨⟨honly, hfails⟩, .inl hs⟩
    | call q resume =>
        have hserved := bounded_answer hne hs honly.1
        have hform : ∀ answer, (resume answer).Only t.AnyAsks ∧
            (resume answer).FailsOn EntityTable.Exhausts :=
          fun answer => ⟨honly.2 answer fun _ _ => trivial, (hfails answer).2⟩
        have hmet := treat_cases t.works.handle t.works.fallible q s how
        rcases hmet with hmet | ⟨_, hmet⟩ | ⟨_, hmet⟩ <;> simp only [advance, hmet]
        · exact ⟨hform _, hserved.imp_right fun h => (hfails _).1 (h _ fun _ h => h)⟩
        · exact ⟨hform _, hserved.imp_right fun h => (hfails _).1 (h _ fun _ hok => by cases hok)⟩
        · exact ⟨hform _, .inl hs⟩

theorem bounded_of_numbered {s₀ : Storage} (hn : Numbered (s₀.contents t.entities.table) count)
    (hle : ∀ kind, count kind ≤ 4294967295) : Logged.Bounded t.entities.table ⟨s₀, []⟩ := by
  intro kind n hcell
  have hcount := hle kind
  rw [hn.counter kind] at hcell
  split at hcell
  · cases hcell
  · rw [← ofInt64_injective (Option.some.inj hcell), Int64.toInt_ofNat_of_lt (by omega)]
    omega

/-- While no writer has failed, the writers agree, and each that has come back has entered
its value. -/
theorem joint_of_follow (hne : t.entities.table ≠ t.table)
    (hn : Numbered (s₀.contents t.entities.table) count)
    (hle : ∀ kind, count kind ≤ 4294967295)
    (hmemory : ∀ cache (e : Entity) id, s₀.memory cache e = some id →
      NumberedAs (s₀.contents t.entities.table) e id)
    (hwrites : ∀ duty ∈ duties, ∃ m, duty.2 = .write m) {turns : List (Nat × Treatment)}
    (hnone : ∀ i duty e, (t.works.follow (t.works.gather ⟨s₀, []⟩ duties) turns).outcome i ≠
      some (duty, .error e)) :
    let w := t.works.follow (t.works.gather ⟨s₀, []⟩ duties) turns
    ∃ g, t.Joint duties s₀ count w.state g ∧
      ∀ i duty, w.outcome i = some (duty, .ok ()) → i ∈ g.2.map Prod.fst := by
  intro w
  have hjoint : t.Joint duties s₀ count ⟨s₀, []⟩ ((t.outset duties s₀ count).2, []) :=
    ⟨tidy_watched hn (le_total count) hmemory _, Nat.le_refl _, hle,
      fun j _ => Stable.refl _ j _, Traced.start .., nofun⟩
  have hsound : t.works.Sound (t.writing duties s₀ count)
      (fun i _ outcome y => outcome = .ok () → i ∈ y.2.2.map Prod.fst)
      (t.works.gather ⟨s₀, []⟩ duties) := by
    refine Pool.Works.sound_gather hjoint fun i duty hduty => ?_
    obtain ⟨m, hm⟩ := hwrites duty (List.mem_of_getElem? hduty)
    obtain ⟨cache, _⟩ := duty
    subst hm
    exact safe_write_joint hne hduty (by simp)
  obtain ⟨g, hend, hsafe⟩ := Pool.Works.sound_follow turns hsound
    fun before after h => bounded_follow hne hwrites (bounded_of_numbered hn hle)
      (Pool.Works.not_failed_of_append after (h ▸ hnone))
  refine ⟨g, hend, fun i duty hi => ?_⟩
  exact hsafe i duty _ (Pool.outcome_eq_some_iff.mp hi) _
    ((t.writing duties s₀ count).refl i _) hend rfl

end FactTable

end Rollup
