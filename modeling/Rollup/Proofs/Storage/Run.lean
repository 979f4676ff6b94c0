import Rollup.Storage

namespace Rollup

namespace Program

variable {I : Interface} {α β γ σ : Type} {handle : Handler I σ} {p : Program I α}
  {f : α → Program I β} {s s' : σ}

theorem run_bind_of_ok {a : α} (h : p.run handle s = (.ok a, s')) :
    (p.bind f).run handle s = (f a).run handle s' := by
  rw [run_bind, h]

theorem run_bind_of_error {e : Error} (h : p.run handle s = (.error e, s')) :
    (p.bind f).run handle s = (.error e, s') := by
  rw [run_bind, h]

theorem run_bind_ok {b : β} (h : (p.bind f).run handle s = (.ok b, s')) :
    ∃ a s₁, p.run handle s = (.ok a, s₁) ∧ (f a).run handle s₁ = (.ok b, s') := by
  rw [run_bind] at h
  split at h
  · next a s₁ hp => exact ⟨a, s₁, hp, h⟩
  · cases h

theorem length_of_mapM_run {g : γ → Program I β} {l : List γ} {bs : List β}
    (h : (l.mapM g).run handle s = (.ok bs, s')) : bs.length = l.length := by
  induction l generalizing s bs with
  | nil =>
      cases h
      rfl
  | cons a l ih =>
      simp only [List.mapM_cons, bind_eq, pure_eq] at h
      obtain ⟨b, s₁, -, h⟩ := run_bind_ok h
      obtain ⟨bs', s₂, hrest, h⟩ := run_bind_ok h
      cases h
      rw [List.length_cons, List.length_cons, ih hrest]

theorem run_bind_pure (p : Program I α) (f : α → β) (s : σ) :
    ((p.bind fun a => .result (.ok (f a))).run handle s).2 = (p.run handle s).2 := by
  rw [run_bind]
  split
  · next hrun =>
    rw [hrun]
    rfl
  · next hrun => rw [hrun]

theorem run_of_isOk {p : Program I Unit} (h : (p.run handle s).1.isOk = true) :
    p.run handle s = (.ok (), (p.run handle s).2) := by
  cases hrun : p.run handle s with
  | mk outcome s' =>
      cases outcome with
      | ok _ => rfl
      | error e => simp [hrun, Except.isOk, Except.toBool] at h

end Program

namespace Catalog

theorem find?_put (c : Catalog) (id id' : TableId) (stored : StoredTable) :
    (c.put id stored).find? id' = if id' = id then some stored else c.find? id' :=
  SortedMap.get?_insert ..

theorem put_self {c : Catalog} {id : TableId} {stored : StoredTable}
    (h : c.find? id = some stored) : c.put id stored = c := by
  have htables : c.tables.insert id stored = c.tables := by
    refine SortedMap.ext_get? fun id' => ?_
    rw [SortedMap.get?_insert]
    split
    · next heq => rw [heq]; exact h.symm
    · rfl
  simp only [put, htables]

end Catalog

namespace Storage

variable {s : Storage} {id id' : TableId} {T T' : Table} {cache cache' : Nat} {e e' : Entity}
  {row column value : Bytes} {range : KeyRange}

def contents (s : Storage) (id : TableId) : Table := (s.catalog.table id).contents

def update (s : Storage) (id : TableId) (T : Table) : Storage :=
  { s with catalog := s.catalog.put id { s.catalog.table id with contents := T } }

def noted (s : Storage) (cache : Nat) (e : Entity) (number : UInt32) : Storage :=
  { s with
    caches := s.caches.insert cache (((s.caches.get? cache).getD .empty).insert e number) }

def forgotten (s : Storage) (cache : Nat) (e : Entity) : Storage :=
  { s with caches := s.caches.alter cache fun numbers => numbers.map (·.erase e) }

@[simp] theorem contents_update (s : Storage) (id : TableId) (T : Table) (id' : TableId) :
    (s.update id T).contents id' = if id' = id then T else s.contents id' := by
  simp only [contents, update, Catalog.table_put]
  split <;> rfl

theorem find?_update (h : id' ≠ id) :
    (s.update id T).catalog.find? id' = s.catalog.find? id' := by
  rw [update, Catalog.find?_put, if_neg h]

@[simp] theorem contents_noted (s : Storage) (cache : Nat) (e : Entity) (number : UInt32)
    (id : TableId) : (s.noted cache e number).contents id = s.contents id := rfl

theorem memory_noted (s : Storage) (cache : Nat) (e : Entity) (number : UInt32)
    (cache' : Nat) (e' : Entity) :
    (s.noted cache e number).memory cache' e' =
      if cache' = cache ∧ e' = e then some number else s.memory cache' e' := by
  simp only [memory, noted, SortedMap.get?_insert]
  by_cases hcache : cache' = cache
  · subst hcache
    by_cases he : e' = e
    · simp [he, SortedMap.get?_insert]
    · cases hget : s.caches.get? cache' <;> simp [he, SortedMap.get?_insert]
  · simp [hcache]

theorem memory_of_forgotten {number : UInt32}
    (h : (s.forgotten cache e).memory cache' e' = some number) :
    s.memory cache' e' = some number := by
  simp only [forgotten, memory, SortedMap.get?_alter] at h ⊢
  split at h
  · next hcache =>
    subst hcache
    cases hnumbers : s.caches.get? cache' with
    | none => simp [hnumbers] at h
    | some numbers =>
        simp only [hnumbers, Option.map_some, Option.bind_some, SortedMap.get?_erase] at h ⊢
        split at h
        · cases h
        · exact h
  · exact h

def fallible : Request → Bool
  | .table .. => true
  | _ => false

theorem answer_table (s : Storage) (id : TableId) (op : TableOp) :
    (∃ err, answer (.table id op) s = (.error err, s)) ∨
    ∃ a T, (s.contents id).perform op = .ok (a, T) ∧
      answer (.table id op) s = (.ok a, s.update id T) := by
  simp only [answer, Catalog.perform, contents]
  split
  · split
    · next a T hperform => exact .inr ⟨a, T, hperform, rfl⟩
    · next err _ => exact .inl ⟨err, rfl⟩
  · exact .inl ⟨_, rfl⟩

theorem answer_of_perform {op : TableOp} {a : op.Answer}
    (h : (s.contents id).perform op = .ok (a, T)) :
    answer (.table id op) s = (.ok a, s.update id T) ∨
    ∃ detail, answer (.table id op) s = (.error (.storageUnavailable detail), s) := by
  simp only [contents] at h
  simp only [answer, Catalog.perform, h]
  split
  · exact .inl rfl
  · exact .inr ⟨_, rfl⟩

theorem answer_table_congr {s' : Storage} (h : s.catalog.find? id = s'.catalog.find? id)
    (op : TableOp) : (answer (.table id op) s).1 = (answer (.table id op) s').1 ∧
      (answer (.table id op) s).2.catalog.find? id =
        (answer (.table id op) s').2.catalog.find? id := by
  have htable : s.catalog.table id = s'.catalog.table id := by
    rw [Catalog.table, h, Catalog.table]
  simp only [answer, Catalog.perform, htable]
  split
  · split
    · simp only [Catalog.find?_put, if_true, and_self]
    · exact ⟨rfl, h⟩
  · exact ⟨rfl, h⟩

@[simp] theorem run_known (s : Storage) (cache : Nat) (e : Entity) :
    (known cache e).run answer s = (.ok (s.memory cache e), s) := rfl

/-- A table is there, in reach, and has the given contents. -/
def Holds (s : Storage) (id : TableId) (T : Table) : Prop :=
  ∃ properties, s.catalog.find? id = some ⟨properties, T, true⟩

theorem Holds.contents_eq (h : s.Holds id T) : s.contents id = T := by
  obtain ⟨properties, h⟩ := h
  simp [contents, Catalog.table, h]

theorem Holds.update_self (h : s.Holds id T) (T' : Table) : (s.update id T').Holds id T' := by
  obtain ⟨properties, h⟩ := h
  exact ⟨properties, by simp [update, Catalog.find?_put, Catalog.table, h]⟩

theorem holds_update_ne (h : id' ≠ id) : (s.update id T').Holds id' T ↔ s.Holds id' T := by
  simp only [Holds, update, Catalog.find?_put, if_neg h]

theorem Holds.update_eq (h : s.Holds id T) : s.update id T = s := by
  obtain ⟨properties, h⟩ := h
  have hput : s.catalog.put id { s.catalog.table id with contents := T } = s.catalog :=
    Catalog.put_self (by simp [Catalog.table, h])
  simp only [update, hput]

theorem update_update (s : Storage) (id : TableId) (T T' : Table) :
    (s.update id T).update id T' = s.update id T' := by
  have hput : ∀ stored stored' : StoredTable,
      (s.catalog.put id stored).put id stored' = s.catalog.put id stored' := by
    intro stored stored'
    simp only [Catalog.put, Catalog.mk.injEq, and_true]
    refine SortedMap.ext_get? fun id' => ?_
    rw [SortedMap.get?_insert, SortedMap.get?_insert, SortedMap.get?_insert]
    split <;> rfl
  simp only [update, Catalog.table_put, if_true, hput]

def Blank (s : Storage) (id : TableId) : Bool :=
  (s.catalog.find? id).any fun stored => stored.available && stored.contents.rows.isEmpty

theorem holds_of_blank (h : s.Blank id = true) : s.Holds id .empty := by
  rw [Blank, Option.any_eq_true] at h
  obtain ⟨⟨properties, T, available⟩, hfind, hblank⟩ := h
  simp only [Bool.and_eq_true] at hblank
  obtain ⟨rfl, hempty⟩ := hblank
  have hrows : T.rows = .empty := SortedMap.isEmpty_iff.mp hempty
  obtain rfl : T = .empty := by
    cases T
    cases hrows
    rfl
  exact ⟨properties, hfind⟩

theorem contents_answer {q : Request} (hq : ∀ op, q ≠ .table id op) (s : Storage) :
    (answer q s).2.contents id = s.contents id := by
  cases q with
  | known cache e => rfl
  | remember cache e number => rfl
  | table id' op =>
      have hid : id ≠ id' := fun heq => hq op (by rw [heq])
      rcases answer_table s id' op with ⟨_, heq⟩ | ⟨a, T', _, heq⟩ <;> rw [heq]
      rw [contents_update, if_neg hid]

theorem find?_answer {q : Request} (h : ∀ id' op, q = .table id' op → id ≠ id') :
    (answer q s).2.catalog.find? id = s.catalog.find? id := by
  cases q with
  | known cache e => rfl
  | remember cache e number => rfl
  | table id' op =>
      rcases answer_table s id' op with ⟨_, heq⟩ | ⟨a, T, -, heq⟩ <;> rw [heq]
      exact find?_update (h id' op rfl)

theorem holds_answer {q : Request} (hq : ∀ op, q ≠ .table id op) (h : s.Holds id T) :
    (answer q s).2.Holds id T := by
  cases q with
  | known cache e => exact h
  | remember cache e number => exact h
  | table id' op =>
      have hid : id ≠ id' := fun heq => hq op (by rw [heq])
      rcases answer_table s id' op with ⟨_, heq⟩ | ⟨a, T', _, heq⟩ <;> rw [heq]
      · exact h
      · exact (holds_update_ne hid).mpr h

theorem exists_holds_answer (q : Request) (h : ∃ T, s.Holds id T) :
    ∃ T, (answer q s).2.Holds id T := by
  obtain ⟨T, h⟩ := h
  by_cases hq : ∃ op, q = .table id op
  · obtain ⟨op, rfl⟩ := hq
    rcases answer_table s id op with ⟨_, heq⟩ | ⟨a, T', _, heq⟩ <;> rw [heq]
    · exact ⟨T, h⟩
    · exact ⟨T', h.update_self T'⟩
  · exact ⟨T, holds_answer (fun op heq => hq ⟨op, heq⟩) h⟩

theorem run_perform (op : TableOp) (h : s.Holds id T) {a : op.Answer}
    (hperform : T.perform op = .ok (a, T')) :
    (perform id op).run answer s = (.ok a, s.update id T') := by
  have hcontents := h.contents_eq
  obtain ⟨properties, h⟩ := h
  simp only [contents] at hcontents
  simp only [perform, Program.request, Program.run_call, Program.run_result, answer,
    Catalog.perform, hcontents, hperform]
  simp [Catalog.table, h, update]

theorem run_get (h : s.Holds id T) (row column : Bytes) :
    (get id row column).run answer s = (.ok (T.cell? row column), s) := by
  have := run_perform (.get row column) h rfl
  rwa [h.update_eq] at this

theorem run_scan (h : s.Holds id T) (range : KeyRange) :
    (scan id range).run answer s = (.ok (T.scan range), s) := by
  have := run_perform (.scan range) h rfl
  rwa [h.update_eq] at this

theorem run_put (h : s.Holds id T) (row column value : Bytes) :
    (put id row column value).run answer s =
      (.ok (), s.update id (T.setCell row column (some value))) :=
  run_perform (.put row column value) h rfl

theorem run_swap (h : s.Holds id T) {row column : Bytes} {expected new : Option Bytes}
    (hexpected : T.cell? row column = expected) :
    (swap id row column expected new).run answer s =
      (.ok true, s.update id (T.setCell row column new)) :=
  run_perform (.swap row column expected new) h (by simp [Table.perform, hexpected])

theorem run_delete (h : s.Holds id T) (row : Bytes) (columns : List Bytes) :
    (delete id row columns).run answer s = (.ok (), s.update id (T.clear row columns)) :=
  run_perform (.delete row columns) h rfl

theorem run_deleteRange (h : s.Holds id T) (range : KeyRange) :
    (deleteRange id range).run answer s =
      (.ok (T.scan range).length, s.update id (T.eraseRange range)) :=
  run_perform (.deleteRange range) h rfl

theorem run_increment (h : s.Holds id T) {row column : Bytes} {delta updated : Int64}
    (hadd : T.add row column delta = .ok (updated, T')) :
    (increment id row column delta).run answer s = (.ok (), s.update id T') :=
  run_perform (.increment row column delta) h (by simp [Table.perform, hadd, Except.map])

theorem run_incrementAndGet (h : s.Holds id T) {row column : Bytes} {delta updated : Int64}
    (hadd : T.add row column delta = .ok (updated, T')) :
    (incrementAndGet id row column delta).run answer s = (.ok updated, s.update id T') :=
  run_perform (.incrementAndGet row column delta) h hadd

end Storage

end Rollup
