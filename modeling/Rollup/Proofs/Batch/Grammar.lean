import Rollup.Batch.Encoder

/-!
The grammar of encoded batches. Each form is exact: it gives every thing at most one byte
string, and what follows a byte string cannot change what it stands for.
-/

namespace Rollup

namespace Batch

variable {α β : Type}

/-- Which byte strings stand for a thing. -/
abbrev Form (α : Type) := α → Bytes → Prop

/-- One byte string at most for each thing, which ends where it ends whatever follows. -/
structure Exact (form : Form α) : Prop where
  unique : ∀ {a x y}, form a x → form a y → x = y
  separates : ∀ {a b x y u v}, form a x → form b y → x ++ u = y ++ v → a = b

def Number (width : Nat) : Form Nat := fun n bytes =>
  bytes.length = width ∧ Bytes.value bytes = n

def Word : Form Int64 := fun n => Number 8 n.toUInt64.toNat

def Text : Form String := fun s bytes =>
  ∃ length, Number 4 (Utf8.encode s).length length ∧ length ++ Utf8.encode s = bytes

inductive Listed (form : Form α) : Form (List α)
  | nil : Listed form [] []
  | cons {a as front rest} : form a front → Listed form as rest →
      Listed form (a :: as) (front ++ rest)

def Counted (width : Nat) (form : Form α) : Form (List α) := fun as bytes =>
  ∃ count rest, Number width as.length count ∧ Listed form as rest ∧ count ++ rest = bytes

def Tag : Form (String × String) := fun tag bytes =>
  ∃ name value, Text tag.1 name ∧ Text tag.2 value ∧ name ++ value = bytes

/-- A value as a payload gives it: the tags stand in some order, and a name could recur. -/
structure Entry where
  kind : MetricKind
  name : String
  timestamp : Int64
  value : Int64
  tags : List (String × String)
  deriving DecidableEq, Repr

namespace Entry

def tagNames (e : Entry) : List String := e.tags.map Prod.fst

def metric (e : Entry) : Metric where
  kind := e.kind
  name := e.name
  timestamp := e.timestamp
  value := e.value
  tags := .ofList e.tags

/-- The tags stand in the order of the UTF-8 bytes of their names. -/
def Sorted (e : Entry) : Prop := Entries.Ascending e.tags

instance (e : Entry) : Decidable e.Sorted := inferInstanceAs (Decidable (List.Pairwise _ _))

end Entry

/-- A record: kind, timestamp, value, name, and tags with names that all differ. -/
inductive Record : Form Entry
  | intro {e timestamp value name tags} : Word e.timestamp timestamp → Word e.value value →
      Text e.name name → Counted 2 Tag e.tags tags → e.tagNames.Nodup →
      Record e (e.kind.code :: (timestamp ++ (value ++ (name ++ tags))))

/-- A payload: the magic bytes, the version, the records behind their number, and the
checksum of all of these. -/
inductive Payload : Form (List Entry)
  | intro {es records crc} : Counted 4 Record es records →
      Number 4 (Checksum.crc32 (magic ++ version :: records)).toNat crc →
      Payload es (magic ++ version :: records ++ crc)

theorem Exact.cancel {form : Form α} (h : Exact form) {a b : α} {x y u v : Bytes}
    (ha : form a x) (hb : form b y) (happend : x ++ u = y ++ v) : a = b ∧ x = y ∧ u = v := by
  obtain rfl := h.separates ha hb happend
  obtain rfl := h.unique ha hb
  exact ⟨rfl, rfl, List.append_cancel_left happend⟩

theorem exact_number (width : Nat) : Exact (Number width) where
  unique := by
    rintro n x y ⟨hx, rfl⟩ ⟨hy, hvalue⟩
    rw [← Bytes.bigEndian_value x, ← Bytes.bigEndian_value y, hvalue, hx, hy]
  separates := by
    rintro n k x y u v ⟨hx, rfl⟩ ⟨hy, rfl⟩ happend
    rw [(List.append_inj happend (hx.trans hy.symm)).1]

theorem exact_word : Exact Word where
  unique := (exact_number 8).unique
  separates := by
    intro n k x y u v hn hk happend
    have hword : n.toUInt64 = k.toUInt64 :=
      UInt64.toNat_inj.mp ((exact_number 8).separates hn hk happend)
    rw [← Int64.toInt64_toUInt64 n, hword, Int64.toInt64_toUInt64]

theorem exact_text : Exact Text where
  unique := by
    rintro s _ _ ⟨x, hx, rfl⟩ ⟨y, hy, rfl⟩
    rw [(exact_number 4).unique hx hy]
  separates := by
    rintro s t _ _ u v ⟨x, hx, rfl⟩ ⟨y, hy, rfl⟩ happend
    rw [List.append_assoc, List.append_assoc] at happend
    obtain ⟨hlength, -, happend⟩ := (exact_number 4).cancel hx hy happend
    exact Utf8.encode_injective _ _ (List.append_inj happend hlength).1

theorem exact_tag : Exact Tag where
  unique := by
    rintro tag _ _ ⟨x, x', hx, hx', rfl⟩ ⟨y, y', hy, hy', rfl⟩
    rw [exact_text.unique hx hy, exact_text.unique hx' hy']
  separates := by
    rintro ⟨name, value⟩ ⟨name', value'⟩ _ _ u v ⟨x, x', hx, hx', rfl⟩ ⟨y, y', hy, hy', rfl⟩
      happend
    rw [List.append_assoc, List.append_assoc] at happend
    obtain ⟨hname, -, happend⟩ := exact_text.cancel hx hy happend
    exact Prod.ext hname (exact_text.separates hx' hy' happend)

namespace Listed

variable {form : Form α} {as bs : List α} {x y u v : Bytes}

theorem unique (h : Exact form) (hx : Listed form as x) (hy : Listed form as y) : x = y := by
  induction hx generalizing y with
  | nil => cases hy; rfl
  | cons hfront _ ih =>
      obtain _ | ⟨hfront', hrest'⟩ := hy
      rw [h.unique hfront hfront', ih hrest']

theorem separates (h : Exact form) (hx : Listed form as x) (hy : Listed form bs y)
    (hlength : as.length = bs.length) (happend : x ++ u = y ++ v) : as = bs := by
  induction hx generalizing bs y with
  | nil => exact (List.length_eq_zero_iff.mp hlength.symm).symm
  | cons hfront _ ih =>
      cases hy with
      | nil => cases hlength
      | cons hfront' hrest' =>
          rw [List.append_assoc, List.append_assoc] at happend
          obtain ⟨rfl, -, happend⟩ := h.cancel hfront hfront' happend
          rw [ih hrest' (Nat.succ.inj hlength) happend]

theorem map_iff {f : β → α} {bs : List β} :
    Listed form (bs.map f) x ↔ Listed (fun b => form (f b)) bs x := by
  induction bs generalizing x with
  | nil =>
      constructor
      · rintro ⟨⟩
        exact .nil
      · rintro ⟨⟩
        exact .nil
  | cons b bs ih =>
      constructor
      · intro h
        obtain _ | ⟨hfront, hrest⟩ := h
        exact .cons hfront (ih.mp hrest)
      · intro h
        obtain _ | ⟨hfront, hrest⟩ := h
        exact .cons hfront (ih.mpr hrest)

theorem of_perm (hx : Listed form as x) (hperm : as.Perm bs) :
    ∃ y, Listed form bs y ∧ y.length = x.length := by
  induction hperm generalizing x with
  | nil => exact ⟨x, hx, rfl⟩
  | cons a _ ih =>
      obtain _ | ⟨hfront, hrest⟩ := hx
      obtain ⟨y, hy, hlength⟩ := ih hrest
      exact ⟨_, .cons hfront hy, by simp [hlength]⟩
  | swap a b _ =>
      obtain _ | ⟨hb, _ | ⟨ha, hrest⟩⟩ := hx
      exact ⟨_, .cons ha (.cons hb hrest), by simp only [List.length_append]; omega⟩
  | trans _ _ ih ih' =>
      obtain ⟨y, hy, hlength⟩ := ih hx
      obtain ⟨z, hz, hlength'⟩ := ih' hy
      exact ⟨z, hz, hlength'.trans hlength⟩

end Listed

theorem exact_counted (width : Nat) {form : Form α} (h : Exact form) :
    Exact (Counted width form) where
  unique := by
    rintro as _ _ ⟨count, x, hcount, hx, rfl⟩ ⟨count', y, hcount', hy, rfl⟩
    rw [(exact_number width).unique hcount hcount', hx.unique h hy]
  separates := by
    rintro as bs _ _ u v ⟨count, x, hcount, hx, rfl⟩ ⟨count', y, hcount', hy, rfl⟩ happend
    rw [List.append_assoc, List.append_assoc] at happend
    obtain ⟨hlength, -, happend⟩ := (exact_number width).cancel hcount hcount' happend
    exact hx.separates h hy hlength happend

theorem Counted.of_perm {width : Nat} {form : Form α} {as bs : List α} {x : Bytes}
    (hx : Counted width form as x) (hperm : as.Perm bs) :
    ∃ y, Counted width form bs y ∧ y.length = x.length := by
  obtain ⟨count, rest, hcount, hrest, rfl⟩ := hx
  obtain ⟨rest', hrest', hlength⟩ := hrest.of_perm hperm
  exact ⟨_, ⟨count, rest', hperm.length_eq ▸ hcount, hrest', rfl⟩, by simp [hlength]⟩

theorem exact_record : Exact Record where
  unique := by
    rintro e _ _ ⟨hts, hvalue, hname, htags, -⟩ ⟨hts', hvalue', hname', htags', -⟩
    rw [exact_word.unique hts hts', exact_word.unique hvalue hvalue',
      exact_text.unique hname hname', (exact_counted 2 exact_tag).unique htags htags']
  separates := by
    rintro ⟨kind, name, ts, value, tags⟩ ⟨kind', name', ts', value', tags'⟩ _ _ u v
      ⟨hts, hvalue, hname, htags, -⟩ ⟨hts', hvalue', hname', htags', -⟩ happend
    simp only [List.cons_append, List.append_assoc, List.cons.injEq] at happend
    obtain ⟨hcode, happend⟩ := happend
    obtain ⟨rfl, -, happend⟩ := exact_word.cancel hts hts' happend
    obtain ⟨rfl, -, happend⟩ := exact_word.cancel hvalue hvalue' happend
    obtain ⟨rfl, -, happend⟩ := exact_text.cancel hname hname' happend
    obtain rfl := (exact_counted 2 exact_tag).separates htags htags' happend
    have hkind : MetricKind.ofCode? kind.code = MetricKind.ofCode? kind'.code :=
      congrArg MetricKind.ofCode? hcode
    rw [MetricKind.ofCode?_code, MetricKind.ofCode?_code, Option.some.injEq] at hkind
    rw [hkind]

namespace Payload

variable {es es' : List Entry} {p q : Bytes}

theorem unique (hp : Payload es p) (hq : Payload es q) : p = q := by
  obtain ⟨hrecords, hcrc⟩ := hp
  obtain ⟨hrecords', hcrc'⟩ := hq
  obtain rfl := (exact_counted 4 exact_record).unique hrecords hrecords'
  rw [(exact_number 4).unique hcrc hcrc']

theorem unambiguous (hp : Payload es p) (hp' : Payload es' p) : es = es' := by
  obtain @⟨es, records, crc, hrecords, -⟩ := hp
  generalize hq : magic ++ version :: records ++ crc = q at hp'
  obtain ⟨hrecords', -⟩ := hp'
  rw [List.append_assoc, List.append_assoc] at hq
  exact (exact_counted 4 exact_record).separates hrecords hrecords'
    (List.cons.inj (List.append_cancel_left hq)).2

end Payload

end Batch

end Rollup
