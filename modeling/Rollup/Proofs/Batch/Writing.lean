import Mathlib.Algebra.Group.Nat.Defs
import Mathlib.Data.List.Nodup
import Rollup.Proofs.Batch.Reading

namespace Rollup

namespace Entries

open KeyOrder

variable {κ α : Type} [KeyOrder κ]

theorem find_eq_some_iff {l : List (κ × α)} (h : (l.map Prod.fst).Nodup) {k : κ} {v : α} :
    find k l = some v ↔ (k, v) ∈ l := by
  refine ⟨mem_of_find, fun hmem => ?_⟩
  induction l with
  | nil => cases hmem
  | cons e l ih =>
      obtain ⟨k', v'⟩ := e
      obtain ⟨hnot, hnodup⟩ := List.nodup_cons.mp h
      rcases List.mem_cons.mp hmem with heq | hmem
      · cases heq
        exact find_cons_self ..
      · have hkey : k ∈ l.map Prod.fst := List.mem_map_of_mem hmem
        have hne : k ≠ k' := fun heq => hnot (heq ▸ hkey)
        rw [find_cons_ne hne]
        exact ih hnodup hmem

theorem entries_ofList_perm {l : List (κ × α)} (h : (l.map Prod.fst).Nodup) :
    (SortedMap.ofList l).entries.Perm l := by
  have hkeys := nodup_keys (SortedMap.ofList l).ascending
  refine (List.perm_ext_iff_of_nodup (.of_map _ hkeys) (.of_map _ h)).mpr fun ⟨k, v⟩ => ?_
  rw [SortedMap.mem_entries, SortedMap.get?_ofList, find_eq_some_iff, List.mem_reverse]
  rw [List.map_reverse]
  exact List.nodup_reverse.mpr h

theorem entries_ofList {l : List (κ × α)} (h : Ascending l) :
    (SortedMap.ofList l).entries = l :=
  (entries_ofList_perm (nodup_keys h)).eq_of_pairwise (fun a b _ _ hab hba => by
    simp [asymm hab] at hba) (SortedMap.ofList l).ascending h

end Entries

namespace Metric

def entry (m : Metric) : Batch.Entry where
  kind := m.kind
  name := m.name
  timestamp := m.timestamp
  value := m.value
  tags := m.tags.entries

def texts (m : Metric) : List String := m.name :: m.tags.entries.flatMap fun tag => [tag.1, tag.2]

def Crowded (m : Metric) : Prop := 65535 < m.tags.size

instance (m : Metric) : Decidable m.Crowded := inferInstanceAs (Decidable (_ < _))

def ShortTexts (m : Metric) : Prop := ∀ s ∈ m.texts, (Utf8.encode s).length < 2 ^ 32

instance (m : Metric) : Decidable m.ShortTexts := inferInstanceAs (Decidable (∀ s ∈ _, _))

end Metric

namespace Batch

variable {α β ε : Type}

namespace Entry

theorem metric_entry (m : Metric) : m.entry.metric = m := by
  obtain ⟨kind, name, timestamp, value, tags⟩ := m
  simp only [metric, Metric.entry, Metric.mk.injEq, true_and]
  exact SortedMap.ext (Entries.entries_ofList tags.ascending)

theorem map_metric_entry (ms : List Metric) : (ms.map Metric.entry).map metric = ms := by
  rw [List.map_map]
  exact List.map_id'' metric_entry ms

theorem nodup_tagNames (m : Metric) : m.entry.tagNames.Nodup :=
  Entries.nodup_keys m.tags.ascending

theorem entry_metric_iff {e : Entry} : e.metric.entry = e ↔ e.Sorted := by
  constructor
  · intro h
    rw [← h]
    exact e.metric.tags.ascending
  · intro h
    obtain ⟨kind, name, timestamp, value, tags⟩ := e
    simp only [metric, Metric.entry, Entry.mk.injEq, true_and]
    exact Entries.entries_ofList h

end Entry

theorem number_iff {width n : Nat} {bytes : Bytes} :
    Number width n bytes ↔ n < Bytes.capacity width ∧ Bytes.bigEndian width n = bytes := by
  constructor
  · rintro ⟨rfl, rfl⟩
    exact ⟨Bytes.value_lt bytes, Bytes.bigEndian_value bytes⟩
  · rintro ⟨hlt, rfl⟩
    exact ⟨Bytes.length_bigEndian .., Bytes.value_bigEndian hlt⟩

theorem word_ofInt64 (n : Int64) : Word n (Bytes.ofInt64 n) :=
  number_iff.mpr ⟨n.toUInt64.toNat_lt, rfl⟩

theorem ofUInt32_ofNat {n : Nat} (h : n < Bytes.capacity 4) :
    Bytes.ofUInt32 (UInt32.ofNat n) = Bytes.bigEndian 4 n := by
  rw [Bytes.ofUInt32, UInt32.toNat_ofNat_of_lt' h]

theorem ofUInt16_ofNat {n : Nat} (h : n < Bytes.capacity 2) :
    Bytes.ofUInt16 (UInt16.ofNat n) = Bytes.bigEndian 2 n := by
  rw [Bytes.ofUInt16, UInt16.toNat_ofNat_of_lt' h]

theorem encodeText_eq_ok_iff {s : String} {bytes : Bytes} :
    encodeText s = .ok bytes ↔ Text s bytes := by
  simp only [encodeText, Text, number_iff]
  constructor
  · intro h
    split at h
    · next hlt =>
      cases h
      exact ⟨_, ⟨hlt, (ofUInt32_ofNat hlt).symm⟩, rfl⟩
    · cases h
  · rintro ⟨_, ⟨hlt, rfl⟩, rfl⟩
    rw [if_pos hlt, ofUInt32_ofNat hlt]

theorem encodeTag_eq_ok_iff {tag : String × String} {bytes : Bytes} :
    encodeTag tag = .ok bytes ↔ Tag tag bytes := by
  simp only [encodeTag, bind_eq_ok_iff, encodeText_eq_ok_iff]
  constructor
  · rintro ⟨name, hname, value, hvalue, h⟩
    cases h
    exact ⟨name, value, hname, hvalue, rfl⟩
  · rintro ⟨name, value, hname, hvalue, rfl⟩
    exact ⟨name, hname, value, hvalue, rfl⟩

theorem listed_of_mapM {write : α → Except ε Bytes} {form : Form α}
    (h : ∀ a bytes, write a = .ok bytes ↔ form a bytes) {as : List α} {bytes : Bytes} :
    (∃ parts, as.mapM write = .ok parts ∧ parts.flatten = bytes) ↔ Listed form as bytes := by
  induction as generalizing bytes with
  | nil =>
      constructor
      · rintro ⟨parts, hparts, rfl⟩
        cases hparts
        exact .nil
      · intro hlisted
        cases hlisted
        exact ⟨[], rfl, rfl⟩
  | cons a as ih =>
      simp only [List.mapM_cons, bind_eq_ok_iff]
      constructor
      · rintro ⟨_, ⟨front, hfront, parts, hparts, heq⟩, rfl⟩
        cases heq
        exact .cons ((h ..).mp hfront) (ih.mp ⟨parts, hparts, rfl⟩)
      · intro hlisted
        obtain _ | ⟨hfront, hrest⟩ := hlisted
        obtain ⟨parts, hparts, rfl⟩ := ih.mpr hrest
        exact ⟨_, ⟨_, (h ..).mpr hfront, parts, hparts, rfl⟩, rfl⟩

theorem encodeRecord_eq_ok_iff {m : Metric} {bytes : Bytes} :
    encodeRecord m = .ok bytes ↔ Record m.entry bytes := by
  simp only [encodeRecord, bind_eq_ok_iff, encodeText_eq_ok_iff]
  constructor
  · rintro ⟨name, hname, h⟩
    split at h
    · next hcount =>
      obtain ⟨tags, htags, h⟩ := bind_eq_ok_iff.mp h
      cases h
      exact .intro (word_ofInt64 _) (word_ofInt64 _) hname
        ⟨_, _, number_iff.mpr ⟨hcount, (ofUInt16_ofNat hcount).symm⟩,
          (listed_of_mapM @encodeTag_eq_ok_iff).mp ⟨tags, htags, rfl⟩, rfl⟩
        (Entry.nodup_tagNames m)
    · cases h
  · rintro ⟨htimestamp, hvalue, hname, ⟨_, rest, hcount, hlisted, rfl⟩, -⟩
    obtain rfl := exact_word.unique (word_ofInt64 _) htimestamp
    obtain rfl := exact_word.unique (word_ofInt64 _) hvalue
    obtain ⟨hlt, rfl⟩ := number_iff.mp hcount
    obtain ⟨tags, htags, rfl⟩ := (listed_of_mapM @encodeTag_eq_ok_iff).mpr hlisted
    refine ⟨_, hname, ?_⟩
    rw [if_pos (show m.tags.size < Bytes.capacity 2 from hlt), bind_eq_ok_iff]
    refine ⟨tags, htags, ?_⟩
    rw [ofUInt16_ofNat (show m.tags.size < Bytes.capacity 2 from hlt)]
    rfl

theorem encodeRecords_eq_ok_iff {ms : List Metric} {bytes : Bytes} :
    encodeRecords ms = .ok bytes ↔ Listed Record (ms.map Metric.entry) bytes := by
  rw [Listed.map_iff, ← listed_of_mapM @encodeRecord_eq_ok_iff, encodeRecords, bind_eq_ok_iff]
  constructor
  · rintro ⟨parts, hparts, h⟩
    cases h
    exact ⟨parts, hparts, rfl⟩
  · rintro ⟨parts, hparts, rfl⟩
    exact ⟨parts, hparts, rfl⟩

theorem payload_withChecksum {es : List Entry} {records : Bytes} (h : Counted 4 Record es records) :
    Payload es (withChecksum (magic ++ version :: records)) :=
  .intro h (number_iff.mpr ⟨UInt32.toNat_lt _, rfl⟩)

/-- The encoder writes the payload of the values as it lists them. -/
theorem encode_eq_ok_iff {ms : List Metric} {p : Bytes} :
    encode ms = .ok p ↔ Payload (ms.map Metric.entry) p := by
  have hlength : (ms.map Metric.entry).length = ms.length := List.length_map ..
  simp only [encode]
  constructor
  · intro h
    split at h
    · next hcount =>
      obtain ⟨records, hrecords, h⟩ := bind_eq_ok_iff.mp h
      cases h
      refine payload_withChecksum ⟨_, records, number_iff.mpr ⟨hlength ▸ hcount, ?_⟩,
        encodeRecords_eq_ok_iff.mp hrecords, rfl⟩
      rw [hlength, ofUInt32_ofNat hcount]
    · cases h
  · intro h
    obtain ⟨_, hcounted⟩ : ∃ records, Counted 4 Record (ms.map Metric.entry) records := by
      obtain ⟨hcounted, -⟩ := h
      exact ⟨_, hcounted⟩
    -- the payload is the one that the encoder would write
    obtain rfl := (payload_withChecksum hcounted).unique h
    obtain ⟨_, records, hcount, hlisted, rfl⟩ := hcounted
    obtain ⟨hlt, rfl⟩ := number_iff.mp hcount
    rw [hlength] at hlt
    rw [if_pos hlt, bind_eq_ok_iff]
    refine ⟨records, encodeRecords_eq_ok_iff.mpr hlisted, ?_⟩
    rw [ofUInt32_ofNat hlt, hlength]
    rfl

theorem decode_encode {ms : List Metric} {p : Bytes} (h : encode ms = .ok p) : decode p = .ok ms :=
  decode_eq_ok_iff.mpr ⟨_, encode_eq_ok_iff.mp h, Entry.map_metric_entry ms⟩

section Limits

variable {m : Metric} {ms : List Metric}

theorem exists_text {s : String} (h : (Utf8.encode s).length < 2 ^ 32) :
    ∃ bytes, Text s bytes :=
  ⟨_, _, number_iff.mpr ⟨h, rfl⟩, rfl⟩

theorem exists_listed {form : Form α} {as : List α} (h : ∀ a ∈ as, ∃ bytes, form a bytes) :
    ∃ bytes, Listed form as bytes := by
  induction as with
  | nil => exact ⟨[], .nil⟩
  | cons a as ih =>
      obtain ⟨⟨front, hfront⟩, h⟩ := List.forall_mem_cons.mp h
      obtain ⟨rest, hrest⟩ := ih h
      exact ⟨_, .cons hfront hrest⟩

theorem exists_tags (h : m.ShortTexts) : ∃ bytes, Listed Tag m.tags.entries bytes := by
  refine exists_listed fun tag htag => ?_
  have hmem : ∀ s ∈ [tag.1, tag.2], s ∈ m.texts := fun s hs =>
    List.mem_cons_of_mem _ (List.mem_flatMap.mpr ⟨tag, htag, hs⟩)
  obtain ⟨name, hname⟩ := exists_text (h tag.1 (hmem _ (by simp)))
  obtain ⟨value, hvalue⟩ := exists_text (h tag.2 (hmem _ (by simp)))
  exact ⟨_, name, value, hname, hvalue, rfl⟩

theorem encodeRecord_of_short (h : m.ShortTexts) :
    if m.Crowded then encodeRecord m = .error (.tooManyTags m.name)
    else ∃ bytes, encodeRecord m = .ok bytes := by
  obtain ⟨name, hname⟩ := exists_text (h m.name (List.mem_cons_self ..))
  split
  · next hmany =>
    have hnot : ¬ m.tags.size < Bytes.capacity 2 := Nat.not_lt.mpr hmany
    rw [encodeRecord, encodeText_eq_ok_iff.mpr hname]
    exact if_neg hnot
  · next hfew =>
    obtain ⟨tags, htags⟩ := exists_tags h
    have hlt : m.tags.size < Bytes.capacity 2 := Nat.lt_succ_of_le (Nat.not_lt.mp hfew)
    exact ⟨_, encodeRecord_eq_ok_iff.mpr (.intro (word_ofInt64 _) (word_ofInt64 _) hname
      ⟨_, tags, number_iff.mpr ⟨hlt, rfl⟩, htags, rfl⟩ (Entry.nodup_tagNames m))⟩

theorem mapM_of_find? (write : α → Except ε β) (p : α → Bool) (fault : α → ε) {as : List α}
    (h : ∀ a ∈ as, if p a then write a = .error (fault a) else ∃ b, write a = .ok b) :
    match as.find? p with
    | some a => as.mapM write = .error (fault a)
    | none => ∃ bs, as.mapM write = .ok bs := by
  induction as with
  | nil => exact ⟨[], rfl⟩
  | cons a as ih =>
      obtain ⟨ha, has⟩ := List.forall_mem_cons.mp h
      rw [List.find?_cons, List.mapM_cons]
      cases hp : p a with
      | true =>
          rw [hp, if_pos rfl] at ha
          simp only [ha]
          rfl
      | false =>
          obtain ⟨b, hb⟩ : ∃ b, write a = .ok b := by simpa [hp] using ha
          have hrest := ih has
          dsimp only at hrest ⊢
          split
          · next found hfound =>
            rw [hfound] at hrest
            rw [hb, show as.mapM write = .error (fault found) from hrest]
            rfl
          · next hfound =>
            rw [hfound] at hrest
            obtain ⟨bs, hbs⟩ := hrest
            refine ⟨b :: bs, ?_⟩
            rw [hb, hbs]
            rfl

theorem encode_of_short (hcount : ms.length < 2 ^ 32) (htexts : ∀ m ∈ ms, m.ShortTexts) :
    match ms.find? (·.Crowded) with
    | some m => encode ms = .error (.tooManyTags m.name)
    | none => ∃ p, encode ms = .ok p := by
  have hrecords := mapM_of_find? encodeRecord (fun m => decide m.Crowded)
    (fun m => .tooManyTags m.name) fun m hm => by
      simpa only [decide_eq_true_eq] using encodeRecord_of_short (htexts m hm)
  have hlt : ms.length < Bytes.capacity 4 := hcount
  split
  · next m hfound =>
    rw [hfound] at hrecords
    rw [encode, if_pos hlt, encodeRecords, show ms.mapM encodeRecord = _ from hrecords]
    rfl
  · next hfound =>
    rw [hfound] at hrecords
    obtain ⟨records, hrecords⟩ := hrecords
    rw [encode, if_pos hlt, encodeRecords, hrecords]
    exact ⟨_, rfl⟩

end Limits

/-- Lists of values whose number and texts fit their fields are encoded unless a value has
too many tags, and the answer then names the first such value; what is encoded is decoded. -/
theorem encode_decode (ms : List Metric) (hcount : ms.length < 2 ^ 32)
    (htexts : ∀ m ∈ ms, m.ShortTexts) :
    ((∃ p, encode ms = .ok p) ↔ ∀ m ∈ ms, m.tags.size ≤ 65535) ∧
      (∀ m, ms.find? (·.Crowded) = some m → (encode ms).mapError EncodingFault.toError =
        .error (.serialization s!"{m.name} has too many tags")) ∧
      ∀ p, encode ms = .ok p → decode p = .ok ms := by
  have hencode := encode_of_short hcount htexts
  refine ⟨?_, fun m hfound => ?_, fun p => decode_encode⟩
  · have hfew : (∀ m ∈ ms, m.tags.size ≤ 65535) ↔ ms.find? (·.Crowded) = none := by
      rw [List.find?_eq_none]
      refine forall₂_congr fun m _ => ?_
      rw [decide_eq_true_eq]
      exact Nat.not_lt.symm
    rw [hfew]
    cases hfound : ms.find? (·.Crowded) with
    | none =>
        rw [hfound] at hencode
        simpa using hencode
    | some m =>
        rw [hfound] at hencode
        simp [show encode ms = _ from hencode]
  · rw [hfound] at hencode
    rw [show encode ms = _ from hencode]
    rfl

/-- Values that the store would refuse: no name, a time before the epoch, a negative delta. -/
def oddBatch : List Metric :=
  [⟨.counter, "", -1, -5, .ofList [("ä", ""), ("", "日本")]⟩, ⟨.gauge, "g", 7, 0, .empty⟩]

theorem oddBatch_encode_decode :
    (oddBatch.length < 2 ^ 32 ∧ ∀ m ∈ oddBatch, m.ShortTexts) ∧
      ((∃ p, encode oddBatch = .ok p) ↔ ∀ m ∈ oddBatch, m.tags.size ≤ 65535) ∧
      (∀ m, oddBatch.find? (·.Crowded) = some m →
        (encode oddBatch).mapError EncodingFault.toError =
          .error (.serialization s!"{m.name} has too many tags")) ∧
      ∀ p, encode oddBatch = .ok p → decode p = .ok oddBatch := by
  have hcount : oddBatch.length < 2 ^ 32 := by decide
  have htexts : ∀ m ∈ oddBatch, m.ShortTexts := by decide +kernel
  exact ⟨⟨hcount, htexts⟩, encode_decode oddBatch hcount htexts⟩

end Batch

end Rollup
