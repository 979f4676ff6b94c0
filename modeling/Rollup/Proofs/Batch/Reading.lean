import Rollup.Batch.Decoder
import Rollup.Proofs.Batch.Grammar

namespace Rollup

namespace Batch

variable {α β ε : Type}

theorem ok_bind (a : α) (f : α → Except ε β) : Except.ok a >>= f = f a := rfl

theorem bind_eq_ok_iff {x : Except ε α} {f : α → Except ε β} {b : β} :
    x >>= f = .ok b ↔ ∃ a, x = .ok a ∧ f a = .ok b := by
  cases x with
  | error fault =>
      constructor
      · intro h
        cases h
      · rintro ⟨a, ha, -⟩
        cases ha
  | ok a =>
      constructor
      · intro h
        exact ⟨a, rfl, h⟩
      · rintro ⟨a, ha, h⟩
        cases ha
        exact h

theorem take_eq_ok_iff {n : Nat} {bytes front rest : Bytes} :
    take n bytes = .ok (front, rest) ↔ front.length = n ∧ front ++ rest = bytes := by
  rw [take]
  constructor
  · intro h
    split at h
    · next hsplit =>
      cases h
      exact Bytes.splitAt?_eq_some hsplit
    · cases h
  · rintro ⟨rfl, rfl⟩
    rw [Bytes.splitAt?_append]

theorem word_iff {n : Int64} {bytes : Bytes} :
    Word n bytes ↔ bytes.length = 8 ∧ Bytes.toInt64 bytes = n := by
  constructor
  · rintro ⟨hlength, hvalue⟩
    refine ⟨hlength, ?_⟩
    rw [Bytes.toInt64, Bytes.toUInt64, hvalue, UInt64.ofNat_toNat, Int64.toInt64_toUInt64]
  · rintro ⟨hlength, rfl⟩
    have hlt : Bytes.value bytes < UInt64.size := by
      have := Bytes.value_lt bytes
      rw [hlength] at this
      exact this
    refine ⟨hlength, ?_⟩
    rw [Bytes.toInt64, UInt64.toUInt64_toInt64, Bytes.toUInt64, UInt64.toNat_ofNat_of_lt' hlt]

theorem decodeText_eq_ok_iff {s : String} {bytes rest : Bytes} :
    decodeText bytes = .ok (s, rest) ↔ ∃ front, Text s front ∧ front ++ rest = bytes := by
  simp only [decodeText, bind_eq_ok_iff, Prod.exists, take_eq_ok_iff]
  constructor
  · rintro ⟨length, _, ⟨hlength, rfl⟩, text, _, ⟨htext, rfl⟩, h⟩
    split at h
    · next hdecode =>
      cases h
      obtain rfl := Utf8.decode_eq_ok_iff.mp hdecode
      exact ⟨_, ⟨length, ⟨hlength, htext.symm⟩, rfl⟩, List.append_assoc ..⟩
    · cases h
  · rintro ⟨_, ⟨length, ⟨hlength, hvalue⟩, rfl⟩, rfl⟩
    refine ⟨length, _, ⟨hlength, (List.append_assoc ..).symm⟩, Utf8.encode s, rest,
      ⟨hvalue.symm, rfl⟩, ?_⟩
    rw [Utf8.decode_encode]
    rfl

theorem fresh_cons_iff {name : String} (value : String) {names : List String} {tags : Tags} :
    (names.Nodup ∧ ∀ other ∈ names, (tags.insert name value).get? other = none) ∧
        tags.get? name = none ↔
      (name :: names).Nodup ∧ ∀ other ∈ name :: names, tags.get? other = none := by
  simp only [SortedMap.get?_insert, List.nodup_cons, List.forall_mem_cons]
  constructor
  · rintro ⟨⟨hnodup, hnone⟩, hname⟩
    have hne : ∀ other ∈ names, other ≠ name := by
      rintro other hother rfl
      simpa using hnone other hother
    refine ⟨⟨fun hmem => hne name hmem rfl, hnodup⟩, hname, fun other hother => ?_⟩
    simpa [hne other hother] using hnone other hother
  · rintro ⟨⟨hmem, hnodup⟩, hname, hnone⟩
    refine ⟨⟨hnodup, fun other hother => ?_⟩, hname⟩
    rw [if_neg (by rintro rfl; exact hmem hother)]
    exact hnone other hother

theorem insertAll_reverse (tags : Tags) (tag : String × String) (l : List (String × String)) :
    (tags.insert tag.1 tag.2).insertAll l.reverse = tags.insertAll (tag :: l).reverse := by
  simp [SortedMap.insertAll]

theorem decodeTags_eq_ok_iff {metric : String} {n : Nat} {tags tags' : Tags}
    {bytes rest : Bytes} :
    decodeTags metric n tags bytes = .ok (tags', rest) ↔
      ∃ l front, (l.length = n ∧ Listed Tag l front ∧ front ++ rest = bytes) ∧
        ((l.map Prod.fst).Nodup ∧ ∀ name ∈ l.map Prod.fst, tags.get? name = none) ∧
        tags.insertAll l.reverse = tags' := by
  induction n generalizing tags bytes with
  | zero =>
      simp only [decodeTags, List.length_eq_zero_iff]
      constructor
      · intro h
        cases h
        exact ⟨[], [], ⟨rfl, .nil, rfl⟩, ⟨.nil, by simp⟩, rfl⟩
      · rintro ⟨_, _, ⟨rfl, hlisted, rfl⟩, -, rfl⟩
        cases hlisted
        rfl
  | succ n ih =>
      -- the first tag joins those already read, before the rest is looked at
      simp only [decodeTags, bind_eq_ok_iff, Prod.exists, decodeText_eq_ok_iff]
      constructor
      · rintro ⟨name, _, ⟨x, hname, rfl⟩, value, _, ⟨y, hvalue, rfl⟩, h⟩
        split at h
        · cases h
        · next hnew =>
          obtain ⟨l, front, ⟨rfl, hlisted, rfl⟩, hfresh, rfl⟩ :=
            ih.mp h
          exact ⟨(name, value) :: l, (x ++ y) ++ front,
            ⟨rfl, .cons ⟨x, y, hname, hvalue, rfl⟩ hlisted, by simp only [List.append_assoc]⟩,
            (fresh_cons_iff value).mp ⟨hfresh, hnew⟩, (insertAll_reverse ..).symm⟩
      · rintro ⟨l, _, ⟨hlength, hlisted, rfl⟩, hfresh, rfl⟩
        cases hlisted with
        | nil => cases hlength
        | @cons tag l _ front htag hlisted =>
            obtain ⟨x, y, hname, hvalue, rfl⟩ := htag
            obtain ⟨hfresh, hnew⟩ := (fresh_cons_iff tag.2).mpr hfresh
            refine ⟨tag.1, y ++ (front ++ rest), ⟨x, hname, by simp only [List.append_assoc]⟩,
              tag.2, _, ⟨y, hvalue, rfl⟩, ?_⟩
            rw [hnew]
            exact ih.mpr
              ⟨l, front, ⟨Nat.succ.inj hlength, hlisted, rfl⟩, hfresh, insertAll_reverse ..⟩

theorem decodeRecord_eq_ok_iff {m : Metric} {bytes rest : Bytes} :
    decodeRecord bytes = .ok (m, rest) ↔
      ∃ e front, Record e front ∧ e.metric = m ∧ front ++ rest = bytes := by
  simp only [decodeRecord, bind_eq_ok_iff, Prod.exists, take_eq_ok_iff]
  constructor
  · rintro ⟨fixed, _, ⟨hfixed, rfl⟩, h⟩
    split at h
    · cases h
    · next kind hkind =>
      simp only [bind_eq_ok_iff, Prod.exists, take_eq_ok_iff, decodeText_eq_ok_iff,
        decodeTags_eq_ok_iff] at h
      obtain ⟨name, _, ⟨x, hname, rfl⟩, count, _, ⟨hcount, rfl⟩, tags, _, ⟨l, front,
        ⟨hlength, hlisted, rfl⟩, ⟨hnodup, -⟩, rfl⟩, h⟩ := h
      cases h
      cases fixed with
      | nil => cases hfixed
      | cons code words =>
          have hwords : words.length = 16 := Nat.succ.inj hfixed
          obtain rfl : kind.code = code := MetricKind.code_of_ofCode? hkind
          refine ⟨⟨kind, name, Bytes.toInt64 (words.take 8), Bytes.toInt64 (words.drop 8), l⟩, _,
            .intro (word_iff.mpr ⟨?_, rfl⟩) (word_iff.mpr ⟨?_, rfl⟩) hname
              ⟨count, front, ⟨hcount, hlength.symm⟩, hlisted, rfl⟩ hnodup, rfl, ?_⟩
          · rw [List.length_take, hwords]
            rfl
          · rw [List.length_drop, hwords]
          · conv =>
              rhs
              rw [← List.take_append_drop 8 words]
            simp only [List.cons_append, List.append_assoc]
  · rintro ⟨e, _, @⟨_, ts, value, name, _, hts, hvalue, hname, ⟨count, tags, ⟨hcount, hlength⟩,
      hlisted, rfl⟩, hnodup⟩, rfl, rfl⟩
    obtain ⟨hts, htimestamp⟩ := word_iff.mp hts
    obtain ⟨hvalue, hword⟩ := word_iff.mp hvalue
    refine ⟨e.kind.code :: (ts ++ value), name ++ (count ++ (tags ++ rest)), ⟨?_, ?_⟩, ?_⟩
    · simp [hts, hvalue]
    · simp only [List.cons_append, List.append_assoc]
    · have hkind : MetricKind.ofCode? ((e.kind.code :: (ts ++ value)).headD 0) = some e.kind :=
        MetricKind.ofCode?_code e.kind
      have hfirst : ((e.kind.code :: (ts ++ value)).drop 1).take 8 = ts :=
        List.take_left' hts
      have hlast : (e.kind.code :: (ts ++ value)).drop 9 = value := List.drop_left' hts
      rw [hkind, hfirst, hlast, htimestamp, hword]
      simp only [bind_eq_ok_iff, Prod.exists, take_eq_ok_iff, decodeText_eq_ok_iff,
        decodeTags_eq_ok_iff]
      exact ⟨e.name, _, ⟨name, hname, rfl⟩, count, _, ⟨hcount, rfl⟩, _, rest,
        ⟨e.tags, tags, ⟨hlength.symm, hlisted, rfl⟩, ⟨hnodup, fun _ _ => rfl⟩, rfl⟩, rfl⟩

theorem decodeRecords_eq_ok_iff {n : Nat} {ms : List Metric} {bytes rest : Bytes} :
    decodeRecords n bytes = .ok (ms, rest) ↔ ∃ es front,
      (es.length = n ∧ Listed Record es front ∧ front ++ rest = bytes) ∧
        es.map Entry.metric = ms := by
  induction n generalizing ms bytes rest with
  | zero =>
      simp only [decodeRecords, List.length_eq_zero_iff]
      constructor
      · intro h
        cases h
        exact ⟨[], [], ⟨rfl, .nil, rfl⟩, rfl⟩
      · rintro ⟨_, _, ⟨rfl, hlisted, rfl⟩, rfl⟩
        cases hlisted
        rfl
  | succ n ih =>
      simp only [decodeRecords, bind_eq_ok_iff, Prod.exists, decodeRecord_eq_ok_iff, ih]
      constructor
      · rintro ⟨_, _, ⟨e, x, hrecord, rfl, rfl⟩, _, _, ⟨es, front, ⟨rfl, hlisted, rfl⟩, rfl⟩, h⟩
        cases h
        exact ⟨e :: es, x ++ front, ⟨rfl, .cons hrecord hlisted, List.append_assoc ..⟩, rfl⟩
      · rintro ⟨es, _, ⟨hlength, hlisted, rfl⟩, rfl⟩
        cases hlisted with
        | nil => cases hlength
        | @cons e es x front hrecord hlisted =>
            exact ⟨e.metric, _, ⟨e, x, hrecord, rfl, (List.append_assoc ..).symm⟩, _, rest,
              ⟨es, front, ⟨Nat.succ.inj hlength, hlisted, rfl⟩, rfl⟩, rfl⟩

theorem decodeBody_eq_ok_iff {ms : List Metric} {body : Bytes} :
    decodeBody body = .ok ms ↔ ∃ es records, Counted 4 Record es records ∧
      magic ++ version :: records = body ∧ es.map Entry.metric = ms := by
  constructor
  · intro h
    unfold decodeBody at h
    split at h
    · next m v version' rest =>
      split at h
      · cases h
      · next hmagic =>
        split at h
        · cases h
        · next hversion =>
          simp only [bind_eq_ok_iff, Prod.exists, take_eq_ok_iff, decodeRecords_eq_ok_iff] at h
          obtain ⟨count, _, ⟨hcount, rfl⟩, _, rest, ⟨es, records, ⟨hlength, hlisted, rfl⟩, rfl⟩,
            h⟩ := h
          have hmagic : [m, v] = magic := by simpa using hmagic
          have hversion : version' = version := by simpa using hversion
          split at h
          · next hempty =>
            obtain rfl := List.isEmpty_iff.mp hempty
            cases h
            refine ⟨es, _, ⟨count, records, ⟨hcount, hlength.symm⟩, hlisted, rfl⟩, ?_, rfl⟩
            rw [← hmagic, ← hversion, List.append_nil]
            rfl
          · cases h
    · cases h
  · rintro ⟨es, _, ⟨count, records, ⟨hcount, hlength⟩, hlisted, rfl⟩, rfl, rfl⟩
    have htake : take 4 (count ++ records) = .ok (count, records) :=
      take_eq_ok_iff.mpr ⟨hcount, rfl⟩
    have hrecords : decodeRecords (Bytes.value count) records = .ok (es.map Entry.metric, []) :=
      decodeRecords_eq_ok_iff.mpr ⟨es, records, ⟨hlength.symm, hlisted, List.append_nil _⟩, rfl⟩
    change (take 4 (count ++ records) >>= fun r => _) = _
    simp only [htake]
    change (decodeRecords (Bytes.value count) records >>= fun r => _) = _
    simp only [hrecords]
    rfl

theorem number_toUInt32 {n : UInt32} {bytes : Bytes} (h : bytes.length = 4) :
    Number 4 n.toNat bytes ↔ n = Bytes.toUInt32 bytes := by
  have hlt : Bytes.value bytes < UInt32.size := by
    have := Bytes.value_lt bytes
    rw [h] at this
    exact this
  rw [Bytes.toUInt32, ← UInt32.toNat_inj, UInt32.toNat_ofNat_of_lt' hlt]
  constructor
  · rintro ⟨-, hvalue⟩
    exact hvalue.symm
  · intro hvalue
    exact ⟨h, hvalue.symm⟩

theorem decode_of_short {p : Bytes} (h : p.length < 11) : decode p = .error (.tooShort p.length) :=
  if_pos h

theorem decode_append {body crc : Bytes} (hbody : 7 ≤ body.length) (hcrc : crc.length = 4) :
    decode (body ++ crc) = if Checksum.crc32 body != Bytes.toUInt32 crc
      then .error .checksumMismatch else decodeBody body := by
  have hlength : (body ++ crc).length = body.length + 4 := by rw [List.length_append, hcrc]
  simp only [decode, hlength, List.splitAt_eq, Nat.add_sub_cancel, List.take_left, List.drop_left]
  rw [if_neg (by omega)]

/-- The decoder accepts the payloads, and answers with the values of the entries. -/
theorem decode_eq_ok_iff {ms : List Metric} {p : Bytes} :
    decode p = .ok ms ↔ ∃ es, Payload es p ∧ es.map Entry.metric = ms := by
  constructor
  · intro h
    rcases Nat.lt_or_ge p.length 11 with hshort | hlong
    · rw [decode_of_short hshort] at h
      cases h
    · rw [← List.take_append_drop (p.length - 4) p, decode_append
        (by rw [List.length_take]; omega) (by rw [List.length_drop]; omega)] at h
      split at h
      · cases h
      · next hcrc =>
        obtain ⟨es, records, hrecords, hbody, rfl⟩ := decodeBody_eq_ok_iff.mp h
        rw [← hbody] at hcrc
        rw [← List.take_append_drop (p.length - 4) p, ← hbody]
        refine ⟨es, .intro hrecords ((number_toUInt32 ?_).mpr (by simpa using hcrc)), rfl⟩
        rw [List.length_drop]
        omega
  · rintro ⟨es, @⟨es, records, crc, hrecords, hcrc⟩, rfl⟩
    have hrecords' := hrecords
    obtain ⟨count, rest, ⟨hcount, -⟩, -, rfl⟩ := hrecords
    rw [decode_append ?_ hcrc.1, if_neg, decodeBody_eq_ok_iff]
    · exact ⟨es, _, hrecords', rfl, rfl⟩
    · rw [← (number_toUInt32 hcrc.1).mp hcrc]
      simp
    · simp [magic, hcount]

end Batch

end Rollup
