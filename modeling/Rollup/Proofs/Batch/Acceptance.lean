import Rollup.Proofs.Batch.Writing

namespace Rollup

namespace Batch

/-- How reading ends early: at a check, or at a read past the end of the bytes. -/
inductive Stop where
  | refused (fault : Fault)
  | overrun (wanted available : Nat)
  deriving DecidableEq, Repr

def need (n : Nat) (bytes : Bytes) : Except Stop Unit :=
  if bytes.length < n then .error (.refused (.truncated n bytes.length)) else .ok ()

def grab (n : Nat) (bytes : Bytes) : Except Stop (Bytes × Bytes) :=
  if n ≤ bytes.length then .ok (bytes.splitAt n) else .error (.overrun n bytes.length)

def scanText (bytes : Bytes) : Except Stop (String × Bytes) := do
  need 4 bytes
  let (length, bytes) ← grab 4 bytes
  need (Bytes.value length) bytes
  let (text, rest) ← grab (Bytes.value length) bytes
  match Utf8.decode text with
  | .ok s => return (s, rest)
  | .error fault => throw (.refused (.badText fault))

def scanTags (metric : String) : Nat → Tags → Bytes → Except Stop (Tags × Bytes)
  | 0, tags, bytes => .ok (tags, bytes)
  | n + 1, tags, bytes => do
    let (name, bytes) ← scanText bytes
    let (value, bytes) ← scanText bytes
    match tags.get? name with
    | some earlier => throw (.refused (.repeatedTag metric earlier))
    | none => scanTags metric n (tags.insert name value) bytes

def scanRecord (bytes : Bytes) : Except Stop (Metric × Bytes) := do
  need 17 bytes
  let (code, bytes) ← grab 1 bytes
  match MetricKind.ofCode? (code.headD 0) with
  | none => throw (.refused (.unknownKind (code.headD 0)))
  | some kind =>
    let (timestamp, bytes) ← grab 8 bytes
    let (value, bytes) ← grab 8 bytes
    let (name, bytes) ← scanText bytes
    need 2 bytes
    let (count, bytes) ← grab 2 bytes
    let (tags, bytes) ← scanTags name (Bytes.value count) .empty bytes
    return (⟨kind, name, Bytes.toInt64 timestamp, Bytes.toInt64 value, tags⟩, bytes)

def scanRecords : Nat → Bytes → Except Stop (List Metric × Bytes)
  | 0, bytes => .ok ([], bytes)
  | n + 1, bytes => do
    let (m, bytes) ← scanRecord bytes
    let (ms, bytes) ← scanRecords n bytes
    return (m :: ms, bytes)

def scanBody (body : Bytes) : Except Stop (List Metric) := do
  let (marker, body) ← grab 2 body
  if marker != magic then throw (.refused .badMagic)
  else do
    let (version', body) ← grab 1 body
    if version'.headD 0 != version then
      throw (.refused (.unsupportedVersion (version'.headD 0)))
    else do
      let (count, records) ← grab 4 body
      let (ms, rest) ← scanRecords (Bytes.value count) records
      if rest.isEmpty then return ms else throw (.refused (.trailing rest.length))

/-- Only the length of the whole is checked before the checksum and the header are read. -/
def scan (payload : Bytes) : Except Stop (List Metric) :=
  if payload.length < 11 then .error (.refused (.tooShort payload.length))
  else do
    let (body, crc) ← grab (payload.length - 4) payload
    let (crc, _) ← grab 4 crc
    if Checksum.crc32 body != Bytes.toUInt32 crc then throw (.refused .checksumMismatch)
    else scanBody body

variable {α β : Type}

abbrev checked (x : Except Fault α) : Except Stop α := x.mapError .refused

theorem checked_bind (x : Except Fault α) (f : α → Except Fault β) :
    checked (x >>= f) = checked x >>= fun a => checked (f a) := by
  cases x <;> rfl

theorem grab_append {front : Bytes} {n : Nat} (h : front.length = n) (rest : Bytes) :
    grab n (front ++ rest) = .ok (front, rest) := by
  subst h
  rw [grab, if_pos (by simp), List.splitAt_eq, List.take_left, List.drop_left]

theorem take_of_lt {n : Nat} {bytes : Bytes} (h : bytes.length < n) :
    take n bytes = .error (.truncated n bytes.length) := by
  cases htake : take n bytes with
  | ok parts =>
      obtain ⟨hlength, happend⟩ := take_eq_ok_iff.mp htake
      rw [← happend, List.length_append] at h
      omega
  | error fault =>
      rw [take] at htake
      split at htake
      · cases htake
      · exact htake.symm

theorem take_of_le {n : Nat} {bytes : Bytes} (h : n ≤ bytes.length) :
    take n bytes = .ok (bytes.splitAt n) := by
  rw [List.splitAt_eq]
  exact take_eq_ok_iff.mpr ⟨List.length_take_of_le h, List.take_append_drop ..⟩

theorem need_grab (n : Nat) (bytes : Bytes) (f : Bytes × Bytes → Except Stop β) :
    (need n bytes >>= fun _ => grab n bytes >>= f) = checked (take n bytes) >>= f := by
  rcases Nat.lt_or_ge bytes.length n with hshort | hlong
  · rw [need, if_pos hshort, take_of_lt hshort]
    rfl
  · rw [need, if_neg (Nat.not_lt.mpr hlong), grab, if_pos hlong, take_of_le hlong]
    rfl

theorem scanText_eq (bytes : Bytes) : scanText bytes = checked (decodeText bytes) := by
  simp only [scanText, decodeText, need_grab, checked_bind]
  congr
  funext taken
  obtain ⟨length, bytes⟩ := taken
  congr
  funext taken
  obtain ⟨text, rest⟩ := taken
  dsimp only
  cases Utf8.decode text <;> rfl

theorem scanTags_eq (metric : String) (n : Nat) (tags : Tags) (bytes : Bytes) :
    scanTags metric n tags bytes = checked (decodeTags metric n tags bytes) := by
  induction n generalizing tags bytes with
  | zero => rfl
  | succ n ih =>
      simp only [scanTags, decodeTags, scanText_eq, checked_bind]
      congr
      funext taken
      obtain ⟨name, bytes⟩ := taken
      congr
      funext taken
      obtain ⟨value, bytes⟩ := taken
      dsimp only
      cases tags.get? name with
      | none => exact ih ..
      | some earlier => rfl

theorem exists_append (n : Nat) {bytes : Bytes} (h : n ≤ bytes.length) :
    ∃ front rest, front.length = n ∧ bytes = front ++ rest :=
  ⟨bytes.take n, bytes.drop n, List.length_take_of_le h, (List.take_append_drop ..).symm⟩

theorem scanRecord_eq (bytes : Bytes) : scanRecord bytes = checked (decodeRecord bytes) := by
  rcases Nat.lt_or_ge bytes.length 17 with hshort | hlong
  · rw [scanRecord, decodeRecord, need, if_pos hshort, take_of_lt hshort]
    rfl
  · -- the one check of seventeen bytes covers the reads of one, eight and eight
    obtain ⟨fixed, rest, hfixed, rfl⟩ := exists_append 17 hlong
    obtain ⟨code, words, hcode, rfl⟩ := exists_append 1 (show 1 ≤ fixed.length by omega)
    have hwords : words.length = 16 := by
      rw [List.length_append] at hfixed
      omega
    obtain ⟨timestamp, value, htimestamp, rfl⟩ := exists_append 8 (show 8 ≤ words.length by omega)
    have hvalue : value.length = 8 := by
      rw [List.length_append] at hwords
      omega
    obtain ⟨code, rfl⟩ := List.length_eq_one_iff.mp hcode
    have hneed : need 17 ([code] ++ (timestamp ++ value) ++ rest) = .ok () :=
      if_neg (Nat.not_lt.mpr hlong)
    have htake : take 17 ([code] ++ (timestamp ++ value) ++ rest) =
        .ok ([code] ++ (timestamp ++ value), rest) := take_eq_ok_iff.mpr ⟨hfixed, rfl⟩
    have hfirst : (([code] ++ (timestamp ++ value)).drop 1).take 8 = timestamp :=
      List.take_left' htimestamp
    have hlast : ([code] ++ (timestamp ++ value)).drop 9 = value := List.drop_left' htimestamp
    rw [scanRecord, decodeRecord, hneed, htake]
    have hcode' : ([code] ++ (timestamp ++ value)).headD 0 = [code].headD 0 := rfl
    simp only [List.append_assoc, grab_append hcode, ok_bind, hfirst, hlast, hcode']
    cases MetricKind.ofCode? ([code].headD 0) with
    | none => rfl
    | some kind =>
        simp only [grab_append htimestamp, grab_append hvalue, ok_bind, scanText_eq, need_grab,
          scanTags_eq, checked_bind]
        rfl

theorem scanRecords_eq (n : Nat) (bytes : Bytes) :
    scanRecords n bytes = checked (decodeRecords n bytes) := by
  induction n generalizing bytes with
  | zero => rfl
  | succ n ih =>
      simp only [scanRecords, decodeRecords, scanRecord_eq, ih, checked_bind]
      rfl

theorem scanBody_eq {body : Bytes} (h : 7 ≤ body.length) :
    scanBody body = checked (decodeBody body) := by
  match body, h with
  | m :: v :: version' :: rest, h =>
      have hmarker : grab 2 (m :: v :: version' :: rest) = .ok ([m, v], version' :: rest) :=
        grab_append (show [m, v].length = 2 from rfl) _
      have hversion : grab 1 (version' :: rest) = .ok ([version'], rest) :=
        grab_append (show [version'].length = 1 from rfl) _
      have hcount : grab 4 rest = checked (take 4 rest) := by
        have hlong : 4 ≤ rest.length := by simpa using h
        rw [grab, if_pos hlong, take_of_le hlong]
        rfl
      simp only [scanBody, decodeBody, hmarker, hversion, hcount, ok_bind, scanRecords_eq,
        List.headD_cons]
      split
      · rfl
      · split
        · rfl
        · rw [checked_bind]
          congr
          funext taken
          obtain ⟨count, records⟩ := taken
          rw [checked_bind]
          congr
          funext taken
          obtain ⟨ms, rest⟩ := taken
          dsimp only
          split <;> rfl

theorem scan_eq (p : Bytes) : scan p = checked (decode p) := by
  rcases Nat.lt_or_ge p.length 11 with hshort | hlong
  · rw [decode_of_short hshort, scan, if_pos hshort]
    rfl
  · obtain ⟨body, crc, hbody, rfl⟩ := exists_append (p.length - 4) (Nat.sub_le ..)
    have hcrc : crc.length = 4 := by
      rw [List.length_append] at hbody hlong
      omega
    have hlength : 7 ≤ body.length := by
      rw [List.length_append] at hlong
      omega
    have hwhole : grab 4 crc = .ok (crc, []) := by
      simpa using grab_append hcrc []
    rw [decode_append hlength hcrc, scan, if_neg (Nat.not_lt.mpr hlong), ← hbody]
    simp only [grab_append rfl, hwhole, ok_bind, scanBody_eq hlength]
    split <;> rfl

theorem Record.canonical {e : Entry} {x : Bytes} (h : Record e x) :
    ∃ y, Record e.metric.entry y ∧ y.length = x.length := by
  obtain ⟨htimestamp, hvalue, hname, htags, hnodup⟩ := h
  obtain ⟨tags, htags, hlength⟩ := htags.of_perm (Entries.entries_ofList_perm hnodup).symm
  exact ⟨_, .intro htimestamp hvalue hname htags (Entry.nodup_tagNames e.metric), by simp [hlength]⟩

theorem Listed.canonical {es : List Entry} {x : Bytes} (h : Listed Record es x) :
    ∃ y, Listed Record ((es.map Entry.metric).map Metric.entry) y ∧ y.length = x.length := by
  induction h with
  | nil => exact ⟨[], .nil, rfl⟩
  | cons hfront _ ih =>
      obtain ⟨front, hfront, hlength⟩ := hfront.canonical
      obtain ⟨rest, hrest, hlength'⟩ := ih
      exact ⟨_, .cons hfront hrest, by simp [hlength, hlength']⟩

theorem Payload.canonical {es : List Entry} {p : Bytes} (h : Payload es p) :
    ∃ q, Payload ((es.map Entry.metric).map Metric.entry) q ∧ q.length = p.length := by
  obtain ⟨⟨count, records, hcount, hlisted, rfl⟩, hcrc⟩ := h
  obtain ⟨records', hlisted, hlength⟩ := hlisted.canonical
  refine ⟨_, payload_withChecksum ⟨count, records', ?_, hlisted, rfl⟩, ?_⟩
  · simpa using hcount
  · simp [withChecksum, hcrc.1, hlength]

theorem Payload.eq_iff_sorted {es : List Entry} {p q : Bytes} (h : Payload es p)
    (hq : Payload ((es.map Entry.metric).map Metric.entry) q) :
    q = p ↔ ∀ e ∈ es, e.Sorted := by
  have hsorted : (es.map Entry.metric).map Metric.entry = es ↔ ∀ e ∈ es, e.Sorted := by
    have hmap : es.map (fun e => e.metric.entry) = es.map id ↔ ∀ e ∈ es, e.metric.entry = e :=
      List.map_inj_left
    rw [List.map_id] at hmap
    rw [List.map_map]
    exact hmap.trans (forall₂_congr fun e _ => Entry.entry_metric_iff)
  rw [← hsorted]
  constructor
  · rintro rfl
    exact hq.unambiguous h
  · intro heq
    rw [heq] at hq
    exact hq.unique h

/-- The decoder accepts the grammar and nothing else. It reads no byte that is not there
(`scan` is `decode` with such reads as an outcome), and refuses what is not a payload as
undecodable. The values of a payload are encoded in as many bytes and decoded again, and the
encoding is the payload itself when all its entries are sorted. -/
theorem decode_accepts_grammar (p : Bytes) :
    scan p = (decode p).mapError .refused ∧
      (∀ ms, decode p = .ok ms ↔ ∃ es, Payload es p ∧ es.map Entry.metric = ms) ∧
      ((¬ ∃ es, Payload es p) →
        ∃ message, (decode p).mapError Fault.toError = .error (.decode message)) ∧
      ∀ es, Payload es p → ∃ q, encode (es.map Entry.metric) = .ok q ∧ q.length = p.length ∧
        decode q = .ok (es.map Entry.metric) ∧ (q = p ↔ ∀ e ∈ es, e.Sorted) := by
  refine ⟨scan_eq p, fun ms => decode_eq_ok_iff, fun hnot => ?_, fun es h => ?_⟩
  · cases hdecode : decode p with
    | error fault => exact ⟨fault.message, rfl⟩
    | ok ms =>
        obtain ⟨es, hpayload, -⟩ := decode_eq_ok_iff.mp hdecode
        exact absurd ⟨es, hpayload⟩ hnot
  · obtain ⟨q, hq, hlength⟩ := h.canonical
    have hencode : encode (es.map Entry.metric) = .ok q := encode_eq_ok_iff.mpr hq
    exact ⟨q, hencode, hlength, decode_encode hencode, h.eq_iff_sorted hq⟩

def taggedBatch : List Metric :=
  [⟨.counter, "c", 50, 1, .ofList [("a", "x"), ("b", "y")]⟩, ⟨.gauge, "g", 50, -1, .empty⟩]

def taggedPayload : Bytes :=
  [0x4D, 0x56, 1, 0, 0, 0, 2] ++
    (0 :: [0, 0, 0, 0, 0, 0, 0, 50] ++ [0, 0, 0, 0, 0, 0, 0, 1] ++ [0, 0, 0, 1, 0x63] ++ [0, 2] ++
      [0, 0, 0, 1, 0x61] ++ [0, 0, 0, 1, 0x78] ++ [0, 0, 0, 1, 0x62] ++ [0, 0, 0, 1, 0x79]) ++
    (1 :: [0, 0, 0, 0, 0, 0, 0, 50] ++ List.replicate 8 0xFF ++ [0, 0, 0, 1, 0x67] ++ [0, 0]) ++
    [0x12, 0x77, 0xF3, 0x37]

set_option maxRecDepth 4000 in
/-- The last four bytes are what the standard gives for the others. With one bit turned over
they are not. -/
example : decode taggedPayload = .ok taggedBatch ∧ encode taggedBatch = .ok taggedPayload ∧
    decode (taggedPayload.set 23 0) = .error .checksumMismatch := by
  decide +kernel

/-- Two tags in the order `b`, `a` are read; the encoder writes them the other way round. -/
example :
    let tag (c : UInt8) : Bytes := [0, 0, 0, 1, c, 0, 0, 0, 0]
    let payload (tags : Bytes) := withChecksum (magic ++ version :: ([0, 0, 0, 1] ++
      (1 :: List.replicate 16 0 ++ [0, 0, 0, 0, 0, 2] ++ tags)))
    let m : Metric := ⟨.gauge, "", 0, 0, .ofList [("b", ""), ("a", "")]⟩
    decode (payload (tag 0x62 ++ tag 0x61)) = .ok [m] ∧
      encode [m] = .ok (payload (tag 0x61 ++ tag 0x62)) := by
  decide +kernel

end Batch

end Rollup
