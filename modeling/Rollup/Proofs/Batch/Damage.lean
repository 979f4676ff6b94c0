import Rollup.Proofs.Batch.Acceptance
import Rollup.Proofs.Checksum

namespace Rollup

namespace Batch

variable {ms ms' : List Metric} {p q body body' : Bytes}

/-- The payload is refused as undecodable. -/
def Refused (p : Bytes) : Prop :=
  ∃ message, (decode p).mapError Fault.toError = .error (.decode message)

theorem refused_of_error {fault : Fault} (h : decode p = .error fault) : Refused p :=
  ⟨fault.message, by rw [h]; rfl⟩

theorem refused_iff : Refused p ↔ ∀ ms, decode p ≠ .ok ms := by
  constructor
  · rintro ⟨message, h⟩ ms hms
    rw [hms] at h
    cases h
  · intro h
    cases hdecode : decode p with
    | ok ms => exact absurd hdecode (h ms)
    | error fault => exact refused_of_error hdecode

theorem exists_body_of_decode (h : decode p = .ok ms) :
    ∃ body crc, 7 ≤ body.length ∧ crc.length = 4 ∧ p = body ++ crc ∧
      decodeBody body = .ok ms ∧ Checksum.crc32 body = Bytes.toUInt32 crc := by
  obtain ⟨es, @⟨es, records, crc, hrecords, hcrc⟩, hms⟩ := decode_eq_ok_iff.mp h
  have hbody : 7 ≤ (magic ++ version :: records).length := by
    obtain ⟨count, rest, ⟨hcount, -⟩, -, rfl⟩ := hrecords
    simp [magic, hcount]
  exact ⟨magic ++ version :: records, crc, hbody, hcrc.1, rfl,
    decodeBody_eq_ok_iff.mpr ⟨es, records, hrecords, rfl, hms⟩,
    (number_toUInt32 hcrc.1).mp hcrc⟩

/-- The records end where they end: of two bodies that are read neither begins the other. -/
theorem eq_of_decodeBody_of_begins (h : decodeBody body = .ok ms)
    (h' : decodeBody body' = .ok ms') (hbegins : body <+: body') : body = body' := by
  obtain ⟨es, records, hrecords, rfl, -⟩ := decodeBody_eq_ok_iff.mp h
  obtain ⟨es', records', hrecords', rfl, -⟩ := decodeBody_eq_ok_iff.mp h'
  obtain ⟨rest, happend⟩ := hbegins
  rw [List.append_assoc] at happend
  have hrest : records ++ rest = records' ++ [] := by
    rw [List.append_nil]
    exact (List.cons.inj (List.append_cancel_left happend)).2
  rw [((exact_counted 4 exact_record).cancel hrecords hrecords' hrest).2.1]

theorem eq_of_decodeBody_of_comparable (h : decodeBody body = .ok ms)
    (h' : decodeBody body' = .ok ms') (hcomparable : body <+: body' ∨ body' <+: body) :
    body = body' :=
  hcomparable.elim (eq_of_decodeBody_of_begins h h') fun hbegins =>
    (eq_of_decodeBody_of_begins h' h hbegins).symm

theorem comparable_of_append {α : Type} {x y u v : List α}
    (h : x ++ u <+: y ++ v ∨ y ++ v <+: x ++ u) : x <+: y ∨ y <+: x := by
  rcases h with h | h
  · exact List.prefix_or_prefix_of_prefix ((List.prefix_append x u).trans h)
      (List.prefix_append y v)
  · exact List.prefix_or_prefix_of_prefix (List.prefix_append x u)
      ((List.prefix_append y v).trans h)

theorem eq_of_comparable {α : Type} {x y : List α} (hlength : x.length = y.length)
    (h : x <+: y ∨ y <+: x) : x = y :=
  h.elim (·.eq_of_length hlength) fun h => (h.eq_of_length hlength.symm).symm

/-- No payload begins another one. What an accepted or encoded payload is cut to, or extended
to, is refused. All of it but the last four bytes is no body either, so no checksum in their
place could make it acceptable. -/
theorem prefix_free (hp : decode p = .ok ms ∨ encode ms = .ok p) (hne : q ≠ p)
    (hcomparable : q <+: p ∨ p <+: q) :
    Refused q ∧ ∀ body crc, crc.length = 4 → q = body ++ crc →
      ∃ fault, decodeBody body = .error fault := by
  obtain ⟨body, crc, -, hcrc, rfl, hbody, -⟩ :=
    exists_body_of_decode (hp.elim id decode_encode)
  have hframed : ∀ body' crc' ms', crc'.length = 4 → q = body' ++ crc' →
      decodeBody body' ≠ .ok ms' := by
    rintro body' crc' ms' hcrc' rfl hbody'
    obtain rfl :=
      eq_of_decodeBody_of_comparable hbody' hbody (comparable_of_append hcomparable)
    exact hne (eq_of_comparable (by simp [hcrc, hcrc']) hcomparable)
  constructor
  · refine refused_iff.mpr fun ms' hq => ?_
    obtain ⟨body', crc', -, hcrc', hsplit, hbody', -⟩ := exists_body_of_decode hq
    exact hframed body' crc' ms' hcrc' hsplit hbody'
  · intro body' crc' hcrc' hsplit
    cases hbody' : decodeBody body' with
    | ok ms' => exact absurd hbody' (hframed body' crc' ms' hcrc' hsplit)
    | error fault => exact ⟨fault, rfl⟩

set_option maxRecDepth 4000 in
/-- A payload is taken as a body and given its own checksum, which is right. It is also cut off
in its last record. -/
theorem resealed_refused :
    let resealed := withChecksum taggedPayload
    encode taggedBatch = .ok taggedPayload ∧
      (taggedPayload <+: resealed ∧
        Checksum.crc32 taggedPayload = Bytes.toUInt32 (resealed.drop 79) ∧
        Refused resealed ∧ ∃ fault, decodeBody taggedPayload = .error fault) ∧
      Refused (taggedPayload.take 74) := by
  have hencode : encode taggedBatch = .ok taggedPayload := by decide +kernel
  have hne : withChecksum taggedPayload ≠ taggedPayload := by decide +kernel
  have hbegins : taggedPayload <+: withChecksum taggedPayload := List.prefix_append ..
  obtain ⟨hrefused, hbodies⟩ := prefix_free (.inr hencode) hne (.inr hbegins)
  refine ⟨hencode, ⟨hbegins, by decide +kernel, hrefused, hbodies _ _ (by simp) rfl⟩, ?_⟩
  exact (prefix_free (.inr hencode) (by decide +kernel) (.inl (List.take_prefix 74 _))).1

/-- The byte strings differ at most in the `width` bytes from `start` on. -/
def AgreeOutside (start width : Nat) (p q : Bytes) : Prop :=
  ∀ i, i < start ∨ start + width ≤ i → p[i]? = q[i]?

theorem agreeOutside_iff {start width : Nat} : AgreeOutside start width p q ↔
    p.take start = q.take start ∧ p.drop (start + width) = q.drop (start + width) := by
  constructor
  · intro h
    constructor
    · refine List.ext_getElem? fun i => ?_
      rw [List.getElem?_take, List.getElem?_take]
      split
      · next hi => exact h i (.inl hi)
      · rfl
    · refine List.ext_getElem? fun i => ?_
      rw [List.getElem?_drop, List.getElem?_drop]
      exact h _ (.inr (Nat.le_add_right ..))
  · rintro ⟨htake, hdrop⟩ i (hi | hi)
    · rw [← List.getElem?_take_of_lt hi, htake, List.getElem?_take_of_lt hi]
    · obtain ⟨k, rfl⟩ := Nat.exists_eq_add_of_le hi
      rw [← List.getElem?_drop, hdrop, List.getElem?_drop]

instance (start width : Nat) (p q : Bytes) : Decidable (AgreeOutside start width p q) :=
  decidable_of_iff _ agreeOutside_iff.symm

theorem exists_of_agreeOutside {front x back : Bytes}
    (hlength : q.length = (front ++ x ++ back).length)
    (h : AgreeOutside front.length x.length (front ++ x ++ back) q) :
    ∃ y, x.length = y.length ∧ q = front ++ y ++ back := by
  obtain ⟨htake, hdrop⟩ := agreeOutside_iff.mp h
  have hfront : front = q.take front.length := by
    rwa [List.append_assoc, List.take_left] at htake
  have hback : back = q.drop (front.length + x.length) := by
    rw [← List.length_append, List.drop_left] at hdrop
    rwa [← List.length_append]
  rw [List.length_append, List.length_append] at hlength
  refine ⟨(q.drop front.length).take x.length, ?_, ?_⟩
  · rw [List.length_take_of_le (by rw [List.length_drop]; omega)]
  · calc q = q.take front.length ++ q.drop front.length := (List.take_append_drop ..).symm
      _ = q.take front.length ++ ((q.drop front.length).take x.length ++
            q.drop (front.length + x.length)) := by
          rw [← List.drop_drop, List.take_append_drop x.length]
      _ = front ++ (q.drop front.length).take x.length ++ back := by
          rw [← hfront, ← hback, List.append_assoc]

theorem mismatch_of_crc32_ne {crc : Bytes} (hbody : 7 ≤ body.length) (hcrc : crc.length = 4)
    (h : Checksum.crc32 body ≠ Bytes.toUInt32 crc) :
    decode (body ++ crc) = .error .checksumMismatch := by
  rw [decode_append hbody hcrc, if_pos (bne_iff_ne.mpr h)]

section

variable {front x y back crc : Bytes}

theorem mismatch_of_ne_covered (hbody : 7 ≤ (front ++ x ++ back).length)
    (hcrc : crc.length = 4) (hsum : Checksum.crc32 (front ++ x ++ back) = Bytes.toUInt32 crc)
    (hx : x.length = 4) (hy : x.length = y.length) (hne : x ≠ y) :
    decode (front ++ y ++ back ++ crc) = .error .checksumMismatch := by
  refine mismatch_of_crc32_ne (by simpa [hy] using hbody) hcrc fun hsum' => hne ?_
  exact Checksum.eq_of_crc32_eq front back hx.le hy (hsum.trans hsum'.symm)

theorem mismatch_of_ne_checksum (hbody : 7 ≤ body.length) (hcrc : crc.length = 4)
    (hsum : Checksum.crc32 body = Bytes.toUInt32 crc) (hy : crc.length = y.length)
    (hne : crc ≠ y) : decode (body ++ y) = .error .checksumMismatch := by
  have hlength : y.length = 4 := hy.symm.trans hcrc
  refine mismatch_of_crc32_ne hbody hlength fun hsum' => hne ?_
  have hnumber := (number_toUInt32 hcrc).mpr hsum
  have hnumber' := (number_toUInt32 hlength).mpr hsum'
  exact (exact_number 4).unique hnumber hnumber'

end

/-- A payload with changes in up to four bytes in a row, all in what the checksum covers or
all in the checksum, is refused for its checksum. -/
theorem local_damage_detected {start : Nat} (hp : decode p = .ok ms ∨ encode ms = .ok p)
    (hlength : q.length = p.length) (hne : q ≠ p)
    (hwindow : start + 4 ≤ p.length - 4 ∨ start + 4 = p.length)
    (hagree : AgreeOutside start 4 p q) :
    decode q = .error .checksumMismatch ∧ Refused q := by
  suffices hq : decode q = .error .checksumMismatch from ⟨hq, refused_of_error hq⟩
  obtain ⟨body, crc, hbody, hcrc, rfl, -, hsum⟩ :=
    exists_body_of_decode (hp.elim id decode_encode)
  rw [List.length_append, hcrc] at hwindow
  rcases hwindow with hcovered | hchecksum
  · obtain ⟨front, rest, rfl, rfl⟩ := exists_append start (show start ≤ body.length by omega)
    rw [List.length_append] at hcovered
    obtain ⟨x, back, hx, rfl⟩ := exists_append 4 (show 4 ≤ rest.length by omega)
    rw [← List.append_assoc] at hbody hsum hlength hne hagree
    rw [List.append_assoc _ back, ← hx] at hagree
    rw [List.append_assoc _ back] at hlength hne
    obtain ⟨y, hy, rfl⟩ := exists_of_agreeOutside hlength hagree
    rw [← List.append_assoc]
    exact mismatch_of_ne_covered hbody hcrc hsum hx hy fun hxy => hne (by rw [hxy])
  · obtain rfl : body.length = start := by omega
    rw [← List.append_nil (body ++ crc)] at hlength hne hagree
    rw [← hcrc] at hagree
    obtain ⟨y, hy, rfl⟩ := exists_of_agreeOutside hlength hagree
    rw [List.append_nil]
    exact mismatch_of_ne_checksum hbody hcrc hsum hy fun hxy => hne (by rw [hxy])

set_option maxRecDepth 4000 in
/-- Two bytes of the value of the counter, and all of the checksum. -/
theorem damaged_refused :
    let valued := taggedPayload.set 22 1 |>.set 23 0
    let summed := taggedPayload.take 75 ++ [0, 0, 0, 0]
    encode taggedBatch = .ok taggedPayload ∧
      (decode valued = .error .checksumMismatch ∧ Refused valued) ∧
      (decode summed = .error .checksumMismatch ∧ Refused summed) := by
  have hencode : encode taggedBatch = .ok taggedPayload := by decide +kernel
  refine ⟨hencode, ?_, ?_⟩
  · have hagree : AgreeOutside 20 4 taggedPayload (taggedPayload.set 22 1 |>.set 23 0) := by
      decide +kernel
    exact local_damage_detected (.inr hencode) (by decide +kernel) (by decide +kernel)
      (.inl (by decide +kernel)) hagree
  · have hagree : AgreeOutside 75 4 taggedPayload (taggedPayload.take 75 ++ [0, 0, 0, 0]) := by
      decide +kernel
    exact local_damage_detected (.inr hencode) (by decide +kernel) (by decide +kernel)
      (.inr (by decide +kernel)) hagree

end Batch

end Rollup
