import Rollup.Progress.Cell

namespace Rollup

namespace Utf8

theorem encode_append (a b : String) : encode (a ++ b) = encode a ++ encode b := by
  simp [encode]

theorem encode_ofList (cs : List Char) :
    encode (String.ofList cs) = cs.flatMap String.utf8EncodeChar := by
  simp [encode, List.utf8Encode]

theorem encode_eq_flatMap (s : String) : encode s = s.toList.flatMap String.utf8EncodeChar := by
  rw [← encode_ofList, String.ofList_toList]

theorem utf8EncodeChar_of_lt {c : Char} (h : c.toNat < 0x80) :
    String.utf8EncodeChar c = [UInt8.ofNat c.toNat] :=
  if_pos (Nat.le_of_lt_succ h)

theorem le_of_mem_utf8EncodeChar {c : Char} (h : 0x80 ≤ c.toNat) {b : UInt8}
    (hb : b ∈ String.utf8EncodeChar c) : 0x80 ≤ b := by
  have hbyte : ∀ n, 0x80 ≤ n → n < 0x100 → (0x80 : UInt8) ≤ UInt8.ofNat n := by
    intro n hn hlt
    rw [UInt8.le_iff_toNat_le, UInt8.toNat_ofNat_of_lt' hlt]
    exact hn
  have hval : 0x80 ≤ c.val.toNat := h
  simp only [String.utf8EncodeChar] at hb
  split at hb
  · omega
  · split at hb
    · simp only [List.mem_cons, List.not_mem_nil, or_false] at hb
      rcases hb with rfl | rfl <;> exact hbyte _ (by omega) (by omega)
    · split at hb
      · simp only [List.mem_cons, List.not_mem_nil, or_false] at hb
        rcases hb with rfl | rfl | rfl <;> exact hbyte _ (by omega) (by omega)
      · simp only [List.mem_cons, List.not_mem_nil, or_false] at hb
        rcases hb with rfl | rfl | rfl | rfl <;> exact hbyte _ (by omega) (by omega)

end Utf8

namespace Progress

def escaped (s : String) : Bytes := Utf8.encode (String.ofList (s.toList.flatMap escape))

theorem encode_quote (s : String) : Utf8.encode (quote s) = 0x22 :: (escaped s ++ [0x22]) := by
  simp only [quote, escaped, Utf8.encode_ofList, List.flatMap_cons, List.flatMap_append,
    List.cons_append]
  rfl

/-- A byte that stands for itself inside quotes. -/
def Plain (b : UInt8) : Prop := b ≠ 0x22 ∧ b ≠ 0x5C ∧ 0x20 ≤ b

theorem scanString_plain {bytes : Bytes} (h : ∀ b ∈ bytes, Plain b) (rest : Bytes) :
    scanString .plain (bytes ++ rest) =
      (scanString .plain rest).map fun r => (bytes ++ r.1, r.2) := by
  induction bytes with
  | nil => exact (Option.map_id' ..).symm
  | cons b bytes ih =>
      obtain ⟨hquote, hslash, hcontrol⟩ := h b (List.mem_cons_self ..)
      have hnot : ¬ b < 0x20 := UInt8.not_lt.mpr hcontrol
      rw [List.cons_append, scanString]
      simp only [beq_iff_eq, hquote, hslash, hnot, if_false,
        ih fun b' hb' => h b' (List.mem_cons_of_mem _ hb'), Option.map_map]
      rfl

theorem plain_of_mem_utf8EncodeChar {c : Char} (hquote : c ≠ '"') (hslash : c ≠ '\\')
    (hcontrol : 0x20 ≤ c.toNat) {b : UInt8} (hb : b ∈ String.utf8EncodeChar c) : Plain b := by
  rcases Nat.lt_or_ge c.toNat 0x80 with hascii | hwide
  · have hcode : ∀ c' : Char, c.toNat = c'.toNat → c = c' := fun c' h => Char.toNat_inj.mp h
    rw [Utf8.utf8EncodeChar_of_lt hascii, List.mem_singleton] at hb
    have hnat : b.toNat = c.toNat := by
      rw [hb, UInt8.toNat_ofNat_of_lt' (by simp only [UInt8.size]; omega)]
    refine ⟨?_, ?_, ?_⟩
    · rintro rfl
      exact hquote (hcode '"' hnat.symm)
    · rintro rfl
      exact hslash (hcode '\\' hnat.symm)
    · rw [UInt8.le_iff_toNat_le, hnat]
      exact hcontrol
  · have hle := UInt8.le_iff_toNat_le.mp (Utf8.le_of_mem_utf8EncodeChar hwide hb)
    refine ⟨?_, ?_, UInt8.le_iff_toNat_le.mpr (Nat.le_trans (by decide) hle)⟩ <;>
      (rintro rfl; revert hle; decide)

theorem hexValue?_hexDigit : ∀ n < 16, (hexDigit n).toNat < 0x80 ∧
    hexValue? (UInt8.ofNat (hexDigit n).toNat) = some n := by
  decide

theorem scanString_control {n : Nat} (h : n < 0x20) (rest : Bytes) :
    scanString .plain (['\\', 'u', '0', '0', hexDigit (n / 16), hexDigit (n % 16)].flatMap
      String.utf8EncodeChar ++ rest) =
        (scanString .plain rest).map fun r =>
          (String.utf8EncodeChar (Char.ofNat n) ++ r.1, r.2) := by
  obtain ⟨hascii, hhigh⟩ := hexValue?_hexDigit (n / 16) (by omega)
  obtain ⟨hascii', hlow⟩ := hexValue?_hexDigit (n % 16) (by omega)
  have hbytes : ['\\', 'u', '0', '0', hexDigit (n / 16), hexDigit (n % 16)].flatMap
      String.utf8EncodeChar = [0x5C, 0x75, 0x30, 0x30, UInt8.ofNat (hexDigit (n / 16)).toNat,
        UInt8.ofNat (hexDigit (n % 16)).toNat] := by
    simp only [List.flatMap_cons, List.flatMap_nil, Utf8.utf8EncodeChar_of_lt hascii,
      Utf8.utf8EncodeChar_of_lt hascii']
    rfl
  have hvalue : (0 * 16 + 0) * 16 + 0 = 0 := rfl
  have hsum : (0 * 16 + n / 16) * 16 + n % 16 = n := by omega
  have hzero : hexValue? 0x30 = some 0 := by decide
  have hchar : charBytes n = String.utf8EncodeChar (Char.ofNat n) := by
    simp [charBytes, Utf8.encode_eq_flatMap]
  rw [hbytes]
  simp only [List.cons_append, List.nil_append, scanString, hzero, hhigh, hlow, hsum, hchar]
  have hsurrogate : ¬ (0xD800 ≤ n) := by omega
  have hsurrogate' : ¬ (0xDC00 ≤ n) := by omega
  simp [hsurrogate, hsurrogate']

theorem scanString_escape (c : Char) (rest : Bytes) :
    scanString .plain ((escape c).flatMap String.utf8EncodeChar ++ rest) =
      (scanString .plain rest).map fun r => (String.utf8EncodeChar c ++ r.1, r.2) := by
  simp only [escape, beq_iff_eq]
  iterate 7
    split
    · next h =>
      subst h
      rfl
  split
  · next h =>
    have hcontrol := scanString_control h rest
    rwa [Char.ofNat_toNat] at hcontrol
  · next hquote hslash _ _ _ _ _ hcontrol =>
    rw [List.flatMap_singleton]
    exact scanString_plain
      (fun b hb => plain_of_mem_utf8EncodeChar hquote hslash (Nat.le_of_not_lt hcontrol) hb) rest

theorem scanString_escaped (s : String) (rest : Bytes) :
    scanString .plain (escaped s ++ 0x22 :: rest) = some (Utf8.encode s, rest) := by
  rw [escaped, Utf8.encode_ofList, Utf8.encode_eq_flatMap]
  induction s.toList with
  | nil => rfl
  | cons c cs ih =>
      rw [List.flatMap_cons, List.flatMap_append, List.append_assoc, scanString_escape, ih]
      rfl

theorem readText_escaped (s : String) (rest : Bytes) :
    readText (escaped s ++ 0x22 :: rest) = some (s, rest) := by
  simp only [readText, scanString_escaped, Utf8.decode_encode]

def digits (n : Nat) : Bytes := Utf8.encode (toString n)

theorem digits_eq_map (n : Nat) :
    digits n = (Nat.toDigits 10 n).map fun c => UInt8.ofNat c.toNat := by
  have hdigit : ∀ c ∈ Nat.toDigits 10 n, String.utf8EncodeChar c = [UInt8.ofNat c.toNat] := by
    intro c hc
    have hrange := Char.isDigit_iff_toNat.mp
      (Nat.isDigit_of_mem_toDigits (by decide) (Nat.le_refl _) hc)
    exact Utf8.utf8EncodeChar_of_lt (Nat.lt_of_le_of_lt hrange.2 (by decide))
  rw [digits, Nat.toString_eq_ofList_toDigits, Utf8.encode_ofList, List.flatMap_def,
    List.map_congr_left hdigit, ← List.flatMap_def, ← List.map_eq_flatMap]

theorem toNat_of_mem_digits {n : Nat} {c : Char} (h : c ∈ Nat.toDigits 10 n) :
    48 ≤ c.toNat ∧ c.toNat ≤ 57 ∧ (UInt8.ofNat c.toNat).toNat = c.toNat := by
  obtain ⟨hlow, hhigh⟩ := Char.isDigit_iff_toNat.mp
    (Nat.isDigit_of_mem_toDigits (by decide) (Nat.le_refl _) h)
  have hhigh : c.toNat ≤ 57 := hhigh
  exact ⟨hlow, hhigh, UInt8.toNat_ofNat_of_lt' (by simp only [UInt8.size]; omega)⟩

theorem isDigit_of_mem_digits {n : Nat} {b : UInt8} (h : b ∈ digits n) : isDigit b = true := by
  rw [digits_eq_map] at h
  obtain ⟨c, hc, rfl⟩ := List.mem_map.mp h
  obtain ⟨hlow, hhigh, hnat⟩ := toNat_of_mem_digits hc
  simp only [isDigit, Bool.and_eq_true, decide_eq_true_eq, UInt8.le_iff_toNat_le, hnat]
  exact ⟨hlow, hhigh⟩

theorem toDigits_eq_cons (n : Nat) :
    (n = 0 ∧ Nat.toDigits 10 n = ['0']) ∨ ∃ c cs, Nat.toDigits 10 n = c :: cs ∧ c ≠ '0' := by
  induction n using Nat.strongRecOn with
  | _ n ih =>
      rw [Nat.toDigits_eq_if (by decide)]
      split
      · next hlt =>
        have hchar : ∀ m < 10, m = 0 ∨ Nat.digitChar m ≠ '0' := by decide
        rcases hchar n hlt with rfl | hne
        · exact .inl ⟨rfl, rfl⟩
        · exact .inr ⟨_, [], rfl, hne⟩
      · next hge =>
        rcases ih (n / 10) (by omega) with ⟨hzero, -⟩ | ⟨c, cs, hdigits, hc⟩
        · omega
        · exact .inr ⟨c, cs ++ [Nat.digitChar (n % 10)], by rw [hdigits, List.cons_append], hc⟩

theorem foldl_digits (n : Nat) :
    (digits n).foldl (fun n b => n * 10 + (b.toNat - 0x30)) 0 = n := by
  have hfold : ∀ cs : List Char, (∀ c ∈ cs, c ∈ Nat.toDigits 10 n) → ∀ start,
      (cs.map fun c => UInt8.ofNat c.toNat).foldl (fun n b => n * 10 + (b.toNat - 0x30)) start =
        Nat.ofDigitChars 10 cs start := by
    intro cs hcs
    induction cs with
    | nil => exact fun start => Nat.ofDigitChars_nil.symm
    | cons c cs ih =>
        intro start
        obtain ⟨-, -, hnat⟩ := toNat_of_mem_digits (hcs c (List.mem_cons_self ..))
        rw [List.map_cons, List.foldl_cons, Nat.ofDigitChars_cons, hnat, Nat.mul_comm 10]
        exact ih (fun c' hc' => hcs c' (List.mem_cons_of_mem _ hc')) _
  rw [digits_eq_map, hfold _ (fun _ hc => hc), Nat.ofDigitChars_ten_toDigits]

theorem skipDigits_digits (n : Nat) {rest : Bytes} (hrest : ∀ b ∈ rest.head?, isDigit b = false) :
    skipDigits (digits n ++ rest) = some rest := by
  have hdrop : ∀ bytes : Bytes, (∀ b ∈ bytes, isDigit b = true) →
      (bytes ++ rest).dropWhile isDigit = rest := by
    intro bytes hbytes
    rw [List.dropWhile_append_of_pos hbytes]
    cases rest with
    | nil => rfl
    | cons b rest => exact List.dropWhile_cons_of_neg (by simp [hrest b rfl])
  cases hdigits : digits n with
  | nil =>
      rw [digits_eq_map, List.map_eq_nil_iff] at hdigits
      exact absurd hdigits Nat.toDigits_ne_nil
  | cons b bytes =>
      have hall : ∀ b' ∈ b :: bytes, isDigit b' = true :=
        fun b' hb' => isDigit_of_mem_digits (hdigits.symm ▸ hb')
      rw [List.cons_append, skipDigits, if_pos (hall b (List.mem_cons_self ..)),
        hdrop bytes fun b' hb' => hall b' (List.mem_cons_of_mem _ hb')]

theorem skipWhole_digits (n : Nat) {rest : Bytes} (hrest : ∀ b ∈ rest.head?, isDigit b = false) :
    skipWhole (digits n ++ rest) = some rest := by
  rw [skipWhole.eq_def]
  split
  · next b tail heq =>
    rcases toDigits_eq_cons n with ⟨-, hzero⟩ | ⟨c, cs, hcons, hc⟩
    · rw [digits_eq_map, hzero] at heq
      obtain rfl : rest = b :: tail := (List.cons.inj heq).2
      rw [hrest b rfl]
      rfl
    · have hhead : UInt8.ofNat c.toNat = 0x30 := by
        rw [digits_eq_map, hcons] at heq
        exact (List.cons.inj heq).1
      obtain ⟨-, -, hnat⟩ := toNat_of_mem_digits (n := n) (c := c) (by rw [hcons]; simp)
      rw [hhead] at hnat
      exact absurd (Char.toNat_inj.mp hnat.symm) hc
  · exact skipDigits_digits n hrest

theorem readOffset_digits {n : Nat} (hn : n ≤ maxOffset) {rest : Bytes}
    (hrest : ∀ b ∈ rest.head?, isDigit b = false) :
    readOffset (digits n ++ rest) = some (n, rest) := by
  have hlength : (digits n ++ rest).length - rest.length = (digits n).length := by
    rw [List.length_append, Nat.add_sub_cancel]
  simp only [readOffset, skipWhole_digits n hrest, hlength, List.take_left, foldl_digits, if_pos hn]

theorem encode_eq (p : Progress) :
    p.encode = 0x7B :: 0x22 :: (escaped "offset" ++ 0x22 :: 0x3A :: (digits p.offset ++
      0x2C :: 0x22 :: (escaped "metadata" ++ 0x22 :: 0x3A :: 0x22 ::
        (escaped p.metadata ++ [0x22, 0x7D])))) := by
  have hopen : Utf8.encode "\x7b\"offset\":" =
      0x7B :: 0x22 :: (escaped "offset" ++ [0x22, 0x3A]) := by
    decide
  have hbetween : Utf8.encode ",\"metadata\":" =
      0x2C :: 0x22 :: (escaped "metadata" ++ [0x22, 0x3A]) := by
    decide
  have hclose : Utf8.encode "\x7d" = [0x7D] := by decide
  simp only [encode, Utf8.encode_append, hopen, hbetween, hclose, encode_quote, digits,
    List.cons_append, List.nil_append, List.append_assoc]

theorem not_isSpace_of_isDigit {b : UInt8} (h : isDigit b = true) : isSpace b = false := by
  cases hspace : isSpace b with
  | false => rfl
  | true =>
      simp only [isSpace, Bool.or_eq_true, beq_iff_eq] at hspace
      rcases hspace with ((rfl | rfl) | rfl) | rfl <;> exact absurd h (by decide)

theorem skipSpace_digits (n : Nat) (rest : Bytes) :
    skipSpace (digits n ++ rest) = digits n ++ rest := by
  cases hdigits : digits n with
  | nil =>
      rw [digits_eq_map, List.map_eq_nil_iff] at hdigits
      exact absurd hdigits Nat.toDigits_ne_nil
  | cons b bytes =>
      have hspace := not_isSpace_of_isDigit
        (isDigit_of_mem_digits (n := n) (b := b) (hdigits ▸ List.mem_cons_self ..))
      exact List.dropWhile_cons_of_neg (by simp [hspace])

section Members

variable {m m' : Members} {name : String} {bytes rest : Bytes} (fuel : Nat)

theorem readMembers_comma (h : m.readValue name bytes = some (m', 0x2C :: rest)) :
    readMembers (fuel + 1) m (0x22 :: (escaped name ++ 0x22 :: 0x3A :: bytes)) =
      readMembers fuel m' rest := by
  have hquote : skipSpace (0x22 :: (escaped name ++ 0x22 :: 0x3A :: bytes)) =
      0x22 :: (escaped name ++ 0x22 :: 0x3A :: bytes) := rfl
  have hcolon : skipSpace (0x3A :: bytes) = 0x3A :: bytes := rfl
  have hcomma : skipSpace (0x2C :: rest) = 0x2C :: rest := rfl
  rw [readMembers, hquote]
  simp only [readText_escaped, hcolon, h, hcomma]

theorem readMembers_brace (h : m.readValue name bytes = some (m', 0x7D :: rest)) :
    readMembers (fuel + 1) m (0x22 :: (escaped name ++ 0x22 :: 0x3A :: bytes)) =
      some (m', rest) := by
  have hquote : skipSpace (0x22 :: (escaped name ++ 0x22 :: 0x3A :: bytes)) =
      0x22 :: (escaped name ++ 0x22 :: 0x3A :: bytes) := rfl
  have hcolon : skipSpace (0x3A :: bytes) = 0x3A :: bytes := rfl
  have hbrace : skipSpace (0x7D :: rest) = 0x7D :: rest := rfl
  rw [readMembers, hquote]
  simp only [readText_escaped, hcolon, h, hbrace]

end Members

theorem decode?_encode (p : Progress) (h : p.offset ≤ maxOffset) : decode? p.encode = some p := by
  let last : Bytes := 0x22 :: (escaped "metadata" ++ 0x22 :: 0x3A :: 0x22 ::
    (escaped p.metadata ++ [0x22, 0x7D]))
  have hoffset : ({} : Members).readValue "offset" (digits p.offset ++ 0x2C :: last) =
      some ({ offset := some p.offset }, 0x2C :: last) := by
    have hread : readOffset (digits p.offset ++ 0x2C :: last) = some (p.offset, 0x2C :: last) :=
      readOffset_digits h (by rintro b ⟨⟩; rfl)
    simp only [Members.readValue, beq_self_eq_true, if_true, skipSpace_digits, hread]
  have hmetadata : Members.readValue { offset := some p.offset } "metadata"
      (0x22 :: (escaped p.metadata ++ [0x22, 0x7D])) =
        some ({ offset := some p.offset, metadata := some p.metadata }, [0x7D]) := by
    have hquote : skipSpace (0x22 :: (escaped p.metadata ++ [0x22, 0x7D])) =
        0x22 :: (escaped p.metadata ++ [0x22, 0x7D]) := rfl
    have hname : ("metadata" == "offset") = false := by decide
    simp only [Members.readValue, hname, Bool.false_eq_true, if_false, beq_self_eq_true, if_true,
      hquote, readText_escaped, Option.map_some]
  have hmembers : ∀ fuel, readMembers (fuel + 2) {}
      (0x22 :: (escaped "offset" ++ 0x22 :: 0x3A :: (digits p.offset ++ 0x2C :: last))) =
        some ({ offset := some p.offset, metadata := some p.metadata }, []) := by
    intro fuel
    rw [readMembers_comma _ hoffset, readMembers_brace _ hmetadata]
  have hbrace : ∀ bytes, skipSpace (0x7B :: bytes) = 0x7B :: bytes := fun _ => rfl
  have hlength : ∀ bytes : Bytes, (0x22 :: (escaped "offset" ++ 0x22 :: bytes)).length =
      (escaped "offset" ++ bytes).length + 2 := by
    intro bytes
    simp only [List.length_cons, List.length_append]
    omega
  rw [encode_eq, decode?, hbrace]
  simp only [hlength]
  rw [hmembers]
  rfl

end Progress

end Rollup
