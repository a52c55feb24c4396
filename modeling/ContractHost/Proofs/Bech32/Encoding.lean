import ContractHost.Bech32.Encoding
import ContractHost.Proofs.Bech32.Checksum
import ContractHost.Proofs.Bech32.Word
import ContractHost.Proofs.Utf8

/-!
# What is written is read back

`IsHrp` says what a human-readable part has to be, and a string that `encode` writes is such a part
in lower case, the separator, and the characters of the data words and their checksum
(`encode_eq_ok_iff`). All of it is in lower case, and its last `1` is the separator, as no word has
that character. So `decode` takes it apart where it was put together and answers what was written
(`decode_encode`).
-/

namespace ContractHost.Bech32

/-! ## Letter cases -/

/-- A string in a case throughout may hold a character of this case, or one that has none. -/
def LetterCase.Allows (k : LetterCase) (seen : Option LetterCase) : Prop :=
  seen = none ∨ seen = some k

section
variable {k : LetterCase} {seen seen' : Option LetterCase} {c : Char}

theorem mergeCase_of_allows (hseen : k.Allows seen) (hc : k.Allows (letterCase? c)) :
    ∃ seen', mergeCase seen c = .ok seen' ∧ k.Allows seen' := by
  unfold mergeCase
  rcases hseen with rfl | rfl <;> rcases hc with hc | hc <;> rw [hc] <;> simp [LetterCase.Allows]

theorem allows_of_mergeCase (h : mergeCase seen c = .ok seen') (hseen' : k.Allows seen') :
    k.Allows seen ∧ k.Allows (letterCase? c) := by
  unfold mergeCase at h
  cases hc : letterCase? c with
  | none =>
    rw [hc] at h
    cases h
    exact ⟨hseen', .inl rfl⟩
  | some new =>
    rw [hc] at h
    cases seen with
    | none =>
      cases h
      exact ⟨.inl rfl, hseen'⟩
    | some old =>
      simp only at h
      split at h
      · rename_i hsame
        cases h
        exact ⟨hseen', hsame ▸ hseen'⟩
      · cases h

end

/-! ## Human-readable parts -/

/-- What is checked of a byte of a human-readable part in a case. -/
def FitByte (k : LetterCase) (b : UInt8) : Prop :=
  (33 ≤ b.toNat ∧ b.toNat ≤ 126) ∧ k.Allows (letterCase? (Char.ofNat b.toNat))

theorem printable_iff {b : UInt8} : ¬ (b < 33 ∨ 126 < b) ↔ 33 ≤ b.toNat ∧ b.toNat ≤ 126 := by
  have h33 : (33 : UInt8).toNat = 33 := rfl
  have h126 : (126 : UInt8).toNat = 126 := rfl
  rw [UInt8.lt_iff_toNat_lt, UInt8.lt_iff_toNat_lt, h33, h126]
  omega

theorem checkBytes_of_fit {k : LetterCase} {seen : Option LetterCase} {bs : Bytes}
    (hseen : k.Allows seen) (h : ∀ b ∈ bs, FitByte k b) :
    ∃ seen', checkBytes seen bs = .ok seen' ∧ k.Allows seen' := by
  induction bs generalizing seen with
  | nil => exact ⟨seen, rfl, hseen⟩
  | cons b bs ih =>
    obtain ⟨hb, hcase⟩ := h b List.mem_cons_self
    obtain ⟨seen', hmerge, hseen'⟩ := mergeCase_of_allows hseen hcase
    rw [checkBytes, if_neg (printable_iff.mpr hb), hmerge]
    exact ih hseen' fun b' hb' => h b' (List.mem_cons_of_mem b hb')

/-- A case that what was seen in the end allows is the case of all that was read. -/
theorem fit_of_checkBytes {k : LetterCase} {seen seen' : Option LetterCase} {bs : Bytes}
    (h : checkBytes seen bs = .ok seen') (hk : k.Allows seen') :
    k.Allows seen ∧ ∀ b ∈ bs, FitByte k b := by
  induction bs generalizing seen with
  | nil =>
    cases h
    exact ⟨hk, by simp⟩
  | cons b bs ih =>
    rw [checkBytes] at h
    split at h
    · cases h
    · rename_i hb
      split at h
      · cases h
      · rename_i seen₁ hmerge
        -- from the last byte on back: what allows all that was seen allows each byte
        obtain ⟨hseen₁, hbs⟩ := ih h
        obtain ⟨hseen, hcase⟩ := allows_of_mergeCase hmerge hseen₁
        refine ⟨hseen, fun b' hb' => ?_⟩
        rcases List.mem_cons.mp hb' with rfl | hmem
        · exact ⟨printable_iff.mp hb, hcase⟩
        · exact hbs b' hmem

/-- A human-readable part: one to 83 characters of printable ASCII, all in one case. -/
structure IsHrp (hrp : List Char) : Prop where
  nonempty : hrp ≠ []
  length_le : hrp.length ≤ maxHrpLength
  printable : ∀ c ∈ hrp, 33 ≤ c.toNat ∧ c.toNat ≤ 126
  oneCase : ∃ k : LetterCase, ∀ c ∈ hrp, k.Allows (letterCase? c)

theorem IsHrp.ascii {hrp : List Char} (h : IsHrp hrp) {c : Char} (hc : c ∈ hrp) :
    c.toNat < 0x80 := by
  have hprintable := h.printable c hc
  omega

/-- The check passes what is a human-readable part, and the case that it answers is that of the
letters. -/
theorem checkHrp_of_isHrp {hrp : List Char} (h : IsHrp hrp) {k : LetterCase}
    (hk : ∀ c ∈ hrp, k.Allows (letterCase? c)) :
    ∃ seen, checkHrp hrp = .ok seen ∧ k.Allows seen := by
  have hbytes := Utf8.encode_of_ascii fun c hc => h.ascii hc
  have hbounds : ¬ ((Utf8.encode hrp).isEmpty ∨ maxHrpLength < (Utf8.encode hrp).length) := by
    rw [hbytes, List.length_map, List.isEmpty_iff, List.map_eq_nil_iff]
    rintro (hempty | hlong)
    · exact h.nonempty hempty
    · exact Nat.not_lt.mpr h.length_le hlong
  unfold checkHrp
  rw [if_neg hbounds]
  apply checkBytes_of_fit (.inl rfl)
  rw [hbytes]
  intro b hb
  obtain ⟨c, hc, rfl⟩ := List.mem_map.mp hb
  have hlt := h.ascii hc
  rw [FitByte, Utf8.toNat_ofNat_of_lt (by omega), Char.ofNat_toNat]
  exact ⟨h.printable c hc, hk c hc⟩

/-- What the check passes, and in a case that its answer allows. -/
theorem chars_of_checkHrp {hrp : List Char} {k : LetterCase} {seen : Option LetterCase}
    (h : checkHrp hrp = .ok seen) (hk : k.Allows seen) :
    (hrp ≠ [] ∧ hrp.length ≤ maxHrpLength) ∧
      ∀ c ∈ hrp, (33 ≤ c.toNat ∧ c.toNat ≤ 126) ∧ k.Allows (letterCase? c) := by
  unfold checkHrp at h
  simp only at h
  split at h
  · cases h
  · rename_i hbounds
    obtain ⟨-, hfit⟩ := fit_of_checkBytes h hk
    have hascii : ∀ c ∈ hrp, c.toNat < 0x80 := by
      intro c hc
      -- the check is on bytes; printable bytes are those of ASCII characters, one each
      refine Utf8.ascii_of_encode (fun b hb => ?_) hc
      have hb' := (hfit b hb).1
      omega
    rw [Utf8.encode_of_ascii hascii] at hfit hbounds
    rw [not_or, List.length_map, List.isEmpty_iff, List.map_eq_nil_iff] at hbounds
    refine ⟨⟨hbounds.1, Nat.le_of_not_lt hbounds.2⟩, fun c hc => ?_⟩
    have hbyte := hfit _ (List.mem_map_of_mem hc)
    have hlt := hascii c hc
    rwa [FitByte, Utf8.toNat_ofNat_of_lt (by omega), Char.ofNat_toNat] at hbyte

/-- Every answer is that of a string in one case. -/
theorem exists_allows (seen : Option LetterCase) : ∃ k : LetterCase, k.Allows seen := by
  cases seen with
  | none => exact ⟨.lower, .inl rfl⟩
  | some k => exact ⟨k, .inr rfl⟩

/-- The check passes nothing else. -/
theorem isHrp_of_checkHrp {hrp : List Char} {seen : Option LetterCase}
    (h : checkHrp hrp = .ok seen) : IsHrp hrp := by
  obtain ⟨k, hk⟩ := exists_allows seen
  obtain ⟨⟨hnonempty, hlength⟩, hchars⟩ := chars_of_checkHrp h hk
  exact ⟨hnonempty, hlength, fun c hc => (hchars c hc).1, k, fun c hc => (hchars c hc).2⟩

/-! ## Lower case -/

/-- Printable ASCII stays printable in lower case. -/
theorem toLower_printable {c : Char} (h : 33 ≤ c.toNat ∧ c.toNat ≤ 126) :
    (33 ≤ c.toLower.toNat ∧ c.toLower.toNat ≤ 126) ∧
      letterCase? c.toLower ≠ some .upper ∧ c.toLower.toLower = c.toLower := by
  have hall : ∀ n < 127, 33 ≤ n →
      (33 ≤ (Char.ofNat n).toLower.toNat ∧ (Char.ofNat n).toLower.toNat ≤ 126) ∧
      letterCase? (Char.ofNat n).toLower ≠ some .upper ∧
      (Char.ofNat n).toLower.toLower = (Char.ofNat n).toLower := by
    decide
  have hc := hall c.toNat (by omega) h.1
  rwa [Char.ofNat_toNat] at hc

theorem lower_allows {seen : Option LetterCase} (h : seen ≠ some .upper) :
    LetterCase.lower.Allows seen := by
  rcases seen with _ | _ | _
  · exact .inl rfl
  · exact .inr rfl
  · exact absurd rfl h

section
variable {hrp : List Char} (h : IsHrp hrp)
include h

theorem lower_allows_lowercase : ∀ c ∈ lowercase hrp, LetterCase.lower.Allows (letterCase? c) := by
  intro c hc
  obtain ⟨d, hd, rfl⟩ := List.mem_map.mp hc
  exact lower_allows (toLower_printable (h.printable d hd)).2.1

theorem isHrp_lowercase : IsHrp (lowercase hrp) := by
  refine ⟨?_, ?_, fun c hc => ?_, .lower, lower_allows_lowercase h⟩
  · rw [lowercase, ne_eq, List.map_eq_nil_iff]
    exact h.nonempty
  · rw [lowercase, List.length_map]
    exact h.length_le
  · obtain ⟨d, hd, rfl⟩ := List.mem_map.mp hc
    exact (toLower_printable (h.printable d hd)).1

theorem lowercase_lowercase : lowercase (lowercase hrp) = lowercase hrp := by
  rw [lowercase, lowercase, List.map_map]
  exact List.map_congr_left fun c hc => (toLower_printable (h.printable c hc)).2.2

end

/-! ## Writing -/

/-- The words of a string: the data and their checksum. -/
def wordsOf (hrp : List Char) (data : List Word) (variant : Variant) : List Word :=
  data ++ checksum variant (lowercase hrp) data

/-- What is written, and under which human-readable parts. -/
theorem encode_eq_ok_iff {hrp : List Char} {data : List Word} {variant : Variant} {s : List Char} :
    encode hrp data variant = .ok s ↔
      IsHrp hrp ∧ s = lowercase hrp ++ '1' :: (wordsOf hrp data variant).map Word.char := by
  unfold encode
  constructor
  · intro h
    split at h
    · cases h
    · rename_i hcheck
      cases h
      exact ⟨isHrp_of_checkHrp hcheck, rfl⟩
  · rintro ⟨hhrp, rfl⟩
    obtain ⟨k, hk⟩ := hhrp.oneCase
    obtain ⟨seen, hcheck, -⟩ := checkHrp_of_isHrp hhrp hk
    rw [hcheck]
    rfl

/-- Everything can be written under a human-readable part. -/
theorem exists_encode {hrp : List Char} (h : IsHrp hrp) (data : List Word) (variant : Variant) :
    ∃ s, encode hrp data variant = .ok s :=
  ⟨_, encode_eq_ok_iff.mpr ⟨h, rfl⟩⟩

/-- What is written is in lower case. -/
theorem lowercase_of_encode {hrp : List Char} {data : List Word} {variant : Variant} {s : List Char}
    (h : encode hrp data variant = .ok s) : lowercase s = s := by
  obtain ⟨hhrp, rfl⟩ := encode_eq_ok_iff.mp h
  have hfront : (lowercase hrp).map Char.toLower = lowercase hrp := lowercase_lowercase hhrp
  have hwords (ws : List Word) : (ws.map Word.char).map Char.toLower = ws.map Word.char := by
    rw [List.map_map]
    exact List.map_congr_left fun w _ => w.toLower_char
  rw [lowercase, List.map_append, List.map_cons, hfront, hwords]
  rfl

theorem length_wordsOf (hrp : List Char) (data : List Word) (variant : Variant) :
    (wordsOf hrp data variant).length = data.length + checksumLength := by
  rw [wordsOf, checksum_eq, List.length_append, length_coefficients]

/-- All that is written is ASCII. -/
theorem ascii_of_encode {hrp : List Char} {data : List Word} {variant : Variant} {s : List Char}
    (h : encode hrp data variant = .ok s) : ∀ c ∈ s, c.toNat < 0x80 := by
  obtain ⟨hhrp, rfl⟩ := encode_eq_ok_iff.mp h
  intro c hc
  rw [List.mem_append, List.mem_cons] at hc
  rcases hc with hc | rfl | hc
  · exact (isHrp_lowercase hhrp).ascii hc
  · decide
  · obtain ⟨w, -, rfl⟩ := List.mem_map.mp hc
    exact w.char_ascii

/-! ## Reading -/

/-- No word has an upper-case letter. -/
theorem Word.letterCase?_char (w : Word) : letterCase? w.char ≠ some .upper := by
  revert w
  decide

/-- A string is split at a separator that no other follows. -/
theorem split?_append {front back : List Char} (h : '1' ∉ back) :
    split? (front ++ '1' :: back) = some (front, back) := by
  have hback : ∀ c ∈ back.reverse, decide (c ≠ '1') = true := by
    intro c hc
    rw [decide_eq_true_eq]
    rintro rfl
    exact h (List.mem_reverse.mp hc)
  have hreverse : (front ++ '1' :: back).reverse = back.reverse ++ '1' :: front.reverse := by
    simp
  rw [split?, hreverse, List.dropWhile_append_of_pos hback, List.takeWhile_append_of_pos hback,
    List.dropWhile_cons_of_neg (by simp), List.takeWhile_cons_of_neg (by simp)]
  simp

/-- Characters of words in a case are read as the words behind anything in that case. -/
theorem readWords_map {k : LetterCase} {spell : Word → Char}
    (hspell : ∀ w, (spell w).toNat < 128 ∧ k.Allows (letterCase? (spell w)) ∧
      (spell w).toLower = w.char)
    {seen : Option LetterCase} (hseen : k.Allows seen) (ws : List Word) :
    readWords seen (ws.map spell) = .ok ws := by
  induction ws generalizing seen with
  | nil => rfl
  | cons w ws ih =>
    obtain ⟨hascii, hcase, hlower⟩ := hspell w
    obtain ⟨seen', hmerge, hseen'⟩ := mergeCase_of_allows hseen hcase
    rw [List.map_cons, readWords, if_neg (by omega), hmerge, hlower, w.ofChar?_char]
    simp only [ih hseen']

theorem readWords_map_char {seen : Option LetterCase} (hseen : LetterCase.lower.Allows seen)
    (ws : List Word) : readWords seen (ws.map Word.char) = .ok ws := by
  refine readWords_map (fun w => ⟨w.char_ascii, ?_, w.toLower_char⟩) hseen ws
  exact lower_allows w.letterCase?_char

/-- What is read of a string whose parts pass their checks. -/
theorem decode_of_parts {s hrp rest : List Char} {seen : Option LetterCase} {ws : List Word}
    {variant : Variant} (hsplit : split? s = some (hrp, rest)) (hcheck : checkHrp hrp = .ok seen)
    (hread : readWords seen rest = .ok ws) (hlength : checksumLength ≤ ws.length)
    (hvariant : variant? (lowercase hrp) ws = some variant) :
    decode s = .ok ⟨lowercase hrp, ws.take (ws.length - checksumLength), variant⟩ := by
  rw [decode, hsplit]
  simp only [hcheck, bind, Except.bind, hread, if_neg (Nat.not_lt.mpr hlength)]
  rw [hvariant]
  rfl

/-- Reading gives back what was written, with the human-readable part in lower case. -/
theorem decode_encode {hrp : List Char} {data : List Word} {variant : Variant} {s : List Char}
    (h : encode hrp data variant = .ok s) : decode s = .ok ⟨lowercase hrp, data, variant⟩ := by
  obtain ⟨hhrp, rfl⟩ := encode_eq_ok_iff.mp h
  obtain ⟨seen, hcheck, hseen⟩ :=
    checkHrp_of_isHrp (isHrp_lowercase hhrp) (lower_allows_lowercase hhrp)
  have hseparator : '1' ∉ (wordsOf hrp data variant).map Word.char := by
    intro hmem
    obtain ⟨w, -, hw⟩ := List.mem_map.mp hmem
    exact w.char_ne_separator hw
  have hlength := length_wordsOf hrp data variant
  have hvariant :
      variant? (lowercase (lowercase hrp)) (wordsOf hrp data variant) = some variant := by
    rw [lowercase_lowercase hhrp]
    exact variant?_checksum variant (lowercase hrp) data
  rw [decode_of_parts (split?_append hseparator) hcheck (readWords_map_char hseen _)
    (by omega) hvariant, lowercase_lowercase hhrp, hlength, Nat.add_sub_cancel, wordsOf,
    List.take_left]

end ContractHost.Bech32
