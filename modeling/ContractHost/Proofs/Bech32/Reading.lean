import ContractHost.Proofs.Bech32.Encoding

/-!
# What is read was written

A string that `decode` accepts is in one case, and in lower case it is the human-readable part that
was read, the separator, and the characters of the data words and of six words more
(`parts_of_decode`). The remainder leaves no choice for these six, so the string in lower case is
what `encode` writes of what was read. In upper case it is read as well. So exactly these two
strings are read as a human-readable part in lower case with its data (`decode_iff`).
-/

namespace ContractHost.Bech32

/-! ## Upper case -/

/-- A string in upper case. -/
def uppercase (s : List Char) : List Char := s.map Char.toUpper

theorem ascii_cases {c : Char} (h : c.toNat < 0x80) :
    (letterCase? c ≠ some .upper → c.toLower = c) ∧
      (letterCase? c ≠ some .lower → c.toLower.toUpper = c) ∧
      letterCase? c.toUpper ≠ some .lower ∧ c.toUpper.toLower = c.toLower ∧
      (33 ≤ c.toNat ∧ c.toNat ≤ 126 → 33 ≤ c.toUpper.toNat ∧ c.toUpper.toNat ≤ 126) := by
  have hall : ∀ n < 0x80,
      (letterCase? (Char.ofNat n) ≠ some .upper → (Char.ofNat n).toLower = Char.ofNat n) ∧
      (letterCase? (Char.ofNat n) ≠ some .lower → (Char.ofNat n).toLower.toUpper = Char.ofNat n) ∧
      letterCase? (Char.ofNat n).toUpper ≠ some .lower ∧
      (Char.ofNat n).toUpper.toLower = (Char.ofNat n).toLower ∧
      (33 ≤ (Char.ofNat n).toNat ∧ (Char.ofNat n).toNat ≤ 126 →
        33 ≤ (Char.ofNat n).toUpper.toNat ∧ (Char.ofNat n).toUpper.toNat ≤ 126) := by
    decide
  have hc := hall c.toNat h
  rwa [Char.ofNat_toNat] at hc

theorem upper_allows {seen : Option LetterCase} (h : seen ≠ some .lower) :
    LetterCase.upper.Allows seen := by
  rcases seen with _ | _ | _
  · exact .inl rfl
  · exact absurd rfl h
  · exact .inr rfl

theorem LetterCase.Allows.ne_of_ne {k k' : LetterCase} {seen : Option LetterCase}
    (h : k.Allows seen) (hk : k ≠ k') : seen ≠ some k' := by
  rintro rfl
  obtain h | h := h
  · cases h
  · exact hk (Option.some.inj h).symm

/-- A string in one case is its lower case or the upper case of that. -/
theorem eq_lowercase_or_uppercase {k : LetterCase} {s : List Char}
    (h : ∀ c ∈ s, c.toNat < 0x80 ∧ k.Allows (letterCase? c)) :
    s = lowercase s ∨ s = uppercase (lowercase s) := by
  cases k with
  | lower =>
    left
    have hsame : ∀ c ∈ s, c = c.toLower := fun c hc =>
      ((ascii_cases (h c hc).1).1 ((h c hc).2.ne_of_ne (by decide))).symm
    rw [lowercase, ← List.map_congr_left hsame, List.map_id']
  | upper =>
    right
    have hsame : ∀ c ∈ s, c = c.toLower.toUpper := fun c hc =>
      ((ascii_cases (h c hc).1).2.1 ((h c hc).2.ne_of_ne (by decide))).symm
    rw [uppercase, lowercase, List.map_map]
    exact (List.map_id' s).symm.trans (List.map_congr_left hsame)

theorem lowercase_uppercase {s : List Char} (hascii : ∀ c ∈ s, c.toNat < 0x80) :
    lowercase (uppercase s) = lowercase s := by
  rw [lowercase, uppercase, List.map_map]
  exact List.map_congr_left fun c hc => (ascii_cases (hascii c hc)).2.2.2.1

section
variable {hrp : List Char} (h : IsHrp hrp)
include h

theorem upper_allows_uppercase : ∀ c ∈ uppercase hrp, LetterCase.upper.Allows (letterCase? c) := by
  intro c hc
  obtain ⟨d, hd, rfl⟩ := List.mem_map.mp hc
  exact upper_allows (ascii_cases (h.ascii hd)).2.2.1

theorem isHrp_uppercase : IsHrp (uppercase hrp) := by
  refine ⟨?_, ?_, fun c hc => ?_, .upper, upper_allows_uppercase h⟩
  · rw [uppercase, ne_eq, List.map_eq_nil_iff]
    exact h.nonempty
  · rw [uppercase, List.length_map]
    exact h.length_le
  · obtain ⟨d, hd, rfl⟩ := List.mem_map.mp hc
    exact (ascii_cases (h.ascii hd)).2.2.2.2 (h.printable d hd)

end

/-- The characters of words in upper case. -/
theorem Word.upper_char (w : Word) :
    w.char.toUpper.toNat < 128 ∧ letterCase? w.char.toUpper ≠ some .lower ∧
      w.char.toUpper.toLower = w.char ∧ w.char.toUpper ≠ '1' := by
  revert w
  decide

/-! ## The parts of a string that is read -/

theorem eq_append_of_split? {s front back : List Char} (h : split? s = some (front, back)) :
    s = front ++ '1' :: back := by
  have hparts := List.takeWhile_append_dropWhile (p := fun c : Char => decide (c ≠ '1'))
    (l := s.reverse)
  have hhead := List.head?_dropWhile_not (fun c : Char => decide (c ≠ '1')) s.reverse
  unfold split? at h
  split at h
  · cases h
  · rename_i c front' hdrop
    cases h
    rw [hdrop] at hparts hhead
    have hc : c = '1' := by simpa using hhead
    rw [hc] at hparts
    calc s = s.reverse.reverse := (List.reverse_reverse s).symm
      _ = (s.reverse.takeWhile (· ≠ '1') ++ '1' :: front').reverse := by rw [hparts]
      _ = front'.reverse ++ '1' :: (s.reverse.takeWhile (· ≠ '1')).reverse := by simp

/-- The character that a word is read from is that of the word. -/
theorem Word.char_of_ofChar? {c : Char} {w : Word} (h : Word.ofChar? c = some w) : w.char = c := by
  obtain ⟨i, hi, rfl⟩ := Option.map_eq_some_iff.mp h
  obtain ⟨hlt, hget, -⟩ := List.idxOf?_eq_some_iff.mp hi
  have hsmall : i < 32 := hlt
  rw [Word.char, BitVec.toNat_ofNat, Nat.mod_eq_of_lt hsmall, List.getD_eq_getElem?_getD,
    List.getElem?_eq_getElem hlt, hget, Option.getD_some]

/-- Characters that are read as words are theirs in lower case, and in one case. -/
theorem chars_of_readWords {seen : Option LetterCase} {cs : List Char} {ws : List Word}
    (h : readWords seen cs = .ok ws) :
    lowercase cs = ws.map Word.char ∧
      ∃ k : LetterCase, k.Allows seen ∧ ∀ c ∈ cs, c.toNat < 0x80 ∧ k.Allows (letterCase? c) := by
  induction cs generalizing seen ws with
  | nil =>
    cases h
    obtain ⟨k, hk⟩ := exists_allows seen
    exact ⟨rfl, k, hk, by simp⟩
  | cons c cs ih =>
    rw [readWords] at h
    split at h
    · cases h
    · rename_i hascii
      split at h
      · cases h
      · rename_i seen' hmerge
        split at h
        · cases h
        · rename_i w hword
          split at h
          · cases h
          · rename_i ws' hread
            cases h
            -- the case of what follows allows this character too, as it was merged into it
            obtain ⟨hchars, k, hseen', hcs⟩ := ih hread
            obtain ⟨hseen, hc⟩ := allows_of_mergeCase hmerge hseen'
            refine ⟨?_, k, hseen, List.forall_mem_cons.mpr ⟨⟨by omega, hc⟩, hcs⟩⟩
            rw [List.map_cons, ← hchars, Word.char_of_ofChar? hword]
            rfl

/-- What was checked of a string that is read. -/
theorem parts_of_decode {s : List Char} {d : Decoded} (h : decode s = .ok d) :
    ∃ hrp rest seen ws, split? s = some (hrp, rest) ∧ checkHrp hrp = .ok seen ∧
      readWords seen rest = .ok ws ∧ checksumLength ≤ ws.length ∧
      variant? (lowercase hrp) ws = some d.variant ∧ d.hrp = lowercase hrp ∧
      d.data = ws.take (ws.length - checksumLength) := by
  simp only [decode, bind, Except.bind] at h
  split at h
  · rename_i hrp rest hsplit
    split at h
    · cases h
    · rename_i seen hcheck
      split at h
      · cases h
      · rename_i ws hread
        split at h
        · cases h
        · rename_i hlength
          split at h
          · cases h
          · rename_i variant hvariant
            cases h
            exact ⟨hrp, rest, seen, ws, hsplit, hcheck, hread, Nat.le_of_not_lt hlength, hvariant,
              rfl, rfl⟩
  · cases h

/-! ## The two strings that are read alike -/

theorem residue_of_variant? {hrp : List Char} {ws : List Word} {variant : Variant}
    (h : variant? hrp ws = some variant) : remainder (expand hrp ++ ws) = variant.residue := by
  unfold variant? at h
  simp only at h
  split at h
  · rename_i hresidue
    cases h
    exact hresidue
  · split at h
    · rename_i hresidue
      cases h
      exact hresidue
    · cases h

/-- What is read was written, in lower case or in upper case. -/
theorem exists_encode_of_decode {s : List Char} {d : Decoded} (h : decode s = .ok d) :
    lowercase d.hrp = d.hrp ∧
      ∃ e, encode d.hrp d.data d.variant = .ok e ∧ (s = e ∨ s = uppercase e) := by
  obtain ⟨hrp, rest, seen, ws, hsplit, hcheck, hread, hlength, hvariant, hd, hdata⟩ :=
    parts_of_decode h
  obtain ⟨hrest, k, hk, hchars⟩ := chars_of_readWords hread
  have hhrp := isHrp_of_checkHrp hcheck
  have hlower : lowercase d.hrp = d.hrp := by rw [hd, lowercase_lowercase hhrp]
  -- the words behind the data can only be the checksum
  have hresidue := residue_of_variant? hvariant
  rw [← List.take_append_drop (ws.length - checksumLength) ws, ← hdata, ← hd] at hresidue
  have hchecksum := eq_checksum (by rw [List.length_drop]; omega) hresidue
  have hwords : ws = wordsOf d.hrp d.data d.variant := by
    rw [wordsOf, hlower, ← hchecksum, hdata, List.take_append_drop]
  have hs := eq_append_of_split? hsplit
  have hlowercase :
      lowercase s = d.hrp ++ '1' :: (wordsOf d.hrp d.data d.variant).map Word.char := by
    rw [hs, ← hwords, ← hrest, hd]
    simp [lowercase]
  refine ⟨hlower, lowercase s, encode_eq_ok_iff.mpr ⟨?_, by rw [hlower, hlowercase]⟩, ?_⟩
  · rw [hd]
    exact isHrp_lowercase hhrp
  · obtain ⟨-, hletters⟩ := chars_of_checkHrp hcheck hk
    apply eq_lowercase_or_uppercase
    intro c hc
    rw [hs, List.mem_append, List.mem_cons] at hc
    rcases hc with hc | rfl | hc
    · exact ⟨hhrp.ascii hc, (hletters c hc).2⟩
    · exact ⟨by decide, .inl rfl⟩
    · exact hchars c hc

/-- What is written is read also in upper case. -/
theorem decode_uppercase {hrp : List Char} {data : List Word} {variant : Variant} {s : List Char}
    (h : encode hrp data variant = .ok s) :
    decode (uppercase s) = .ok ⟨lowercase hrp, data, variant⟩ := by
  obtain ⟨hhrp, rfl⟩ := encode_eq_ok_iff.mp h
  have hlower := isHrp_lowercase hhrp
  obtain ⟨seen, hcheck, hseen⟩ :=
    checkHrp_of_isHrp (isHrp_uppercase hlower) (upper_allows_uppercase hlower)
  -- the separator has no case, and no word is written with it
  have hsplit :
      split? (uppercase (lowercase hrp ++ '1' :: (wordsOf hrp data variant).map Word.char)) =
        some (uppercase (lowercase hrp),
          (wordsOf hrp data variant).map fun w => w.char.toUpper) := by
    have hseparator : '1' ∉ (wordsOf hrp data variant).map fun w => w.char.toUpper := by
      intro hmem
      obtain ⟨w, -, hw⟩ := List.mem_map.mp hmem
      exact w.upper_char.2.2.2 hw
    rw [← split?_append hseparator]
    simp [uppercase, Function.comp_def]
  have hlength := length_wordsOf hrp data variant
  have hfold : lowercase (uppercase (lowercase hrp)) = lowercase hrp := by
    rw [lowercase_uppercase fun c hc => hlower.ascii hc, lowercase_lowercase hhrp]
  -- the checksum is over the part in lower case, whichever was read
  have hvariant : variant? (lowercase (uppercase (lowercase hrp))) (wordsOf hrp data variant) =
      some variant := by
    rw [hfold]
    exact variant?_checksum variant (lowercase hrp) data
  have hread := readWords_map (fun w : Word => ⟨w.upper_char.1, upper_allows w.upper_char.2.1,
    w.upper_char.2.2.1⟩) hseen (wordsOf hrp data variant)
  rw [decode_of_parts hsplit hcheck hread (by omega) hvariant, hfold, hlength, Nat.add_sub_cancel,
    wordsOf, List.take_left]

/-- Exactly two strings are read as a human-readable part in lower case with its data: what is
written of them, and this in upper case. -/
theorem decode_iff {s : List Char} {d : Decoded} :
    decode s = .ok d ↔ lowercase d.hrp = d.hrp ∧
      ∃ e, encode d.hrp d.data d.variant = .ok e ∧ (s = e ∨ s = uppercase e) := by
  constructor
  · exact exists_encode_of_decode
  · rintro ⟨hlower, e, hencode, rfl | rfl⟩
    · rw [decode_encode hencode, hlower]
    · rw [decode_uppercase hencode, hlower]

end ContractHost.Bech32
