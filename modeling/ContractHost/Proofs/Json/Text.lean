import ContractHost.Json.Text
import ContractHost.Proofs.Utf8

/-!
# JSON strings are read as they are written

The text between the quotes is read character by character: one that had to be escaped as the code
unit that its escape names, and any other as the bytes that it has (`charPieces`). Both spell the
character again, so a string is read as the text that was written (`text?_textPieces`).
-/

namespace ContractHost.Json

open Utf8 (encode encodeChar)

/-- Has a character to be escaped? -/
def IsSpecial (c : Char) : Prop := c = '"' ∨ c = '\\' ∨ c.toNat < 0x20

instance decidableIsSpecial (c : Char) : Decidable (IsSpecial c) :=
  inferInstanceAs (Decidable (_ ∨ _ ∨ _))

/-- The pieces as which a character is read. -/
def charPieces (c : Char) : List Piece :=
  if IsSpecial c then [.unit c.toNat] else (encodeChar c).map .raw

/-- The pieces as which a text is read. -/
def textPieces (s : String) : List Piece := s.toList.flatMap charPieces

/-! ## From text to pieces -/

section
variable (rest : Bytes) (ps : List Piece)

theorem pieces?_quote : pieces? (0x22 :: rest) ps = some (ps.reverse, rest) := by
  rw [pieces?.eq_def]
  rfl

theorem pieces?_byte {b : UInt8} (h : b ≠ 0x22 ∧ b ≠ 0x5C ∧ ¬ b < 0x20) :
    pieces? (b :: rest) ps = pieces? rest (.raw b :: ps) := by
  rw [pieces?.eq_def]
  simp only [h, if_false]

theorem pieces?_letter {e : UInt8} {u : Nat} (he : e ≠ 0x75) (hu : escape? e = some u) :
    pieces? (0x5C :: e :: rest) ps = pieces? rest (.unit u :: ps) := by
  rw [pieces?.eq_def]
  simp [he, hu]

theorem pieces?_digits {a b c d : UInt8} {u : Nat} (hu : hexUnit? a b c d = some u) :
    pieces? (0x5C :: 0x75 :: a :: b :: c :: d :: rest) ps = pieces? rest (.unit u :: ps) := by
  rw [pieces?.eq_def]
  simp [hu]

end

/-- Bytes that mean nothing to a string are read as they are. -/
theorem pieces?_raw {bs : Bytes} (h : ∀ b ∈ bs, b ≠ 0x22 ∧ b ≠ 0x5C ∧ ¬ b < 0x20) (rest : Bytes)
    (ps : List Piece) : pieces? (bs ++ rest) ps = pieces? rest ((bs.map .raw).reverse ++ ps) := by
  induction bs generalizing ps with
  | nil => rfl
  | cons b bs ih =>
    obtain ⟨hb, hbs⟩ := List.forall_mem_cons.mp h
    rw [List.cons_append, pieces?_byte _ _ hb, ih hbs, List.map_cons, List.reverse_cons,
      List.append_assoc, List.singleton_append]

/-- A character that has not to be escaped has only such bytes. -/
theorem plain_of_mem_encodeChar {c : Char} (hc : ¬ IsSpecial c) {b : UInt8}
    (hb : b ∈ encodeChar c) : b ≠ 0x22 ∧ b ≠ 0x5C ∧ ¬ b < 0x20 := by
  unfold IsSpecial at hc
  simp only [not_or, Nat.not_lt] at hc
  obtain ⟨hquote, hslash, hcontrol⟩ := hc
  have hnat : b.toNat ≠ 0x22 ∧ b.toNat ≠ 0x5C ∧ 0x20 ≤ b.toNat := by
    by_cases hascii : c.toNat < 0x80
    · -- the one byte is the character
      have hone : encodeChar c = [UInt8.ofNat c.toNat] := if_pos hascii
      rw [hone, List.mem_singleton] at hb
      have hbyte : b.toNat = c.toNat := by
        rw [hb, Utf8.toNat_ofNat_of_lt (by omega)]
      rw [hbyte]
      refine ⟨fun h => hquote ?_, fun h => hslash ?_, hcontrol⟩
      · exact Char.toNat_inj.mp h
      · exact Char.toNat_inj.mp h
    · have hge := Utf8.le_of_mem_encodeChar (Nat.le_of_not_lt hascii) hb
      omega
  refine ⟨?_, ?_, ?_⟩
  · rintro rfl
    exact hnat.1 rfl
  · rintro rfl
    exact hnat.2.1 rfl
  · intro hlt
    have hlt : b.toNat < 0x20 := hlt
    omega

/-- The digits of an escape spell the number of a control character. -/
theorem hexUnit?_control : ∀ n < 0x20,
    hexUnit? 0x30 0x30 (UInt8.ofNat (hexChar (n / 16)).toNat) (UInt8.ofNat (hexChar n).toNat) =
      some n := by decide

theorem hexChar_ascii (n : Nat) : (hexChar n).toNat < 0x80 := by
  have hall : ∀ k < 16, (Nat.digitChar k).toNat < 0x80 := by decide
  exact hall (n % 16) (Nat.mod_lt n (by decide))

/-- The letters of escapes, and what stands for it in a text. -/
theorem pieces?_pair {letter : Char} {u : Nat} (hascii : letter.toNat < 0x80)
    (hletter : UInt8.ofNat letter.toNat ≠ 0x75) (hu : escape? (UInt8.ofNat letter.toNat) = some u)
    (rest : Bytes) (ps : List Piece) :
    pieces? (encode ['\\', letter] ++ rest) ps = pieces? rest (.unit u :: ps) := by
  have hbytes : encode ['\\', letter] = [0x5C, UInt8.ofNat letter.toNat] := by
    rw [Utf8.encode_of_ascii]
    · rfl
    · simp [hascii]
  rw [hbytes]
  exact pieces?_letter rest ps hletter hu

/-- An escape is read as the code unit that it names. -/
theorem pieces?_special {c : Char} (hc : IsSpecial c) (rest : Bytes) (ps : List Piece) :
    pieces? (encode (escape c) ++ rest) ps = pieces? rest (.unit c.toNat :: ps) := by
  unfold escape
  by_cases hquote : c = '"'
  · rw [if_pos hquote, hquote]
    exact pieces?_pair (by decide) (by decide) (by decide) rest ps
  by_cases hslash : c = '\\'
  · rw [if_neg hquote, if_pos hslash, hslash]
    exact pieces?_pair (by decide) (by decide) (by decide) rest ps
  have hcontrol : c.toNat < 0x20 := by
    rcases hc with h | h | h
    · exact absurd h hquote
    · exact absurd h hslash
    · exact h
  rw [if_neg hquote, if_neg hslash, if_neg (Nat.not_le.mpr hcontrol)]
  -- five control characters have a letter
  iterate 5
    split
    · rename_i h
      rw [h]
      exact pieces?_pair (by decide) (by decide) (by decide) rest ps
  -- the others have digits
  · have hbytes : encode ['\\', 'u', '0', '0', hexChar (c.toNat / 16), hexChar c.toNat] =
        [0x5C, 0x75, 0x30, 0x30, UInt8.ofNat (hexChar (c.toNat / 16)).toNat,
          UInt8.ofNat (hexChar c.toNat).toNat] := by
      rw [Utf8.encode_of_ascii]
      · rfl
      · simp [hexChar_ascii]
    rw [hbytes]
    exact pieces?_digits rest ps (hexUnit?_control c.toNat hcontrol)

theorem escape_of_not_isSpecial {c : Char} (hc : ¬ IsSpecial c) : escape c = [c] := by
  unfold IsSpecial at hc
  simp only [not_or, Nat.not_lt] at hc
  rw [escape, if_neg hc.1, if_neg hc.2.1, if_pos hc.2.2]

/-- A character is read as its pieces. -/
theorem pieces?_escape (c : Char) (rest : Bytes) (ps : List Piece) :
    pieces? (encode (escape c) ++ rest) ps = pieces? rest ((charPieces c).reverse ++ ps) := by
  unfold charPieces
  by_cases hc : IsSpecial c
  · rw [if_pos hc, pieces?_special hc]
    rfl
  · have hescape : encode (escape c) = encodeChar c := by
      rw [escape_of_not_isSpecial hc, Utf8.encode_cons]
      exact List.append_nil _
    rw [if_neg hc, hescape]
    exact pieces?_raw (fun b hb => plain_of_mem_encodeChar hc hb) rest ps

theorem pieces?_encode (cs : List Char) (rest : Bytes) (ps : List Piece) :
    pieces? (encode (cs.flatMap escape) ++ 0x22 :: rest) ps =
      some (ps.reverse ++ cs.flatMap charPieces, rest) := by
  induction cs generalizing ps with
  | nil =>
    simp only [List.flatMap_nil, List.append_nil]
    exact pieces?_quote rest ps
  | cons c cs ih =>
    rw [List.flatMap_cons, Utf8.encode_append, List.append_assoc, pieces?_escape, ih,
      List.reverse_append, List.reverse_reverse, List.flatMap_cons, List.append_assoc]

/-- A text is read as its pieces from behind the quote that opens it. -/
theorem pieces?_text (s : String) (rest : Bytes) :
    pieces? (encode (s.toList.flatMap escape) ++ 0x22 :: rest) [] = some (textPieces s, rest) :=
  pieces?_encode s.toList rest []

theorem encode_quoted (s : String) :
    encode (quoted s) = 0x22 :: (encode (s.toList.flatMap escape) ++ [0x22]) := by
  rw [quoted, Utf8.encode_cons, Utf8.encode_append]
  rfl

/-! ## From pieces to text -/

theorem spell?_raw (bs : Bytes) (ps : List Piece) (read : Bytes) :
    spell? (bs.map .raw ++ ps) read = spell? ps (bs.reverse ++ read) := by
  induction bs generalizing read with
  | nil => rfl
  | cons b bs ih =>
    rw [List.map_cons, List.cons_append, spell?, ih, List.reverse_cons, List.append_assoc,
      List.singleton_append]

/-- A code unit that is no surrogate is a character by itself. -/
theorem spell?_unit {u : Nat} (hlow : isLowSurrogate u = false) (hhigh : isHighSurrogate u = false)
    (ps : List Piece) (read : Bytes) :
    spell? (.unit u :: ps) read = spell? ps ((encodeChar (Char.ofNat u)).reverse ++ read) := by
  rw [spell?.eq_def]
  simp [hlow, hhigh]

/-- The pieces of a character spell its bytes. -/
theorem spell?_charPieces (c : Char) (ps : List Piece) (read : Bytes) :
    spell? (charPieces c ++ ps) read = spell? ps ((encodeChar c).reverse ++ read) := by
  unfold charPieces
  by_cases hc : IsSpecial c
  · have hsmall : c.toNat < 0x80 := by
      rcases hc with rfl | rfl | h
      · decide
      · decide
      · omega
    have hlow : isLowSurrogate c.toNat = false := by
      simp only [isLowSurrogate, Bool.and_eq_false_iff, decide_eq_false_iff_not]
      omega
    have hhigh : isHighSurrogate c.toNat = false := by
      simp only [isHighSurrogate, Bool.and_eq_false_iff, decide_eq_false_iff_not]
      omega
    rw [if_pos hc, List.singleton_append, spell?_unit hlow hhigh, Char.ofNat_toNat]
  · rw [if_neg hc, spell?_raw]

theorem spell?_flatMap (cs : List Char) (read : Bytes) :
    spell? (cs.flatMap charPieces) read = some (read.reverse ++ encode cs) := by
  induction cs generalizing read with
  | nil => simp [spell?, encode]
  | cons c cs ih =>
    rw [List.flatMap_cons, spell?_charPieces, ih, List.reverse_append, List.reverse_reverse,
      Utf8.encode_cons, List.append_assoc]

/-- The pieces of a text are read as that text. -/
theorem text?_textPieces (s : String) : text? (textPieces s) = some s := by
  have hdecode : Utf8.decode (encode s.toList) = .ok s.toList :=
    Utf8.decode_iff_eq_encode.mpr rfl
  rw [text?, textPieces, spell?_flatMap, List.reverse_nil, List.nil_append]
  simp only [hdecode, Except.toOption, Option.map_some, String.ofList_toList]

end ContractHost.Json
