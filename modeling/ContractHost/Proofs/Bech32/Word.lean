import ContractHost.Bech32.Word

/-!
# Regrouping is undone exactly

Bytes become words by way of their bits: `wordsOfBits` keeps the bits and fills them up with fewer
than five zeros (`bits_wordsOfBits`), and `bytesOfBits?` takes whole bytes in front of such a
filling (`bytesOfBits?_append`). So `ofWords?` undoes `toWords` (`ofWords?_toWords`), whatever
number of bits is left over at the end.

It takes nothing else: bits of which bytes are taken end with a filling (`bits_of_bytesOfBits?`),
and in whole words only one filling is possible, so the words are those of the bytes
(`toWords_of_ofWords?`).
-/

namespace ContractHost.Bech32

/-! ## Characters of words -/

/-- A word is read back from its character. -/
theorem Word.ofChar?_char (w : Word) : Word.ofChar? w.char = some w := by
  revert w
  decide

theorem Word.char_injective {v w : Word} (h : v.char = w.char) : v = w := by
  have hread := Word.ofChar?_char v
  rw [h, Word.ofChar?_char, Option.some.injEq] at hread
  exact hread.symm

/-- No word has the character of the separator. -/
theorem Word.char_ne_separator (w : Word) : w.char ≠ '1' := by
  revert w
  decide

theorem Word.char_ascii (w : Word) : w.char.toNat < 128 := by
  revert w
  decide

/-- The characters of words are those of lower case. -/
theorem Word.toLower_char (w : Word) : w.char.toLower = w.char := by
  revert w
  decide

/-! ## Bits -/

theorem wordBits_word (a b c d e : Bool) : wordBits (word a b c d e) = [a, b, c, d, e] := by
  revert a b c d e
  decide

/-- The bits of words that were made of bits are these and a filling. -/
theorem bits_wordsOfBits (bits : List Bool) :
    ∃ n < 5, (wordsOfBits bits).flatMap wordBits = bits ++ List.replicate n false := by
  -- the words are made of five bits at a time
  induction bits using wordsOfBits.induct with
  | case1 => exact ⟨0, by omega, rfl⟩
  | case2 a => exact ⟨4, by omega, by simp [wordsOfBits, wordBits_word, List.replicate]⟩
  | case3 a b => exact ⟨3, by omega, by simp [wordsOfBits, wordBits_word, List.replicate]⟩
  | case4 a b c => exact ⟨2, by omega, by simp [wordsOfBits, wordBits_word, List.replicate]⟩
  | case5 a b c d => exact ⟨1, by omega, by simp [wordsOfBits, wordBits_word, List.replicate]⟩
  | case6 a b c d e rest ih =>
    obtain ⟨n, hn, hrest⟩ := ih
    refine ⟨n, hn, ?_⟩
    rw [wordsOfBits, List.flatMap_cons, wordBits_word, hrest]
    rfl

/-- A byte is the number that its bits denote. -/
theorem ofNat_bitsValue_byteBits (b : UInt8) : UInt8.ofNat (bitsValue (byteBits b)) = b := by
  have hall : ∀ v : BitVec 8, UInt8.ofNat (bitsValue (byteBits (.ofBitVec v))) = .ofBitVec v := by
    decide +kernel
  exact hall b.toBitVec

/-- Whole bytes in front of a filling are taken. -/
theorem bytesOfBits?_append (bs : Bytes) {n : Nat} (hn : n < 5) :
    bytesOfBits? (bs.flatMap byteBits ++ List.replicate n false) = some bs := by
  induction bs with
  | nil =>
    match n, hn with
    | 0, _ | 1, _ | 2, _ | 3, _ | 4, _ => rfl
  | cons b bs ih =>
    obtain ⟨b₀, b₁, b₂, b₃, b₄, b₅, b₆, b₇, hbits⟩ :
      ∃ b₀ b₁ b₂ b₃ b₄ b₅ b₆ b₇, byteBits b = [b₀, b₁, b₂, b₃, b₄, b₅, b₆, b₇] :=
        ⟨_, _, _, _, _, _, _, _, rfl⟩
    have hvalue := ofNat_bitsValue_byteBits b
    rw [hbits] at hvalue
    rw [List.flatMap_cons, hbits, List.append_assoc]
    simp only [List.cons_append, List.nil_append, bytesOfBits?]
    rw [ih, hvalue, Option.map_some]

/-- Bytes regrouped into words are regrouped back. -/
theorem ofWords?_toWords (bs : Bytes) : ofWords? (toWords bs) = some bs := by
  obtain ⟨n, hn, hbits⟩ := bits_wordsOfBits (bs.flatMap byteBits)
  rw [ofWords?, toWords, hbits, bytesOfBits?_append bs hn]

/-! ## Words that are regrouped into bytes -/

theorem length_byteBits (b : UInt8) : (byteBits b).length = 8 := by
  simp [byteBits]

theorem length_wordBits (w : Word) : (wordBits w).length = 5 := by
  simp [wordBits]

/-- Bytes have eight bits each. -/
theorem length_bits_of_bytes (bs : Bytes) : (bs.flatMap byteBits).length = 8 * bs.length := by
  induction bs with
  | nil => rfl
  | cons b bs ih =>
    rw [List.flatMap_cons, List.length_append, length_byteBits, ih, List.length_cons]
    omega

/-- Words have five. -/
theorem length_bits_of_words (ws : List Word) : (ws.flatMap wordBits).length = 5 * ws.length := by
  induction ws with
  | nil => rfl
  | cons w ws ih =>
    rw [List.flatMap_cons, List.length_append, length_wordBits, ih, List.length_cons]
    omega

/-- A word is told by its bits. -/
theorem wordBits_injective {v w : Word} (h : wordBits v = wordBits w) : v = w := by
  revert v w
  decide

/-- Words in a row are told by their bits. -/
theorem bits_of_words_injective {vs ws : List Word}
    (h : vs.flatMap wordBits = ws.flatMap wordBits) : vs = ws := by
  induction vs generalizing ws with
  | nil =>
    have hlength := congrArg List.length h
    rw [length_bits_of_words, length_bits_of_words, List.length_nil] at hlength
    exact (List.length_eq_zero_iff.mp (by omega)).symm
  | cons v vs ih =>
    cases ws with
    | nil =>
      have hlength := congrArg List.length h
      rw [length_bits_of_words, length_bits_of_words, List.length_cons, List.length_nil] at hlength
      omega
    | cons w ws =>
      rw [List.flatMap_cons, List.flatMap_cons] at h
      obtain ⟨hword, hrest⟩ := List.append_inj h (by rw [length_wordBits, length_wordBits])
      rw [wordBits_injective hword, ih hrest]

theorem byteBits_ofNat_bitsValue : ∀ a b c d e f g h : Bool,
    byteBits (UInt8.ofNat (bitsValue [a, b, c, d, e, f, g, h])) = [a, b, c, d, e, f, g, h] := by
  decide

/-- Bits of which bytes are taken are the bits of these and a filling. -/
theorem bits_of_bytesOfBits? {bits : List Bool} {bs : Bytes} (h : bytesOfBits? bits = some bs) :
    ∃ n < 5, bits = bs.flatMap byteBits ++ List.replicate n false := by
  induction bits using bytesOfBits?.induct generalizing bs with
  | case1 b₀ b₁ b₂ b₃ b₄ b₅ b₆ b₇ rest ih =>
    rw [bytesOfBits?] at h
    obtain ⟨bs', hrest, rfl⟩ := Option.map_eq_some_iff.mp h
    obtain ⟨n, hn, hbits⟩ := ih hrest
    refine ⟨n, hn, ?_⟩
    rw [List.flatMap_cons, byteBits_ofNat_bitsValue, List.append_assoc, ← hbits]
    rfl
  | case2 rest hshort hfilling =>
    rw [bytesOfBits?.eq_2 _ hshort, if_pos hfilling] at h
    cases h
    refine ⟨rest.length, hfilling.1, ?_⟩
    rw [List.flatMap_nil, List.nil_append, List.eq_replicate_iff]
    exact ⟨rfl, fun b hb => by simpa using List.all_eq_true.mp hfilling.2 b hb⟩
  | case3 rest hshort hfilling =>
    rw [bytesOfBits?.eq_2 _ hshort, if_neg hfilling] at h
    cases h

/-- Words that are regrouped into bytes are what these are regrouped into. -/
theorem toWords_of_ofWords? {ws : List Word} {bs : Bytes} (h : ofWords? ws = some bs) :
    toWords bs = ws := by
  obtain ⟨n, hn, hbits⟩ := bits_of_bytesOfBits? h
  obtain ⟨m, hm, hwords⟩ := bits_wordsOfBits (bs.flatMap byteBits)
  -- both are whole words, so the fillings are equally long
  have hlength := congrArg List.length hbits
  have hlength' := congrArg List.length hwords
  rw [length_bits_of_words, List.length_append, List.length_replicate] at hlength hlength'
  have hfilling : m = n := by omega
  apply bits_of_words_injective
  rw [toWords, hwords, hfilling, hbits]

/-- Less than one word is filled up with zeros. -/
theorem length_toWords (bs : Bytes) : 5 * (toWords bs).length < 8 * bs.length + 5 := by
  obtain ⟨n, hn, hbits⟩ := bits_wordsOfBits (bs.flatMap byteBits)
  have hlength := congrArg List.length hbits
  rw [length_bits_of_words, List.length_append, List.length_replicate, length_bits_of_bytes]
    at hlength
  rw [toWords]
  omega

end ContractHost.Bech32
