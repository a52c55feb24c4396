import ContractHost.Text.Utf8

/-!
# UTF-8 is read exactly as it is written

`decode` reads a byte string as a text exactly if the byte string is what `encode` writes of it
(`decode_iff_eq_encode`). From the text to its bytes, a reader takes the bytes of one character
after the other (`foldl_push_encode`). From the bytes to their text, a reader that met nothing
ill-formed has taken the bytes of its characters and, inside of a character, the first bytes of that
one: `Reader.Took`, which every byte keeps (`Reader.Took.push`).

The first byte of a character tells how many go on with it, and cannot be one of those
(`exists_lead`). So a text that begins with the bytes of a character begins with the character
(`exists_of_encodeChar_append`).
-/

namespace ContractHost.Utf8

/-! ## Characters and their bytes -/

theorem toNat_charOfNat {n : Nat} (h : n.isValidChar) : (Char.ofNat n).toNat = n := by
  rw [Char.ofNat, dif_pos h]
  rfl

theorem toNat_ofNat_of_lt {n : Nat} (h : n < 256) : (UInt8.ofNat n).toNat = n := by
  rw [UInt8.toNat_ofNat']
  exact Nat.mod_eq_of_lt h

theorem ofNat_eq_of_toNat_eq {n : Nat} {b : UInt8} (h : b.toNat = n) : UInt8.ofNat n = b := by
  rw [← h, UInt8.ofNat_toNat]

section
variable {b₀ b₁ b₂ b₃ : UInt8}

theorem encodeChar_one (h₀ : b₀.toNat < 0x80) : encodeChar (Char.ofNat b₀.toNat) = [b₀] := by
  have hn := toNat_charOfNat (n := b₀.toNat) (by unfold Nat.isValidChar; omega)
  rw [encodeChar, hn, if_pos h₀, UInt8.ofNat_toNat]

theorem encodeChar_two (h₀ : 0xC2 ≤ b₀.toNat ∧ b₀.toNat < 0xE0)
    (h₁ : 0x80 ≤ b₁.toNat ∧ b₁.toNat ≤ 0xBF) :
    encodeChar (Char.ofNat ((b₀.toNat - 0xC0) * 0x40 + (b₁.toNat - 0x80))) = [b₀, b₁] := by
  generalize hn : (b₀.toNat - 0xC0) * 0x40 + (b₁.toNat - 0x80) = n
  have hchar := toNat_charOfNat (n := n) (by unfold Nat.isValidChar; omega)
  rw [encodeChar, hchar, if_neg (by omega), if_pos (by omega),
    ofNat_eq_of_toNat_eq (b := b₀) (by omega), ofNat_eq_of_toNat_eq (b := b₁) (by omega)]

/-- A second byte that is not restricted may spell a surrogate, or a value that takes fewer
bytes. -/
theorem encodeChar_three (h₀ : 0xE0 ≤ b₀.toNat ∧ b₀.toNat < 0xF0)
    (h₁ : 0x80 ≤ b₁.toNat ∧ b₁.toNat ≤ 0xBF) (h₂ : 0x80 ≤ b₂.toNat ∧ b₂.toNat ≤ 0xBF)
    (hlow : b₀.toNat = 0xE0 → 0xA0 ≤ b₁.toNat) (hhigh : b₀.toNat = 0xED → b₁.toNat ≤ 0x9F) :
    encodeChar (Char.ofNat
      (((b₀.toNat - 0xE0) * 0x40 + (b₁.toNat - 0x80)) * 0x40 + (b₂.toNat - 0x80))) =
        [b₀, b₁, b₂] := by
  generalize hn : ((b₀.toNat - 0xE0) * 0x40 + (b₁.toNat - 0x80)) * 0x40 + (b₂.toNat - 0x80) = n
  have hchar := toNat_charOfNat (n := n) (by unfold Nat.isValidChar; omega)
  rw [encodeChar, hchar, if_neg (by omega), if_neg (by omega), if_pos (by omega),
    ofNat_eq_of_toNat_eq (b := b₀) (by omega), ofNat_eq_of_toNat_eq (b := b₁) (by omega),
    ofNat_eq_of_toNat_eq (b := b₂) (by omega)]

theorem encodeChar_four (h₀ : 0xF0 ≤ b₀.toNat ∧ b₀.toNat < 0xF5)
    (h₁ : 0x80 ≤ b₁.toNat ∧ b₁.toNat ≤ 0xBF) (h₂ : 0x80 ≤ b₂.toNat ∧ b₂.toNat ≤ 0xBF)
    (h₃ : 0x80 ≤ b₃.toNat ∧ b₃.toNat ≤ 0xBF)
    (hlow : b₀.toNat = 0xF0 → 0x90 ≤ b₁.toNat) (hhigh : b₀.toNat = 0xF4 → b₁.toNat ≤ 0x8F) :
    encodeChar (Char.ofNat
      ((((b₀.toNat - 0xF0) * 0x40 + (b₁.toNat - 0x80)) * 0x40 + (b₂.toNat - 0x80)) * 0x40 +
        (b₃.toNat - 0x80))) = [b₀, b₁, b₂, b₃] := by
  generalize hn : (((b₀.toNat - 0xF0) * 0x40 + (b₁.toNat - 0x80)) * 0x40 +
    (b₂.toNat - 0x80)) * 0x40 + (b₃.toNat - 0x80) = n
  have hchar := toNat_charOfNat (n := n) (by unfold Nat.isValidChar; omega)
  rw [encodeChar, hchar, if_neg (by omega), if_neg (by omega), if_neg (by omega),
    ofNat_eq_of_toNat_eq (b := b₀) (by omega), ofNat_eq_of_toNat_eq (b := b₁) (by omega),
    ofNat_eq_of_toNat_eq (b := b₂) (by omega), ofNat_eq_of_toNat_eq (b := b₃) (by omega)]

end

theorem encode_append (cs ds : List Char) : encode (cs ++ ds) = encode cs ++ encode ds :=
  List.flatMap_append

theorem encode_cons (c : Char) (cs : List Char) : encode (c :: cs) = encodeChar c ++ encode cs :=
  List.flatMap_cons

/-- The bytes of an ASCII text are its characters. -/
theorem encode_of_ascii {cs : List Char} (h : ∀ c ∈ cs, c.toNat < 0x80) :
    encode cs = cs.map fun c => UInt8.ofNat c.toNat := by
  induction cs with
  | nil => rfl
  | cons c cs ih =>
    have hc : encodeChar c = [UInt8.ofNat c.toNat] := if_pos (h c List.mem_cons_self)
    rw [encode, List.flatMap_cons, ← encode, hc, List.map_cons,
      ih fun d hd => h d (List.mem_cons_of_mem c hd), List.singleton_append]

theorem encodeChar_ne_nil (c : Char) : encodeChar c ≠ [] := by
  unfold encodeChar
  simp only
  repeat' split
  all_goals exact List.cons_ne_nil _ _

/-- All bytes of any other character are 0x80 at least. -/
theorem le_of_mem_encodeChar {c : Char} {b : UInt8} (hc : 0x80 ≤ c.toNat)
    (hb : b ∈ encodeChar c) : 0x80 ≤ b.toNat := by
  have hvalid : c.toNat.isValidChar := c.valid
  unfold Nat.isValidChar at hvalid
  have hbyte {n : Nat} (hn : n < 256) (hle : 0x80 ≤ n) (hb : b = UInt8.ofNat n) :
      0x80 ≤ b.toNat := by
    rw [hb, toNat_ofNat_of_lt hn]
    exact hle
  unfold encodeChar at hb
  simp only at hb
  rw [if_neg (Nat.not_lt.mpr hc)] at hb
  split at hb
  · simp only [List.mem_cons, List.not_mem_nil, or_false] at hb
    rcases hb with hb | hb
    all_goals exact hbyte (by omega) (by omega) hb
  split at hb
  · simp only [List.mem_cons, List.not_mem_nil, or_false] at hb
    rcases hb with hb | hb | hb
    all_goals exact hbyte (by omega) (by omega) hb
  · simp only [List.mem_cons, List.not_mem_nil, or_false] at hb
    rcases hb with hb | hb | hb | hb
    all_goals exact hbyte (by omega) (by omega) hb

/-- A text whose bytes are all ASCII is ASCII itself. -/
theorem ascii_of_encode {cs : List Char} (h : ∀ b ∈ encode cs, b.toNat < 0x80) {c : Char}
    (hc : c ∈ cs) : c.toNat < 0x80 := by
  refine Decidable.byContradiction fun hnot => ?_
  obtain ⟨b, hb⟩ := List.exists_mem_of_ne_nil _ (encodeChar_ne_nil c)
  have hge := le_of_mem_encodeChar (Nat.le_of_not_lt hnot) hb
  have hlt := h b (List.mem_flatMap.mpr ⟨c, hc, hb⟩)
  omega

/-! ## What one byte does to a reader -/

section
variable (items : List Item) {b : UInt8}

theorem push_ascii (h : b.toNat < 0x80) :
    Reader.push ⟨.start, items⟩ b = ⟨.start, .char (Char.ofNat b.toNat) :: items⟩ := by
  simp only [Reader.push, Reader.begin, first, if_pos h]

theorem push_two (h : 0xC2 ≤ b.toNat ∧ b.toNat < 0xE0) :
    Reader.push ⟨.start, items⟩ b = ⟨.inside 1 1 0x80 0xBF (b.toNat - 0xC0), items⟩ := by
  simp only [Reader.push, Reader.begin, first]
  rw [if_neg (by omega), if_neg (by omega), if_pos (by omega)]

theorem push_three (h : 0xE0 ≤ b.toNat ∧ b.toNat < 0xF0) :
    Reader.push ⟨.start, items⟩ b =
      ⟨.inside 1 2 (if b.toNat = 0xE0 then 0xA0 else 0x80) (if b.toNat = 0xED then 0x9F else 0xBF)
        (b.toNat - 0xE0), items⟩ := by
  simp only [Reader.push, Reader.begin, first]
  rw [if_neg (by omega), if_neg (by omega), if_neg (by omega), if_pos (by omega)]

theorem push_four (h : 0xF0 ≤ b.toNat ∧ b.toNat < 0xF5) :
    Reader.push ⟨.start, items⟩ b =
      ⟨.inside 1 3 (if b.toNat = 0xF0 then 0x90 else 0x80) (if b.toNat = 0xF4 then 0x8F else 0xBF)
        (b.toNat - 0xF0), items⟩ := by
  simp only [Reader.push, Reader.begin, first]
  rw [if_neg (by omega), if_neg (by omega), if_neg (by omega), if_neg (by omega),
    if_pos (by omega)]

theorem push_invalid (h : 0x80 ≤ b.toNat ∧ b.toNat < 0xC2 ∨ 0xF5 ≤ b.toNat) :
    Reader.push ⟨.start, items⟩ b = ⟨.start, .invalid 1 :: items⟩ := by
  simp only [Reader.push, Reader.begin, first]
  rcases h with h | h
  · rw [if_neg (by omega), if_pos h.2]
  · rw [if_neg (by omega), if_neg (by omega), if_neg (by omega), if_neg (by omega),
      if_neg (by omega)]

variable {taken owed low high code : Nat}

/-- The last byte of a character completes it. -/
theorem push_last (h : low ≤ b.toNat ∧ b.toNat ≤ high) (howed : owed ≤ 1) :
    Reader.push ⟨.inside taken owed low high code, items⟩ b =
      ⟨.start, .char (Char.ofNat (code * 0x40 + (b.toNat - 0x80))) :: items⟩ := by
  simp only [Reader.push, if_pos h, if_pos howed]

/-- Of the bytes of a character only the second one is restricted. -/
theorem push_more (h : low ≤ b.toNat ∧ b.toNat ≤ high) (howed : 0 < owed) :
    Reader.push ⟨.inside taken (owed + 1) low high code, items⟩ b =
      ⟨.inside (taken + 1) owed 0x80 0xBF (code * 0x40 + (b.toNat - 0x80)), items⟩ := by
  simp only [Reader.push, if_pos h]
  rw [if_neg (by omega), Nat.add_sub_cancel]

/-- A byte that does not go on with a character leaves it behind as ill-formed. -/
theorem mem_push_of_not_within (h : ¬ (low ≤ b.toNat ∧ b.toNat ≤ high)) :
    .invalid taken ∈ (Reader.push ⟨.inside taken owed low high code, items⟩ b).items := by
  simp only [Reader.push, if_neg h, Reader.begin]
  cases first b.toNat with
  | mk state item? => cases item? <;> simp

end

/-! ## From a text to its bytes -/

/-- A reader between characters takes the bytes of a character as that character. -/
theorem foldl_push_encodeChar (c : Char) (items : List Item) :
    (encodeChar c).foldl Reader.push ⟨.start, items⟩ = ⟨.start, .char c :: items⟩ := by
  have hvalid : c.toNat.isValidChar := c.valid
  unfold Nat.isValidChar at hvalid
  -- the bytes of a character are what its number is cut into
  have hbyte : ∀ {n : Nat}, n < 256 → (UInt8.ofNat n).toNat = n := toNat_ofNat_of_lt
  unfold encodeChar
  simp only
  generalize hn : c.toNat = n at hvalid
  have hc : Char.ofNat n = c := by rw [← hn, Char.ofNat_toNat]
  split
  · rename_i h
    have h₀ := hbyte (n := n) (by omega)
    rw [List.foldl_cons, List.foldl_nil, push_ascii items (by omega), h₀, hc]
  split
  · have h₀ := hbyte (n := 0xC0 + n / 0x40) (by omega)
    have h₁ := hbyte (n := 0x80 + n % 0x40) (by omega)
    rw [List.foldl_cons, List.foldl_cons, List.foldl_nil, push_two items (by omega),
      push_last items (by omega) (by omega), h₀, h₁, ← hc,
      show (0xC0 + n / 0x40 - 0xC0) * 0x40 + (0x80 + n % 0x40 - 0x80) = n by omega]
  split
  · have h₀ := hbyte (n := 0xE0 + n / 0x1000) (by omega)
    have h₁ := hbyte (n := 0x80 + n / 0x40 % 0x40) (by omega)
    have h₂ := hbyte (n := 0x80 + n % 0x40) (by omega)
    rw [List.foldl_cons, List.foldl_cons, List.foldl_cons, List.foldl_nil,
      push_three items (by omega), push_more items (by split <;> split <;> omega) (by omega),
      push_last items (by omega) (by omega), h₀, h₁, h₂, ← hc,
      show ((0xE0 + n / 0x1000 - 0xE0) * 0x40 + (0x80 + n / 0x40 % 0x40 - 0x80)) * 0x40 +
        (0x80 + n % 0x40 - 0x80) = n by omega]
  · have h₀ := hbyte (n := 0xF0 + n / 0x40000) (by omega)
    have h₁ := hbyte (n := 0x80 + n / 0x1000 % 0x40) (by omega)
    have h₂ := hbyte (n := 0x80 + n / 0x40 % 0x40) (by omega)
    have h₃ := hbyte (n := 0x80 + n % 0x40) (by omega)
    rw [List.foldl_cons, List.foldl_cons, List.foldl_cons, List.foldl_cons, List.foldl_nil,
      push_four items (by omega), push_more items (by split <;> split <;> omega) (by omega),
      push_more items (by omega) (by omega), push_last items (by omega) (by omega), h₀, h₁, h₂, h₃,
      ← hc,
      show (((0xF0 + n / 0x40000 - 0xF0) * 0x40 + (0x80 + n / 0x1000 % 0x40 - 0x80)) * 0x40 +
        (0x80 + n / 0x40 % 0x40 - 0x80)) * 0x40 + (0x80 + n % 0x40 - 0x80) = n by omega]

theorem foldl_push_encode (cs : List Char) (items : List Item) :
    (encode cs).foldl Reader.push ⟨.start, items⟩ =
      ⟨.start, (cs.map Item.char).reverse ++ items⟩ := by
  induction cs generalizing items with
  | nil => rfl
  | cons c cs ih =>
    rw [encode, List.flatMap_cons, List.foldl_append, foldl_push_encodeChar, ← encode, ih,
      List.map_cons, List.reverse_cons, List.append_assoc, List.singleton_append]

/-! ## From bytes to their text -/

/-- Whatever bytes are still to come, with the first of them from `low` to `high`, they complete the
bytes `p` to the bytes of a character. -/
def Begins : (owed low high code : Nat) → Bytes → Prop
  | 0, _, _, code, p => encodeChar (Char.ofNat code) = p
  | owed + 1, low, high, code, p => ∀ b : UInt8, low ≤ b.toNat → b.toNat ≤ high →
    Begins owed 0x80 0xBF (code * 0x40 + (b.toNat - 0x80)) (p ++ [b])

/-- A reader in a state has taken these bytes of the character that it is inside of. -/
def State.Holds : State → Bytes → Prop
  | .start, p => p = []
  | .inside _ owed low high code, p => 0 < owed ∧ Begins owed low high code p

/-- A reader that met nothing ill-formed has taken the bytes of its characters, and those that its
state holds. -/
def Reader.Took (r : Reader) (bs : Bytes) : Prop :=
  ∀ cs : List Char, r.items = (cs.map Item.char).reverse →
    ∃ p, r.state.Holds p ∧ bs = encode cs ++ p

section
variable {b : UInt8}

theorem begins_two (h : 0xC2 ≤ b.toNat ∧ b.toNat < 0xE0) :
    Begins 1 0x80 0xBF (b.toNat - 0xC0) [b] :=
  fun _ hlow hhigh => encodeChar_two h ⟨hlow, hhigh⟩

theorem begins_three (h : 0xE0 ≤ b.toNat ∧ b.toNat < 0xF0) :
    Begins 2 (if b.toNat = 0xE0 then 0xA0 else 0x80) (if b.toNat = 0xED then 0x9F else 0xBF)
      (b.toNat - 0xE0) [b] := by
  intro b₁ hlow hhigh b₂ hlow₂ hhigh₂
  apply encodeChar_three h ⟨by split at hlow <;> omega, by split at hhigh <;> omega⟩
    ⟨hlow₂, hhigh₂⟩
  · intro hb
    rwa [if_pos hb] at hlow
  · intro hb
    rwa [if_pos hb] at hhigh

theorem begins_four (h : 0xF0 ≤ b.toNat ∧ b.toNat < 0xF5) :
    Begins 3 (if b.toNat = 0xF0 then 0x90 else 0x80) (if b.toNat = 0xF4 then 0x8F else 0xBF)
      (b.toNat - 0xF0) [b] := by
  intro b₁ hlow hhigh b₂ hlow₂ hhigh₂ b₃ hlow₃ hhigh₃
  apply encodeChar_four h ⟨by split at hlow <;> omega, by split at hhigh <;> omega⟩
    ⟨hlow₂, hhigh₂⟩ ⟨hlow₃, hhigh₃⟩
  · intro hb
    rwa [if_pos hb] at hlow
  · intro hb
    rwa [if_pos hb] at hhigh

end

theorem encode_concat (cs : List Char) (c : Char) :
    encode (cs ++ [c]) = encode cs ++ encodeChar c := by
  simp [encode]

/-- The last one of a list of characters. -/
theorem eq_concat_of_cons_eq {c : Char} {items : List Item} {cs : List Char}
    (h : .char c :: items = (cs.map Item.char).reverse) :
    ∃ cs', cs = cs' ++ [c] ∧ items = (cs'.map Item.char).reverse := by
  rw [← List.map_reverse] at h
  obtain ⟨d, ds, hcs, hc, hitems⟩ := List.map_eq_cons_iff.mp h.symm
  cases hc
  refine ⟨ds.reverse, ?_, ?_⟩
  · rw [← List.reverse_cons, ← hcs, List.reverse_reverse]
  · rw [← hitems, List.map_reverse, List.reverse_reverse]

section
variable {items : List Item} {bs : Bytes} {b : UInt8}

/-- A character that is complete is one more of those taken. -/
theorem took_char {c : Char} (h : ∀ cs : List Char, items = (cs.map Item.char).reverse →
    ∃ p, bs = encode cs ++ p ∧ encodeChar c = p ++ [b]) :
    Reader.Took ⟨.start, .char c :: items⟩ (bs ++ [b]) := by
  intro cs hcs
  obtain ⟨cs', rfl, hitems⟩ := eq_concat_of_cons_eq hcs
  obtain ⟨p, rfl, hc⟩ := h cs' hitems
  refine ⟨[], rfl, ?_⟩
  rw [encode_concat, hc, List.append_nil, List.append_assoc]

/-- A character that is not complete adds to what the state holds. -/
theorem took_inside {taken owed low high code : Nat} (howed : 0 < owed)
    (h : ∀ cs : List Char, items = (cs.map Item.char).reverse →
      ∃ p, bs = encode cs ++ p ∧ Begins owed low high code (p ++ [b])) :
    Reader.Took ⟨.inside taken owed low high code, items⟩ (bs ++ [b]) := by
  intro cs hcs
  obtain ⟨p, rfl, hbegins⟩ := h cs hcs
  exact ⟨p ++ [b], ⟨howed, hbegins⟩, List.append_assoc _ _ _⟩

/-- After something ill-formed nothing is claimed. -/
theorem took_of_invalid_mem {r : Reader} {size : Nat} (h : .invalid size ∈ r.items) :
    r.Took bs := by
  intro cs hcs
  rw [hcs] at h
  simp at h

/-- Between characters, the byte that is next starts one or is ill-formed. -/
theorem Reader.Took.push_start (h : Reader.Took ⟨.start, items⟩ bs) :
    (Reader.push ⟨.start, items⟩ b).Took (bs ++ [b]) := by
  have htook : ∀ cs : List Char, items = (cs.map Item.char).reverse → bs = encode cs ++ [] := by
    intro cs hcs
    obtain ⟨p, rfl, hbs⟩ := h cs hcs
    exact hbs
  -- a byte begins a character of one to four bytes, or none: it is a continuation or too large
  have hranges : b.toNat < 0x80 ∨ (0xC2 ≤ b.toNat ∧ b.toNat < 0xE0) ∨
      (0xE0 ≤ b.toNat ∧ b.toNat < 0xF0) ∨ (0xF0 ≤ b.toNat ∧ b.toNat < 0xF5) ∨
      (0x80 ≤ b.toNat ∧ b.toNat < 0xC2 ∨ 0xF5 ≤ b.toNat) := by omega
  rcases hranges with hb | hb | hb | hb | hb
  · rw [push_ascii items hb]
    exact took_char fun cs hcs => ⟨[], htook cs hcs, encodeChar_one hb⟩
  · rw [push_two items hb]
    exact took_inside (by omega) fun cs hcs => ⟨[], htook cs hcs, begins_two hb⟩
  · rw [push_three items hb]
    exact took_inside (by omega) fun cs hcs => ⟨[], htook cs hcs, begins_three hb⟩
  · rw [push_four items hb]
    exact took_inside (by omega) fun cs hcs => ⟨[], htook cs hcs, begins_four hb⟩
  · rw [push_invalid items hb]
    exact took_of_invalid_mem List.mem_cons_self

/-- Inside of a character, the byte that is next goes on with it or leaves it ill-formed. -/
theorem Reader.Took.push_inside {taken owed low high code : Nat}
    (h : Reader.Took ⟨.inside taken owed low high code, items⟩ bs) :
    (Reader.push ⟨.inside taken owed low high code, items⟩ b).Took (bs ++ [b]) := by
  by_cases hb : low ≤ b.toNat ∧ b.toNat ≤ high
  · match owed with
    | 0 =>
      -- a state that is owed nothing holds nothing
      rw [push_last items hb (by omega)]
      refine took_char fun cs hcs => ?_
      obtain ⟨p, ⟨hpos, -⟩, -⟩ := h cs hcs
      omega
    | 1 =>
      rw [push_last items hb (by omega)]
      refine took_char fun cs hcs => ?_
      obtain ⟨p, ⟨-, hbegins⟩, hbs⟩ := h cs hcs
      exact ⟨p, hbs, hbegins b hb.1 hb.2⟩
    | owed + 2 =>
      rw [push_more items hb (by omega)]
      refine took_inside (by omega) fun cs hcs => ?_
      obtain ⟨p, ⟨-, hbegins⟩, hbs⟩ := h cs hcs
      exact ⟨p, hbs, hbegins b hb.1 hb.2⟩
  · exact took_of_invalid_mem (mem_push_of_not_within items hb)

end

theorem Reader.Took.push {r : Reader} {bs : Bytes} (h : r.Took bs) (b : UInt8) :
    (r.push b).Took (bs ++ [b]) := by
  obtain ⟨state, items⟩ := r
  cases state with
  | start => exact h.push_start
  | inside taken owed low high code => exact h.push_inside

theorem Reader.Took.foldl_push {r : Reader} {bs : Bytes} (h : r.Took bs) (rest : Bytes) :
    (rest.foldl Reader.push r).Took (bs ++ rest) := by
  induction rest generalizing r bs with
  | nil => rwa [List.append_nil]
  | cons b rest ih =>
    have hrest := ih (h.push b)
    rwa [List.append_assoc, List.singleton_append] at hrest

theorem took_start : Reader.Took ⟨.start, []⟩ [] := by
  intro cs hcs
  have hnil : cs = [] := by simpa using hcs.symm
  exact ⟨[], rfl, by rw [hnil]; rfl⟩

/-! ## Reading and writing -/

theorem scan_encode (cs : List Char) : scan (encode cs) = cs.map Item.char := by
  rw [scan, foldl_push_encode]
  simp

theorem eq_encode_of_scan {bs : Bytes} {cs : List Char} (h : scan bs = cs.map Item.char) :
    bs = encode cs := by
  have htook := took_start.foldl_push bs
  rw [List.nil_append] at htook
  unfold scan at h
  simp only at h
  generalize bs.foldl Reader.push ⟨.start, []⟩ = r at h htook
  obtain ⟨state, items⟩ := r
  cases state with
  | start =>
    obtain ⟨p, rfl, hbs⟩ := htook cs (by rw [← h, List.reverse_reverse])
    rw [hbs, List.append_nil]
  | inside taken owed low high code =>
    -- the string ends inside of a character, which is no character
    have hcut : Item.cut ∈ cs.map Item.char := by simp [← h]
    simp at hcut

/-- Items that are all characters are read as these. -/
theorem chars_map_char (cs : List Char) (index : Nat) (read : List Char) :
    Item.chars (cs.map Item.char) index read = .ok (read.reverse ++ cs) := by
  induction cs generalizing index read with
  | nil => rw [List.map_nil, Item.chars, List.append_nil]
  | cons c cs ih =>
    rw [List.map_cons, Item.chars, ih, List.reverse_cons, List.append_assoc, List.singleton_append]

theorem eq_map_char_of_chars {items : List Item} {index : Nat} {read cs : List Char}
    (h : Item.chars items index read = .ok cs) :
    ∃ cs', items = cs'.map Item.char ∧ cs = read.reverse ++ cs' := by
  induction items generalizing index read with
  | nil =>
    rw [Item.chars, Except.ok.injEq] at h
    exact ⟨[], rfl, by rw [← h, List.append_nil]⟩
  | cons item items ih =>
    cases item with
    | char c =>
      obtain ⟨cs', hitems, hcs⟩ := ih h
      refine ⟨c :: cs', by rw [hitems, List.map_cons], ?_⟩
      rw [hcs, List.reverse_cons, List.append_assoc, List.singleton_append]
    | invalid size => cases h
    | cut => cases h

/-- A byte string is read as a text exactly if it is what is written of that text. -/
theorem decode_iff_eq_encode {bs : Bytes} {cs : List Char} :
    decode bs = .ok cs ↔ bs = encode cs := by
  constructor
  · intro h
    obtain ⟨cs', hscan, rfl⟩ := eq_map_char_of_chars h
    exact eq_encode_of_scan hscan
  · rintro rfl
    rw [decode, scan_encode, chars_map_char, List.reverse_nil, List.nil_append]

/-- Only the empty text has no bytes. -/
theorem encode_eq_nil_iff {cs : List Char} : encode cs = [] ↔ cs = [] := by
  constructor
  · intro h
    have hread : decode [] = .ok cs := decode_iff_eq_encode.mpr h.symm
    cases hread
    rfl
  · rintro rfl
    rfl

/-! ## Characters in a text -/

/-- Bytes behind the first one of a character. -/
def IsContinuation (b : UInt8) : Prop := 0x80 ≤ b.toNat ∧ b.toNat < 0xC0

/-- The number of bytes of a character, as its first byte tells it. -/
def leadSize (b : UInt8) : Nat :=
  if b.toNat < 0x80 then 1 else if b.toNat < 0xE0 then 2 else if b.toNat < 0xF0 then 3 else 4

/-- Bytes that are made as those of a character are: a lead and its continuations. -/
theorem exists_lead_of_codes {n : Nat} (ns : List Nat) (hn : n < 0x80 ∨ 0xC0 ≤ n ∧ n < 0x100)
    (hsize : leadSize (UInt8.ofNat n) = ns.length + 1) :
    ∃ b bs, UInt8.ofNat n :: ns.map (fun k => UInt8.ofNat (0x80 + k % 0x40)) = b :: bs ∧
      bs.length + 1 = leadSize b ∧ ¬ IsContinuation b ∧ ∀ b' ∈ bs, IsContinuation b' := by
  refine ⟨_, _, rfl, ?_, ?_, List.forall_mem_map.mpr fun k _ => ?_⟩
  · rw [hsize, List.length_map]
  · rw [IsContinuation, toNat_ofNat_of_lt (by omega)]
    omega
  · rw [IsContinuation, toNat_ofNat_of_lt (by omega)]
    omega

/-- The first byte of a character tells how many bytes go on with it. -/
theorem exists_lead (c : Char) : ∃ b bs, encodeChar c = b :: bs ∧ bs.length + 1 = leadSize b ∧
    ¬ IsContinuation b ∧ ∀ b' ∈ bs, IsContinuation b' := by
  have hvalid : c.toNat.isValidChar := c.valid
  unfold Nat.isValidChar at hvalid
  unfold encodeChar
  simp only
  split
  · refine exists_lead_of_codes [] (by omega) ?_
    rw [leadSize, toNat_ofNat_of_lt (by omega), if_pos (by omega)]
    rfl
  split
  · refine exists_lead_of_codes [_] (by omega) ?_
    rw [leadSize, toNat_ofNat_of_lt (by omega), if_neg (by omega), if_pos (by omega)]
    rfl
  split
  · refine exists_lead_of_codes [_, _] (by omega) ?_
    rw [leadSize, toNat_ofNat_of_lt (by omega), if_neg (by omega), if_neg (by omega),
      if_pos (by omega)]
    rfl
  · refine exists_lead_of_codes [_, _, _] (by omega) ?_
    rw [leadSize, toNat_ofNat_of_lt (by omega), if_neg (by omega), if_neg (by omega),
      if_neg (by omega)]
    rfl

theorem encode_injective : Function.Injective encode := by
  intro cs ds h
  have hcs : decode (encode cs) = .ok cs := decode_iff_eq_encode.mpr rfl
  have hds : decode (encode cs) = .ok ds := decode_iff_eq_encode.mpr h
  exact Except.ok.inj (hcs.symm.trans hds)

/-- A text that begins with the bytes of a character begins with the character. -/
theorem exists_of_encodeChar_append {c : Char} {bs : Bytes} {cs : List Char}
    (h : encodeChar c ++ bs = encode cs) : ∃ ds, cs = c :: ds ∧ bs = encode ds := by
  obtain ⟨b, t, hc, hsize, -, -⟩ := exists_lead c
  cases cs with
  | nil =>
    rw [hc] at h
    cases h
  | cons d ds =>
    obtain ⟨b', t', hd, hsize', -, -⟩ := exists_lead d
    rw [encode_cons] at h
    have hfirst : b = b' := by
      rw [hc, hd] at h
      exact (List.cons.inj h).1
    -- the first byte tells the length, so both characters are cut off at the same place
    have hlength : (encodeChar c).length = (encodeChar d).length := by
      rw [hc, hd, List.length_cons, List.length_cons, hsize, hsize', hfirst]
    obtain ⟨hchar, hrest⟩ := List.append_inj h hlength
    have hsame : encode [c] = encode [d] := by
      rw [encode_cons, encode_cons, hchar]
    obtain ⟨rfl, -⟩ := List.cons.inj (encode_injective hsame)
    exact ⟨ds, rfl, hrest⟩

end ContractHost.Utf8
