import ContractHost.Proofs.Json.Tree
import Mathlib.Data.List.TakeWhile

/-!
# What the strings of JSON stand for

Between the quotes of a string stand characters and escapes, and each stands for one character, but
for the escapes of the two halves of a surrogate pair, which stand for one together (`Unescapes`).
The reader goes by bytes: it cuts the string into bytes and code units (`Written`), puts bytes
together again, and looks only at the end whether they spell a text. Both come to the same
(`unescapes_iff`): a character that an escape names has all its bytes from the escape, so the bytes
of any other character stand in the string one behind the other.

A text is read as a string exactly if it is one between blanks (`read?_eq_string_iff`).
-/

namespace ContractHost.Json

open Utf8 (encode encodeChar IsContinuation)

/-! ## The grammar of strings -/

/-- The bytes of an escape, and the code unit that it names. -/
inductive Escape : Bytes → Nat → Prop where
  | letter {e : UInt8} {u : Nat} (hu : escape? e = some u) : Escape [0x5C, e] u
  | digits {a b c d : UInt8} {u : Nat} (hu : hexUnit? a b c d = some u) :
    Escape [0x5C, 0x75, a, b, c, d] u

/-- The character of a surrogate pair. -/
def paired (u v : Nat) : Char := Char.ofNat (0x10000 + (u - 0xD800) * 0x400 + (v - 0xDC00))

/-- What stands between the quotes of a string, and the characters that it stands for. -/
inductive Unescapes : Bytes → List Char → Prop where
  | nil : Unescapes [] []
  | char {c : Char} {body : Bytes} {cs : List Char} (hc : ¬ IsSpecial c)
    (rest : Unescapes body cs) : Unescapes (encodeChar c ++ body) (c :: cs)
  | escape {bs body : Bytes} {u : Nat} {cs : List Char} (hu : Escape bs u)
    (hlow : isLowSurrogate u = false) (hhigh : isHighSurrogate u = false)
    (rest : Unescapes body cs) : Unescapes (bs ++ body) (Char.ofNat u :: cs)
  | pair {bs bs' body : Bytes} {u v : Nat} {cs : List Char} (hu : Escape bs u) (hv : Escape bs' v)
    (hhigh : isHighSurrogate u = true) (hlow : isLowSurrogate v = true)
    (rest : Unescapes body cs) : Unescapes (bs ++ (bs' ++ body)) (paired u v :: cs)

/-! ## Pieces -/

/-- What stands between the quotes of a string, and the pieces that it is cut into. -/
inductive Written : Bytes → List Piece → Prop where
  | nil : Written [] []
  | raw {b : UInt8} {body : Bytes} {ps : List Piece} (hb : b ≠ 0x22 ∧ b ≠ 0x5C ∧ ¬ b < 0x20)
    (rest : Written body ps) : Written (b :: body) (.raw b :: ps)
  | unit {bs body : Bytes} {u : Nat} {ps : List Piece} (hu : Escape bs u)
    (rest : Written body ps) : Written (bs ++ body) (.unit u :: ps)

theorem Escape.pieces? {bs : Bytes} {u : Nat} (h : Escape bs u) (rest : Bytes) (ps : List Piece) :
    Json.pieces? (bs ++ rest) ps = Json.pieces? rest (.unit u :: ps) := by
  cases h with
  | letter hu =>
    refine pieces?_letter rest ps ?_ hu
    rintro rfl
    cases hu
  | digits hu => exact pieces?_digits rest ps hu

theorem reverse_cons_append {α : Type} (a : α) (as bs : List α) :
    (a :: as).reverse ++ bs = as.reverse ++ a :: bs := by
  rw [List.reverse_cons, List.append_assoc, List.singleton_append]

theorem pieces?_of_written {body : Bytes} {qs : List Piece} (h : Written body qs) (rest : Bytes)
    (ps : List Piece) : pieces? (body ++ 0x22 :: rest) ps = some (ps.reverse ++ qs, rest) := by
  induction h generalizing ps with
  | nil =>
    rw [List.append_nil]
    exact pieces?_quote rest ps
  | raw hb _ ih => rw [List.cons_append, pieces?_byte _ _ hb, ih, reverse_cons_append]
  | unit hu _ ih => rw [List.append_assoc, hu.pieces?, ih, reverse_cons_append]

/-- A string that is read up to its closing quote is cut into its pieces. -/
theorem exists_written {bs rest : Bytes} {before ps : List Piece}
    (h : pieces? bs before = some (ps, rest)) :
    ∃ body qs, bs = body ++ 0x22 :: rest ∧ ps = before.reverse ++ qs ∧ Written body qs := by
  fun_induction pieces? bs before with
  | case2 bs before =>
    obtain ⟨rfl, rfl⟩ := Prod.mk.inj (Option.some.inj h)
    exact ⟨[], [], rfl, (List.append_nil _).symm, .nil⟩
  | case5 before a b c d bs u hu _ ih =>
    obtain ⟨body, qs, rfl, rfl, hbody⟩ := ih h
    exact ⟨_, _, rfl, reverse_cons_append _ _ _, .unit (.digits hu) hbody⟩
  | case8 before e bs _ u hu _ ih =>
    obtain ⟨body, qs, rfl, rfl, hbody⟩ := ih h
    exact ⟨_, _, rfl, reverse_cons_append _ _ _, .unit (.letter hu) hbody⟩
  | case10 b bs before hquote hslash hcontrol ih =>
    obtain ⟨body, qs, rfl, rfl, hbody⟩ := ih h
    exact ⟨_, _, rfl, reverse_cons_append _ _ _, .raw ⟨hquote, hslash, hcontrol⟩ hbody⟩
  | _ => cases h

theorem pieces?_eq_some_iff {bs rest : Bytes} {ps : List Piece} :
    pieces? bs [] = some (ps, rest) ↔ ∃ body, bs = body ++ 0x22 :: rest ∧ Written body ps := by
  constructor
  · intro h
    obtain ⟨body, qs, hbs, rfl, hbody⟩ := exists_written h
    exact ⟨body, hbs, hbody⟩
  · rintro ⟨body, rfl, hbody⟩
    exact pieces?_of_written hbody rest []

/-! ## Spelling -/

theorem not_isLowSurrogate {u : Nat} (h : isHighSurrogate u = true) : isLowSurrogate u = false := by
  simp only [isHighSurrogate, isLowSurrogate, Bool.and_eq_true, decide_eq_true_eq,
    Bool.and_eq_false_iff, decide_eq_false_iff_not] at h ⊢
  omega

/-- Two surrogates that make a pair are one character. -/
theorem spell?_pair {u v : Nat} (hhigh : isHighSurrogate u = true)
    (hlow : isLowSurrogate v = true) (ps : List Piece) (read : Bytes) :
    spell? (.unit u :: .unit v :: ps) read =
      spell? ps ((encodeChar (paired u v)).reverse ++ read) := by
  rw [spell?.eq_def]
  simp [not_isLowSurrogate hhigh, hhigh, hlow, paired]

/-- What is spelt already is put in front. -/
theorem spell?_append (ps : List Piece) (read before : Bytes) :
    spell? ps (read ++ before) = (spell? ps read).map (before.reverse ++ ·) := by
  fun_induction spell? ps read with
  | case1 read => rw [spell?, List.reverse_append, Option.map_some]
  | case2 b ps read ih => rw [spell?, ← List.cons_append, ih]
  | case4 u read _ hhigh v ps hlow c ih =>
    rw [spell?_pair hhigh hlow, ← List.append_assoc]
    exact ih
  | case7 u ps read hlow hhigh ih =>
    rw [spell?_unit (Bool.eq_false_iff.mpr hlow) (Bool.eq_false_iff.mpr hhigh),
      ← List.append_assoc, ih]
  | _ =>
    rw [spell?.eq_def]
    simp [*]

/-- Bytes in front of what is spelt. -/
theorem spell?_front (ps : List Piece) (bs : Bytes) :
    spell? ps bs.reverse = (spell? ps []).map (bs ++ ·) := by
  have h := spell?_append ps [] bs.reverse
  rwa [List.nil_append, List.reverse_reverse] at h

theorem spell?_cons_raw (b : UInt8) (ps : List Piece) :
    spell? (.raw b :: ps) [] = (spell? ps []).map (b :: ·) := spell?_front ps [b]

/-- A code unit spells a character, by itself or together with the one behind it. -/
theorem spell?_unit_cases {u : Nat} {ps : List Piece} {bs : Bytes}
    (h : spell? (.unit u :: ps) [] = some bs) :
    (isLowSurrogate u = false ∧ isHighSurrogate u = false ∧
      ∃ rest, spell? ps [] = some rest ∧ bs = encodeChar (Char.ofNat u) ++ rest) ∨
    (isHighSurrogate u = true ∧ ∃ v qs, ps = .unit v :: qs ∧ isLowSurrogate v = true ∧
      ∃ rest, spell? qs [] = some rest ∧ bs = encodeChar (paired u v) ++ rest) := by
  by_cases hhigh : isHighSurrogate u = true
  · refine .inr ⟨hhigh, ?_⟩
    have hpair : ∃ v qs, ps = .unit v :: qs ∧ isLowSurrogate v = true := by
      rw [spell?.eq_def] at h
      simp only [not_isLowSurrogate hhigh, hhigh, if_true, Bool.false_eq_true, if_false] at h
      split at h
      · split at h
        · exact ⟨_, _, rfl, ‹_›⟩
        · cases h
      · cases h
    obtain ⟨v, qs, rfl, hlow⟩ := hpair
    rw [spell?_pair hhigh hlow, List.append_nil, spell?_front] at h
    obtain ⟨rest, hrest, rfl⟩ := Option.map_eq_some_iff.mp h
    exact ⟨v, qs, rfl, hlow, rest, hrest, rfl⟩
  · have hhigh := Bool.eq_false_iff.mpr hhigh
    by_cases hlow : isLowSurrogate u = true
    · -- the second half of a pair has to be the second
      rw [spell?.eq_def] at h
      simp only [hlow, if_true] at h
      cases h
    · have hlow := Bool.eq_false_iff.mpr hlow
      rw [spell?_unit hlow hhigh, List.append_nil, spell?_front] at h
      obtain ⟨rest, hrest, rfl⟩ := Option.map_eq_some_iff.mp h
      exact .inl ⟨hlow, hhigh, rest, hrest, rfl⟩

/-! ## Characters -/

theorem written_raw {bs : Bytes} (h : ∀ b ∈ bs, b ≠ 0x22 ∧ b ≠ 0x5C ∧ ¬ b < 0x20) {body : Bytes}
    {ps : List Piece} (hbody : Written body ps) : Written (bs ++ body) (bs.map .raw ++ ps) := by
  induction bs with
  | nil => exact hbody
  | cons b bs ih =>
    obtain ⟨hb, hbs⟩ := List.forall_mem_cons.mp h
    exact .raw hb (ih hbs)

/-- What stands for characters is cut into pieces that spell them. -/
theorem Unescapes.exists_written {body : Bytes} {cs : List Char} (h : Unescapes body cs) :
    ∃ ps, Written body ps ∧ spell? ps [] = some (encode cs) := by
  induction h with
  | nil => exact ⟨[], .nil, rfl⟩
  | char hc _ ih =>
    obtain ⟨ps, hps, hspell⟩ := ih
    refine ⟨_, written_raw (fun b hb => plain_of_mem_encodeChar hc hb) hps, ?_⟩
    rw [spell?_raw, List.append_nil, spell?_front, hspell, Option.map_some, Utf8.encode_cons]
  | escape hu hlow hhigh _ ih =>
    obtain ⟨ps, hps, hspell⟩ := ih
    refine ⟨_, .unit hu hps, ?_⟩
    rw [spell?_unit hlow hhigh, List.append_nil, spell?_front, hspell, Option.map_some,
      Utf8.encode_cons]
  | pair hu hv hhigh hlow _ ih =>
    obtain ⟨ps, hps, hspell⟩ := ih
    refine ⟨_, .unit hu (.unit hv hps), ?_⟩
    rw [spell?_pair hhigh hlow, List.append_nil, spell?_front, hspell, Option.map_some,
      Utf8.encode_cons]

/-- The bytes that go on with a character are not those of an escape. -/
theorem Written.exists_of_continuation {bs rest : Bytes} (hbs : ∀ b ∈ bs, IsContinuation b)
    {body : Bytes} {ps : List Piece} (h : Written body ps)
    (hspell : spell? ps [] = some (bs ++ rest)) :
    ∃ body' qs, body = bs ++ body' ∧ Written body' qs ∧ spell? qs [] = some rest ∧
      qs.length ≤ ps.length := by
  induction bs generalizing body ps with
  | nil => exact ⟨body, ps, rfl, h, hspell, Nat.le_refl _⟩
  | cons b bs ih =>
    obtain ⟨hb, htail⟩ := List.forall_mem_cons.mp hbs
    cases h with
    | nil => cases hspell
    | raw _ hbody =>
      rw [spell?_cons_raw, List.cons_append, Option.map_eq_some_iff] at hspell
      obtain ⟨bs', hspell, hcons⟩ := hspell
      obtain ⟨rfl, rfl⟩ := List.cons.inj hcons
      obtain ⟨body', qs, rfl, hqs, hrest, hlength⟩ := ih htail hbody hspell
      exact ⟨body', qs, rfl, hqs, hrest, Nat.le_succ_of_le hlength⟩
    | unit _ _ =>
      exfalso
      -- an escape spells a whole character, whose first byte does not go on with another one
      have hfirst : ∃ (c : Char) (rest' : Bytes), b :: bs ++ rest = encodeChar c ++ rest' := by
        obtain ⟨-, -, rest', -, heq⟩ | ⟨-, v, qs, -, -, rest', -, heq⟩ :=
          spell?_unit_cases hspell
        · exact ⟨_, rest', heq⟩
        · exact ⟨_, rest', heq⟩
      obtain ⟨c, rest', heq⟩ := hfirst
      obtain ⟨lead, tail, hc, -, hlead, -⟩ := Utf8.exists_lead c
      rw [hc] at heq
      obtain ⟨rfl, -⟩ := List.cons.inj heq
      exact hlead hb

/-- The first byte of a character tells whether it is one that has to be escaped. -/
theorem not_isSpecial_of_lead {c : Char} {b : UInt8} {bs : Bytes} (hc : encodeChar c = b :: bs)
    (hb : b ≠ 0x22 ∧ b ≠ 0x5C ∧ ¬ b < 0x20) : ¬ IsSpecial c := by
  intro hspecial
  have hascii : c.toNat < 0x80 := by
    rcases hspecial with rfl | rfl | hcontrol
    · decide
    · decide
    · omega
  have hone : encodeChar c = [UInt8.ofNat c.toNat] := if_pos hascii
  obtain ⟨rfl, -⟩ := List.cons.inj (hc.symm.trans hone)
  rcases hspecial with rfl | rfl | hcontrol
  · exact hb.1 rfl
  · exact hb.2.1 rfl
  · apply hb.2.2
    rw [UInt8.lt_iff_toNat_lt, Utf8.toNat_ofNat_of_lt (by omega)]
    exact hcontrol

/-- What is cut into pieces that spell characters stands for them. The induction is on the number of
pieces, as a character may have several of them. -/
theorem Written.unescapes {body : Bytes} {ps : List Piece} {cs : List Char} (h : Written body ps)
    (hspell : spell? ps [] = some (encode cs)) : Unescapes body cs := by
  induction hlength : ps.length using Nat.strongRecOn generalizing body ps cs with
  | ind n ih =>
    subst hlength
    cases h with
    | nil =>
      obtain rfl := Utf8.encode_eq_nil_iff.mp (Option.some.inj hspell).symm
      exact .nil
    | @raw b body ps hb hbody =>
      rw [spell?_cons_raw, Option.map_eq_some_iff] at hspell
      obtain ⟨bs, hspell, hbs⟩ := hspell
      cases cs with
      | nil => cases hbs
      | cons c cs =>
        obtain ⟨lead, tail, hc, -, -, htail⟩ := Utf8.exists_lead c
        rw [Utf8.encode_cons, hc, List.cons_append] at hbs
        obtain ⟨rfl, rfl⟩ := List.cons.inj hbs
        -- the bytes behind the first one are raw as well, and what is left has fewer pieces
        obtain ⟨rest, qs, rfl, hqs, hrest, hle⟩ := hbody.exists_of_continuation htail hspell
        have hchar := Unescapes.char (not_isSpecial_of_lead hc hb)
          (ih _ (Nat.lt_succ_of_le hle) hqs hrest rfl)
        rwa [hc] at hchar
    | unit hu hbody =>
      obtain ⟨hlow, hhigh, rest, hrest, heq⟩ | ⟨hhigh, v, qs, rfl, hlow, rest, hrest, heq⟩ :=
        spell?_unit_cases hspell
      · obtain ⟨ds, rfl, rfl⟩ := Utf8.exists_of_encodeChar_append heq.symm
        exact .escape hu hlow hhigh (ih _ (Nat.lt_succ_self _) hbody hrest rfl)
      · obtain ⟨ds, rfl, rfl⟩ := Utf8.exists_of_encodeChar_append heq.symm
        cases hbody with
        | unit hv hqs =>
          have hlt := Nat.lt_succ_of_lt (Nat.lt_succ_self qs.length)
          exact .pair hu hv hhigh hlow (ih _ hlt hqs hrest rfl)

/-- The grammar and the reader come to the same. -/
theorem unescapes_iff {body : Bytes} {cs : List Char} :
    Unescapes body cs ↔ ∃ ps, Written body ps ∧ spell? ps [] = some (encode cs) :=
  ⟨Unescapes.exists_written, fun ⟨_, hps, hspell⟩ => hps.unescapes hspell⟩

/-- A string has a text exactly if its pieces spell the bytes of one. -/
theorem text?_eq_some_iff {ps : List Piece} {s : String} :
    text? ps = some s ↔ spell? ps [] = some (encode s.toList) := by
  unfold text?
  cases hspell : spell? ps [] with
  | none => exact iff_of_false nofun nofun
  | some bs =>
    simp only [Option.some.injEq]
    rw [← Utf8.decode_iff_eq_encode]
    cases hdecode : Utf8.decode bs with
    | error e => exact iff_of_false nofun nofun
    | ok cs =>
      simp only [Except.toOption, Option.map_some, Option.some.injEq, Except.ok.injEq]
      rw [← String.toList_inj, String.toList_ofList]

/-! ## Strings as whole texts -/

/-- A text of blanks only. -/
def Blanks (bs : Bytes) : Prop := ∀ b ∈ bs, isBlank b = true

theorem skipBlanks_append {before : Bytes} (h : Blanks before) (rest : Bytes) :
    skipBlanks (before ++ rest) = skipBlanks rest := List.dropWhile_append_of_pos h

theorem skipBlanks_eq_nil_iff {bs : Bytes} : skipBlanks bs = [] ↔ Blanks bs :=
  List.dropWhile_eq_nil_iff

/-- What is left of a text stands behind blanks. -/
theorem exists_blanks (bs : Bytes) : ∃ before, Blanks before ∧ bs = before ++ skipBlanks bs :=
  ⟨bs.takeWhile isBlank, fun _ hb => List.mem_takeWhile_imp hb,
    (List.takeWhile_append_dropWhile).symm⟩

/-- A brace opens an object, whatever comes of it. -/
theorem exists_object {fuel : Nat} {bs rest : Bytes} {read : List (List Piece × Tree)} {t : Tree}
    (h : members? fuel bs read = some (t, rest)) : ∃ members, t = .object members := by
  induction fuel generalizing bs read with
  | zero => cases h
  | succ fuel ih =>
    rw [members?.eq_def] at h
    simp only at h
    split at h
    · split at h
      · cases h
      · split at h
        · split at h
          · cases h
          · split at h
            · exact ih h
            · cases h
              exact ⟨_, rfl⟩
            · cases h
        · cases h
    · cases h

/-- A bracket opens an array, whatever comes of it. -/
theorem exists_array {fuel : Nat} {bs rest : Bytes} {read : List Tree} {t : Tree}
    (h : items? fuel bs read = some (t, rest)) : ∃ items, t = .array items := by
  induction fuel generalizing bs read with
  | zero => cases h
  | succ fuel ih =>
    rw [items?.eq_def] at h
    simp only at h
    split at h
    · cases h
    · split at h
      · exact ih h
      · cases h
        exact ⟨_, rfl⟩
      · cases h

/-- A value is a string exactly if it begins with a quote. -/
theorem value?_eq_string_iff {fuel : Nat} {bs rest : Bytes} {ps : List Piece} :
    value? (fuel + 1) bs = some (.string ps, rest) ↔
      ∃ tail, skipBlanks bs = 0x22 :: tail ∧ pieces? tail [] = some (ps, rest) := by
  rw [value?.eq_def]
  simp only
  constructor
  · intro h
    split at h
    · cases h
    rename_i b tail hblanks
    split at h
    · -- an object
      split at h
      · cases h
      · obtain ⟨members, heq⟩ := exists_object h
        cases heq
    split at h
    · -- an array
      split at h
      · cases h
      · obtain ⟨items, heq⟩ := exists_array h
        cases heq
    split at h
    · rename_i hquote
      subst hquote
      obtain ⟨⟨qs, rest'⟩, hpieces, heq⟩ := Option.map_eq_some_iff.mp h
      cases heq
      exact ⟨tail, hblanks, hpieces⟩
    -- a word or a number
    split at h
    · obtain ⟨_, -, heq⟩ := Option.map_eq_some_iff.mp h
      cases heq
    split at h
    · obtain ⟨_, -, heq⟩ := Option.map_eq_some_iff.mp h
      cases heq
    split at h
    · obtain ⟨_, -, heq⟩ := Option.map_eq_some_iff.mp h
      cases heq
    · obtain ⟨_, -, heq⟩ := Option.map_eq_some_iff.mp h
      cases heq
  · rintro ⟨tail, hblanks, hpieces⟩
    simp [hblanks, hpieces]

/-- A text is read as a string exactly if it is one, up to blanks around it. -/
theorem read?_eq_string_iff {bs : Bytes} {ps : List Piece} :
    Tree.read? bs = some (.string ps) ↔ ∃ before body behind, Blanks before ∧ Blanks behind ∧
      bs = before ++ 0x22 :: (body ++ 0x22 :: behind) ∧ Written body ps := by
  unfold Tree.read?
  rw [Option.bind_eq_bind, Option.bind_eq_some_iff]
  constructor
  · rintro ⟨⟨t, rest⟩, hvalue, hrest⟩
    dsimp only at hrest
    split at hrest
    · rename_i hempty
      cases hrest
      -- the text is what was skipped, the string, and what is left, which is blank
      obtain ⟨tail, htail, hpieces⟩ := value?_eq_string_iff.mp hvalue
      obtain ⟨body, rfl, hbody⟩ := pieces?_eq_some_iff.mp hpieces
      obtain ⟨before, hbefore, hbs⟩ := exists_blanks bs
      rw [htail] at hbs
      exact ⟨before, body, rest, hbefore, skipBlanks_eq_nil_iff.mp (List.isEmpty_iff.mp hempty),
        hbs, hbody⟩
    · cases hrest
  · rintro ⟨before, body, behind, hbefore, hbehind, rfl, hbody⟩
    have hfront : skipBlanks (before ++ 0x22 :: (body ++ 0x22 :: behind)) =
        0x22 :: (body ++ 0x22 :: behind) := by
      rw [skipBlanks_append hbefore, skipBlanks_cons (by decide)]
    have hpieces : pieces? (body ++ 0x22 :: behind) [] = some (ps, behind) :=
      pieces?_eq_some_iff.mpr ⟨body, rfl, hbody⟩
    refine ⟨(.string ps, behind), value?_eq_string_iff.mpr ⟨_, hfront, hpieces⟩, ?_⟩
    simp [skipBlanks_eq_nil_iff.mpr hbehind]

/-- A text that is one string, up to blanks around it, and the characters that it stands for. -/
def IsString (bs : Bytes) (cs : List Char) : Prop :=
  ∃ before body behind, Blanks before ∧ Blanks behind ∧
    bs = before ++ 0x22 :: (body ++ 0x22 :: behind) ∧ Unescapes body cs

/-- A text is a string for the grammar exactly if it is read as one. -/
theorem isString_iff {bs : Bytes} {s : String} :
    IsString bs s.toList ↔ ∃ ps, Tree.read? bs = some (.string ps) ∧ text? ps = some s := by
  constructor
  · rintro ⟨before, body, behind, hbefore, hbehind, hbs, hbody⟩
    obtain ⟨ps, hps, hspell⟩ := unescapes_iff.mp hbody
    exact ⟨ps, read?_eq_string_iff.mpr ⟨before, body, behind, hbefore, hbehind, hbs, hps⟩,
      text?_eq_some_iff.mpr hspell⟩
  · rintro ⟨ps, hread, htext⟩
    obtain ⟨before, body, behind, hbefore, hbehind, hbs, hps⟩ := read?_eq_string_iff.mp hread
    exact ⟨before, body, behind, hbefore, hbehind, hbs,
      unescapes_iff.mpr ⟨ps, hps, text?_eq_some_iff.mp htext⟩⟩

/-! ## The shortest string -/

theorem Escape.two_le_length {bs : Bytes} {u : Nat} (h : Escape bs u) : 2 ≤ bs.length := by
  cases h with
  | letter => exact Nat.le_refl 2
  | digits => exact Nat.le_add_left 2 4

/-- Every character takes a byte, and only an ASCII character that stands for itself no more. -/
theorem Unescapes.length_le {body : Bytes} {cs : List Char} (h : Unescapes body cs) :
    cs.length ≤ body.length ∧ (body.length = cs.length → body = encode cs) := by
  induction h with
  | nil => exact ⟨Nat.le_refl _, fun _ => rfl⟩
  | @char c body cs hc rest ih =>
    obtain ⟨hle, heq⟩ := ih
    have hpos : 0 < (encodeChar c).length := List.length_pos_iff.mpr (Utf8.encodeChar_ne_nil c)
    rw [List.length_append, List.length_cons]
    refine ⟨by omega, fun hlength => ?_⟩
    rw [heq (by omega), Utf8.encode_cons]
  | escape hu hlow hhigh rest ih =>
    have hlong := hu.two_le_length
    rw [List.length_append, List.length_cons]
    exact ⟨by omega, fun hlength => absurd hlength (by omega)⟩
  | pair hu hv hhigh hlow rest ih =>
    have hlong := hu.two_le_length
    rw [List.length_append, List.length_append, List.length_cons]
    exact ⟨by omega, fun hlength => absurd hlength (by omega)⟩

theorem IsString.length_le {bs : Bytes} {cs : List Char} (h : IsString bs cs) :
    cs.length + 2 ≤ bs.length ∧
      (bs.length = cs.length + 2 → bs = 0x22 :: (encode cs ++ [0x22])) := by
  obtain ⟨before, body, behind, -, -, rfl, hbody⟩ := h
  obtain ⟨hle, heq⟩ := hbody.length_le
  simp only [List.length_append, List.length_cons]
  refine ⟨by omega, fun hlength => ?_⟩
  obtain rfl : before = [] := List.eq_nil_of_length_eq_zero (by omega)
  obtain rfl : behind = [] := List.eq_nil_of_length_eq_zero (by omega)
  rw [List.length_nil] at hlength
  rw [heq (by omega), List.nil_append]

/-- A text without special characters is written as it is. -/
theorem bytes_string {s : String} (h : ∀ c ∈ s.toList, ¬ IsSpecial c) :
    (Value.string s).bytes = 0x22 :: (encode s.toList ++ [0x22]) := by
  have hescape : s.toList.flatMap escape = s.toList := by
    rw [List.flatMap_congr fun c hc => escape_of_not_isSpecial (h c hc)]
    exact List.flatMap_singleton' _
  rw [Value.bytes, Value.render, encode_quoted, hescape]

end ContractHost.Json
