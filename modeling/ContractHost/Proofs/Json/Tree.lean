import Mathlib.Data.List.Forall2
import ContractHost.Json.Value
import ContractHost.Proofs.Json.Number
import ContractHost.Proofs.Json.Text

/-!
# JSON values are read as they are written

A text spells a tree if it is read as that tree wherever it stands (`Spells`). The text of a string
and that of a natural number spell one, and the text of an array or an object does if the texts of
its items do: the reader takes one item after the other, and what is left of the text bounds what it
still has to read (`items?_of_spells`, `members?_of_spells`). A text that spells a tree is read as
that tree also as a whole (`read?_of_spells`).
-/

namespace ContractHost.Json

open Utf8 (encode)

/-- In front of anything that ends a number, a text is read as a tree, with as much fuel as it has
bytes and one more. -/
def Spells (bs : Bytes) (t : Tree) : Prop :=
  ∀ fuel rest, bs.length < fuel → Ends rest → value? fuel (bs ++ rest) = some (t, rest)

theorem skipBlanks_cons {b : UInt8} (hb : isBlank b = false) (rest : Bytes) :
    skipBlanks (b :: rest) = b :: rest := by
  simp [skipBlanks, hb]

/-- A text that spells a tree is read as it. -/
theorem read?_of_spells {bs : Bytes} {t : Tree} (h : Spells bs t) : Tree.read? bs = some t := by
  have hvalue : value? (bs.length + 1) bs = some (t, []) := by
    have hend := h _ [] (Nat.lt_succ_self _) ends_nil
    rwa [List.append_nil] at hend
  simp [Tree.read?, hvalue, skipBlanks]

/-! ## Strings and numbers -/

theorem spells_string (s : String) : Spells (Value.string s).bytes (.string (textPieces s)) := by
  intro fuel rest hfuel hrest
  cases fuel with
  | zero => cases hfuel
  | succ fuel =>
    have hbytes : (Value.string s).bytes ++ rest =
        0x22 :: (encode (s.toList.flatMap escape) ++ 0x22 :: rest) := by
      rw [Value.bytes, Value.render, encode_quoted]
      simp
    rw [hbytes, value?.eq_def]
    simp [skipBlanks_cons, isBlank, pieces?_text]

/-- A value that begins with a digit is a number. -/
theorem value?_of_digit {d : UInt8} (hd : isDigit d = true) (fuel : Nat) (ds : Bytes) :
    value? (fuel + 1) (d :: ds) =
      (numeral? (d :: ds)).map fun (n, rest) => (.number n, rest) := by
  have hne {b : UInt8} (hb : isDigit b = false) : d ≠ b := by
    rintro rfl
    rw [hd] at hb
    cases hb
  have hblank : isBlank d = false := by
    simp [isBlank, hne (b := 0x20) rfl, hne (b := 0x09) rfl, hne (b := 0x0A) rfl,
      hne (b := 0x0D) rfl]
  rw [value?.eq_def]
  simp only [skipBlanks_cons hblank, if_neg (hne (b := 0x7B) rfl), if_neg (hne (b := 0x5B) rfl),
    if_neg (hne (b := 0x22) rfl), if_neg (hne (b := 0x6E) rfl), if_neg (hne (b := 0x74) rfl),
    if_neg (hne (b := 0x66) rfl)]

theorem spells_natural (n : Nat) :
    Spells (Value.int n).bytes (.number (naturalNumeral n)) := by
  intro fuel rest hfuel hrest
  cases fuel with
  | zero => cases hfuel
  | succ fuel =>
    have hbytes : (Value.int n).bytes = digitBytes n := rfl
    have hnumeral := numeral?_digitBytes n hrest
    rw [hbytes]
    -- the first digit decides that a number is read
    cases hdigits : digitBytes n with
    | nil => exact absurd hdigits (digitBytes_ne_nil n)
    | cons d ds =>
      have hd : d ∈ digitBytes n := by
        rw [hdigits]
        exact List.mem_cons_self
      rw [hdigits, List.cons_append] at hnumeral
      rw [List.cons_append, value?_of_digit (isDigit_of_mem_digitBytes hd), hnumeral]
      rfl

/-! ## Arrays and objects -/

/-- No value begins with a closing bracket. -/
theorem skipBlanks_ne_of_items? {fuel : Nat} {bs : Bytes} {read : List Tree} {r : Tree × Bytes}
    (h : items? fuel bs read = some r) (rest : Bytes) : skipBlanks bs ≠ 0x5D :: rest := by
  intro hblanks
  cases fuel with
  | zero => cases h
  | succ fuel =>
    -- the first item would have to begin with it
    have hvalue : value? fuel bs = none := by
      cases fuel with
      | zero => rfl
      | succ fuel =>
        rw [value?.eq_def]
        simp only [hblanks]
        rfl
    rw [items?.eq_def] at h
    simp only [hvalue] at h
    cases h

/-- A bracket that is not closed at once opens an array with items. -/
theorem value?_bracket {fuel : Nat} {bs : Bytes} (h : ∀ rest, skipBlanks bs ≠ 0x5D :: rest) :
    value? (fuel + 1) (0x5B :: bs) = items? fuel bs [] := by
  rw [value?.eq_def]
  simp [skipBlanks_cons, isBlank]

theorem encode_renderItems_cons (item next : Value) (items : List Value) :
    encode (Value.renderItems (item :: next :: items)) =
      item.bytes ++ 0x2C :: encode (Value.renderItems (next :: items)) := by
  rw [Value.renderItems, Utf8.encode_append, Utf8.encode_cons]
  · rfl
  · exact List.cons_ne_nil _ _

/-- The items of an array are read one after the other. -/
theorem items?_of_spells {items : List Value} {trees : List Tree}
    (h : List.Forall₂ (fun v t => Spells v.bytes t) items trees) (hne : items ≠ []) {fuel : Nat}
    (hfuel : (encode (Value.renderItems items)).length + 1 < fuel) (rest : Bytes)
    (read : List Tree) :
    items? fuel (encode (Value.renderItems items) ++ 0x5D :: rest) read =
      some (.array (read.reverse ++ trees), rest) := by
  induction h generalizing fuel read with
  | nil => exact absurd rfl hne
  | @cons item tree items trees hitem hitems ih =>
    cases fuel with
    | zero => cases hfuel
    | succ fuel =>
      rw [items?.eq_def]
      cases items with
      | nil =>
        -- the last item ends at the bracket
        cases hitems
        have hvalue := hitem fuel (0x5D :: rest) (Nat.lt_of_succ_lt_succ hfuel)
          (ends_cons (by decide))
        rw [Value.renderItems, ← Value.bytes]
        simp [hvalue, skipBlanks_cons, isBlank]
      | cons next items =>
        -- any other ends at a comma, and the text that is left is shorter by more than the item
        rw [encode_renderItems_cons, List.length_append, List.length_cons] at hfuel
        have hfuel' : (encode (Value.renderItems (next :: items))).length + 1 < fuel := by omega
        have hvalue := hitem fuel (0x2C :: (encode (Value.renderItems (next :: items)) ++
          0x5D :: rest)) (by omega) (ends_cons (by decide))
        have hrest := ih (List.cons_ne_nil _ _) hfuel' (tree :: read)
        rw [encode_renderItems_cons, List.append_assoc, List.cons_append]
        simp [hvalue, skipBlanks_cons, isBlank, hrest]

/-- The text of an array spells the trees of its items. -/
theorem spells_array {items : List Value} {trees : List Tree}
    (h : List.Forall₂ (fun v t => Spells v.bytes t) items trees) :
    Spells (Value.array items).bytes (.array trees) := by
  intro fuel rest hfuel hrest
  -- the fuel is enough for all of the text, so it is for each item
  have htext : (Value.array items).bytes =
      0x5B :: (encode (Value.renderItems items) ++ [0x5D]) := by
    rw [Value.bytes, Value.render, Utf8.encode_cons, Utf8.encode_append]
    rfl
  rw [htext] at hfuel ⊢
  cases fuel with
  | zero => cases hfuel
  | succ fuel =>
    rw [List.cons_append, List.append_assoc, List.singleton_append]
    by_cases hne : items = []
    · subst hne
      cases h
      rw [value?.eq_def]
      simp [Value.renderItems, encode, skipBlanks_cons, isBlank]
    · have hlength : (encode (Value.renderItems items)).length + 1 < fuel := by
        simpa using hfuel
      have hitems := items?_of_spells h hne hlength rest []
      rw [value?_bracket (skipBlanks_ne_of_items? hitems), hitems]
      rfl

/-- A brace that is not closed at once opens an object with members. -/
theorem value?_brace {fuel : Nat} {bs : Bytes} (h : ∀ rest, skipBlanks bs ≠ 0x7D :: rest) :
    value? (fuel + 1) (0x7B :: bs) = members? fuel bs [] := by
  rw [value?.eq_def]
  simp [skipBlanks_cons, isBlank]

theorem skipBlanks_ne_of_members? {fuel : Nat} {bs : Bytes} {read : List (List Piece × Tree)}
    {r : Tree × Bytes} (h : members? fuel bs read = some r) (rest : Bytes) :
    skipBlanks bs ≠ 0x7D :: rest := by
  intro hblanks
  cases fuel with
  | zero => cases h
  | succ fuel =>
    rw [members?.eq_def] at h
    simp only [hblanks] at h
    cases h

/-- A member is its key, a colon, and its item. -/
theorem encode_member (key : String) (item : Value) :
    encode (quoted key ++ ':' :: item.render) =
      0x22 :: (encode (key.toList.flatMap escape) ++ 0x22 :: 0x3A :: item.bytes) := by
  rw [Utf8.encode_append, encode_quoted, Utf8.encode_cons, List.cons_append, List.append_assoc]
  rfl

theorem encode_renderMembers_cons (key : String) (item : Value) (next : String × Value)
    (members : List (String × Value)) :
    encode (Value.renderMembers ((key, item) :: next :: members)) =
      encode (quoted key ++ ':' :: item.render) ++
        0x2C :: encode (Value.renderMembers (next :: members)) := by
  rw [Value.renderMembers]
  · simp only [Utf8.encode_append, Utf8.encode_cons, List.append_assoc]
    rfl
  · exact List.cons_ne_nil _ _

/-- The members of an object are read one after the other. -/
theorem members?_of_spells {members : List (String × Value)} {trees : List (List Piece × Tree)}
    (h : List.Forall₂ (fun m t => t.1 = textPieces m.1 ∧ Spells m.2.bytes t.2) members trees)
    (hne : members ≠ []) {fuel : Nat}
    (hfuel : (encode (Value.renderMembers members)).length + 1 < fuel) (rest : Bytes)
    (read : List (List Piece × Tree)) :
    members? fuel (encode (Value.renderMembers members) ++ 0x7D :: rest) read =
      some (.object (read.reverse ++ trees), rest) := by
  induction h generalizing fuel read with
  | nil => exact absurd rfl hne
  | @cons member tree members trees hmember hmembers ih =>
    obtain ⟨key, item⟩ := member
    obtain ⟨_, tree⟩ := tree
    obtain ⟨rfl, hitem⟩ := hmember
    have hitem : Spells item.bytes tree := hitem
    -- a key and its colon are text too, so the fuel is enough for the item
    have htext := encode_member key item
    have hlength := congrArg List.length htext
    simp only [List.length_cons, List.length_append] at hlength
    cases fuel with
    | zero => cases hfuel
    | succ fuel =>
      rw [members?.eq_def]
      cases members with
      | nil =>
        cases hmembers
        rw [Value.renderMembers] at hfuel ⊢
        have hvalue := hitem fuel (0x7D :: rest) (by omega) (ends_cons (by decide))
        rw [htext]
        simp [skipBlanks_cons, isBlank, pieces?_text, hvalue]
      | cons next members =>
        rw [encode_renderMembers_cons, List.length_append, List.length_cons] at hfuel
        have hfuel' : (encode (Value.renderMembers (next :: members))).length + 1 < fuel := by
          omega
        have hvalue := hitem fuel (0x2C :: (encode (Value.renderMembers (next :: members)) ++
          0x7D :: rest)) (by omega) (ends_cons (by decide))
        have hrest := ih (List.cons_ne_nil _ _) hfuel' ((textPieces key, tree) :: read)
        rw [encode_renderMembers_cons, htext]
        simp [skipBlanks_cons, isBlank, pieces?_text, hvalue, hrest]

/-- The text of an object spells the trees of its members. -/
theorem spells_object {members : List (String × Value)} {trees : List (List Piece × Tree)}
    (h : List.Forall₂ (fun m t => t.1 = textPieces m.1 ∧ Spells m.2.bytes t.2) members trees) :
    Spells (Value.object members).bytes (.object trees) := by
  intro fuel rest hfuel hrest
  -- the fuel is enough for all of the text, so it is for each member
  have htext : (Value.object members).bytes =
      0x7B :: (encode (Value.renderMembers members) ++ [0x7D]) := by
    rw [Value.bytes, Value.render, Utf8.encode_cons, Utf8.encode_append]
    rfl
  rw [htext] at hfuel ⊢
  cases fuel with
  | zero => cases hfuel
  | succ fuel =>
    rw [List.cons_append, List.append_assoc, List.singleton_append]
    by_cases hne : members = []
    · subst hne
      cases h
      rw [value?.eq_def]
      simp [Value.renderMembers, encode, skipBlanks_cons, isBlank]
    · have hlength : (encode (Value.renderMembers members)).length + 1 < fuel := by
        simpa using hfuel
      have hmembers := members?_of_spells h hne hlength rest []
      rw [value?_brace (skipBlanks_ne_of_members? hmembers), hmembers]
      rfl

end ContractHost.Json
