import ContractHost.Text.Decimal

/-!
# Decimal numbers are read as they are written

What is read as a number is a way to write it: its digits behind any number of zeros, with one plus
sign in front or none (`read?_eq_some_iff`). The digits of a number are read as that number
(`read?_digits`). They have no sign and, unless the number is zero, no leading zero
(`head?_digits`), and are the shortest way to write it (`Unsigned.length_le`).
-/

namespace ContractHost.Decimal

theorem isDigit_iff {c : Char} : c.isDigit = true ↔ 0x30 ≤ c.toNat ∧ c.toNat ≤ 0x39 := by
  simp [Char.isDigit, UInt32.le_iff_toNat_le]

theorem digit?_eq_some {c : Char} {d : Nat} :
    digit? c = some d ↔ c.isDigit = true ∧ c.toNat - '0'.toNat = d := by
  have hdigit : c.isDigit = true ↔ '0' ≤ c ∧ c ≤ '9' := by
    simp [Char.isDigit, Char.le_def]
  unfold digit?
  rw [hdigit]
  split
  · simp [*]
  · simp [*]

/-- Digits are worth what they come to, behind those already read. -/
theorem value?_eq_some {cs : List Char} {n m : Nat} :
    value? n cs = some m ↔ (∀ c ∈ cs, c.isDigit = true) ∧ Nat.ofDigitChars 10 cs n = m := by
  induction cs generalizing n with
  | nil => simp [value?]
  | cons c cs ih =>
    rw [value?, List.forall_mem_cons, Nat.ofDigitChars_cons]
    cases hc : digit? c with
    | none =>
      refine iff_of_false nofun fun h => ?_
      cases hc.symm.trans (digit?_eq_some.mpr ⟨h.1.1, rfl⟩)
    | some d =>
      obtain ⟨hdigit, rfl⟩ := digit?_eq_some.mp hc
      simp only [ih, hdigit, true_and]

theorem isDigit_of_mem_digits {n : Nat} {c : Char} (h : c ∈ digits n) : c.isDigit = true :=
  Nat.isDigit_of_mem_toDigits (by decide) (by decide) h

theorem digits_ne_nil (n : Nat) : digits n ≠ [] := Nat.toDigits_ne_nil

theorem ofDigitChars_digits (n : Nat) : Nat.ofDigitChars 10 (digits n) 0 = n :=
  Nat.ofDigitChars_ten_toDigits

/-- Only the digits of zero begin with the digit zero. -/
theorem head?_digits {n : Nat} (h : (digits n).head? = some '0') : n = 0 := by
  induction n using Nat.strongRecOn with
  | ind n ih =>
    rw [digits, Nat.toDigits_eq_if (by decide)] at h
    split at h
    · rw [List.head?_cons, Option.some.injEq, Nat.digitChar_eq_zero] at h
      exact h
    · rename_i hlarge
      have hfront : (digits (n / 10)).head? = some '0' := by
        rw [← digits, List.head?_append] at h
        cases hdigits : digits (n / 10) with
        | nil => exact absurd hdigits (digits_ne_nil _)
        | cons c cs =>
          rw [hdigits] at h
          exact h
      have hzero : n / 10 = 0 := ih (n / 10) (by omega) hfront
      omega

/-! ## All the ways of writing a number -/

/-- A number in digits, however many zeros come first. -/
structure Digits (ds : List Char) (n : Nat) : Prop where
  ne_nil : ds ≠ []
  isDigit : ∀ c ∈ ds, c.isDigit = true
  value : Nat.ofDigitChars 10 ds 0 = n

theorem digits_spec (n : Nat) : Digits (digits n) n :=
  ⟨digits_ne_nil n, fun _ => isDigit_of_mem_digits, ofDigitChars_digits n⟩

/-- A number in digits, with one plus sign in front of it or none. -/
def Unsigned (cs : List Char) (n : Nat) : Prop :=
  Digits cs n ∨ ∃ ds, cs = '+' :: ds ∧ Digits ds n

theorem digits_iff {ds : List Char} {n : Nat} : Digits ds n ↔ ds ≠ [] ∧ value? 0 ds = some n := by
  rw [value?_eq_some]
  exact ⟨fun h => ⟨h.ne_nil, h.isDigit, h.value⟩, fun h => ⟨h.1, h.2.1, h.2.2⟩⟩

/-- No digits start with a sign. -/
theorem not_digits_plus {ds : List Char} {n : Nat} : ¬ Digits ('+' :: ds) n := by
  intro h
  cases h.isDigit '+' List.mem_cons_self

/-- A number is read from all the ways of writing it, and from nothing else. -/
theorem read?_eq_some_iff {cs : List Char} {n bound : Nat} :
    read? bound cs = some n ↔ Unsigned cs n ∧ n < bound := by
  have hdigits : ∀ ds, (if ds.isEmpty then none else (value? 0 ds).filter (· < bound)) = some n ↔
      Digits ds n ∧ n < bound := by
    intro ds
    rw [digits_iff]
    cases ds with
    | nil => simp
    | cons c ds => simp [Option.filter_eq_some_iff]
  unfold read? Unsigned
  split
  · rename_i rest
    rw [hdigits]
    simp [not_digits_plus]
  · rename_i hsign
    rw [hdigits]
    have hplus : ¬ ∃ ds, cs = '+' :: ds ∧ Digits ds n := fun ⟨ds, hcs, _⟩ => hsign ds hcs
    simp only [hplus, or_false]

/-- A number below the bound is read from its digits. -/
theorem read?_digits {n bound : Nat} (h : n < bound) : read? bound (digits n) = some n :=
  read?_eq_some_iff.mpr ⟨.inl (digits_spec n), h⟩

/-- A text stands for one number only. -/
theorem Unsigned.eq {cs : List Char} {n m : Nat} (hn : Unsigned cs n) (hm : Unsigned cs m) :
    n = m := by
  have hread : ∀ {k}, Unsigned cs k → k ≤ max n m → read? (max n m + 1) cs = some k :=
    fun hk hle => read?_eq_some_iff.mpr ⟨hk, Nat.lt_succ_of_le hle⟩
  exact Option.some.inj ((hread hn (Nat.le_max_left n m)).symm.trans
    (hread hm (Nat.le_max_right n m)))

/-! ### The shortest one -/

theorem digits_of_isDigit {c : Char} (h : c.isDigit = true) :
    c.toNat - '0'.toNat < 10 ∧ digits (c.toNat - '0'.toNat) = [c] := by
  obtain ⟨hlow, hhigh⟩ := isDigit_iff.mp h
  have hzero : '0'.toNat = 48 := rfl
  have hlt : c.toNat - '0'.toNat < 10 := by omega
  refine ⟨hlt, ?_⟩
  rw [digits, Nat.toDigits_of_lt_base hlt, List.cons.injEq, ← Char.toNat_inj,
    Nat.toNat_digitChar_of_lt_ten hlt]
  exact ⟨by omega, rfl⟩

/-- Digits behind a number that is not zero go on with its digits. -/
theorem digits_ofDigitChars {ds : List Char} (hds : ∀ c ∈ ds, c.isDigit = true) {n : Nat}
    (hn : 0 < n) : digits (Nat.ofDigitChars 10 ds n) = digits n ++ ds := by
  induction ds generalizing n with
  | nil => simp
  | cons c ds ih =>
    obtain ⟨hc, hds⟩ := List.forall_mem_cons.mp hds
    obtain ⟨hlt, hdigit⟩ := digits_of_isDigit hc
    rw [Nat.ofDigitChars_cons, ih hds (by omega), digits, ← Nat.toDigits_append_toDigits (by decide)
      hn hlt, ← digits, ← digits, hdigit, List.append_assoc, List.singleton_append]

/-- A number in digits is its own digits, and zeros in front of them. -/
theorem Digits.eq_zeros_append {ds : List Char} {n : Nat} (h : Digits ds n) :
    ∃ zeros, ds = List.replicate zeros '0' ++ digits n := by
  induction ds with
  | nil => exact absurd rfl h.ne_nil
  | cons c ds ih =>
    obtain ⟨hc, hds⟩ := List.forall_mem_cons.mp h.isDigit
    have hvalue : Nat.ofDigitChars 10 ds (c.toNat - '0'.toNat) = n := by
      rw [← h.value, Nat.ofDigitChars_cons, Nat.mul_zero, Nat.zero_add]
    by_cases hzero : c = '0'
    · subst hzero
      cases ds with
      | nil =>
        cases hvalue
        exact ⟨0, rfl⟩
      | cons d ds =>
        obtain ⟨zeros, hzeros⟩ := ih ⟨List.cons_ne_nil _ _, hds, hvalue⟩
        exact ⟨zeros + 1, by rw [List.replicate_succ, List.cons_append, ← hzeros]⟩
    · -- the first digit counts, so all the others do
      obtain ⟨-, hdigit⟩ := digits_of_isDigit hc
      have hpos : 0 < c.toNat - '0'.toNat := by
        refine Nat.pos_of_ne_zero fun hd => hzero ?_
        rw [hd] at hdigit
        exact (List.cons.inj hdigit).1.symm
      refine ⟨0, ?_⟩
      rw [← hvalue, digits_ofDigitChars hds hpos, hdigit]
      rfl

/-- The digits of a number are the shortest way to write it. -/
theorem Unsigned.length_le {cs : List Char} {n : Nat} (h : Unsigned cs n) :
    (digits n).length ≤ cs.length ∧ (cs.length = (digits n).length → cs = digits n) := by
  obtain hds | ⟨ds, rfl, hds⟩ := h
  · obtain ⟨zeros, rfl⟩ := hds.eq_zeros_append
    rw [List.length_append, List.length_replicate]
    refine ⟨Nat.le_add_left _ _, fun hlength => ?_⟩
    obtain rfl : zeros = 0 := by omega
    rfl
  · obtain ⟨zeros, rfl⟩ := hds.eq_zeros_append
    rw [List.length_cons, List.length_append, List.length_replicate]
    exact ⟨by omega, fun hlength => absurd hlength (by omega)⟩

end ContractHost.Decimal
