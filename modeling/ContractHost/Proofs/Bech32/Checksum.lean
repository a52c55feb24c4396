import ContractHost.Bech32.Checksum

/-!
# The checksum is good, and one changed word makes it bad

A step moves the coefficients of a remainder up and adds what the one that falls out is reduced to
(`step_eq`). It is linear in the remainder (`step_xor`), and no remainder but zero is taken to zero
(`eq_zero_of_step_eq_zero`), so a step forgets nothing. Two lists of words that differ in one place
have different remainders, however long they are (`eq_of_remainder_eq`).

The words of a checksum are the coefficients of a remainder, and stepping through them from zero on
gives it back (`foldl_step_coefficients`); by linearity they make any remainder the variant's
(`remainder_checksum`). As six words fit into a remainder, they are told by it
(`coefficients_foldl_step`), and no others make it the variant's (`eq_checksum`).
-/

namespace ContractHost.Bech32

/-! ## One step -/

/-- What the coefficient that falls out of a remainder is reduced to. -/
def reduction (s : BitVec 30) : BitVec 30 :=
  tap s 0 0x3b6a57b2 ^^^ tap s 1 0x26508e6d ^^^ tap s 2 0x1ea119fa ^^^ tap s 3 0x3d4233dd ^^^
    tap s 4 0x2a1462b3

theorem step_eq (s : BitVec 30) (w : Word) :
    step s w = (s <<< 5) ^^^ w.zeroExtend 30 ^^^ reduction s := by
  unfold step reduction
  ac_rfl

theorem tap_xor (a b : BitVec 30) (i : Nat) (g : BitVec 30) :
    tap (a ^^^ b) i g = tap a i g ^^^ tap b i g := by
  unfold tap
  rw [BitVec.getLsbD_xor]
  cases a.getLsbD (25 + i) <;> cases b.getLsbD (25 + i) <;> simp

theorem reduction_xor (a b : BitVec 30) : reduction (a ^^^ b) = reduction a ^^^ reduction b := by
  simp only [reduction, tap_xor]
  ac_rfl

/-- A step is linear in the remainder. -/
theorem step_xor (a b : BitVec 30) (w : Word) : step (a ^^^ b) w = step a 0 ^^^ step b w := by
  have hzero : (0 : Word).zeroExtend 30 = 0#30 := rfl
  rw [step_eq, step_eq, step_eq, reduction_xor, BitVec.shiftLeft_xor_distrib, hzero,
    BitVec.xor_zero]
  ac_rfl

/-- Nothing falls out of a remainder without a leading coefficient. -/
theorem reduction_eq_zero {s : BitVec 30} (h : ∀ i < 5, s.getLsbD (25 + i) = false) :
    reduction s = 0#30 := by
  have htap : ∀ i < 5, ∀ g, tap s i g = 0#30 := by
    intro i hi g
    rw [tap, h i hi]
    rfl
  rw [reduction, htap 0 (by decide), htap 1 (by decide), htap 2 (by decide), htap 3 (by decide),
    htap 4 (by decide)]
  rfl

/-- The last coefficients of what the five bits are reduced to are linearly independent. -/
theorem taps_independent : ∀ b₀ b₁ b₂ b₃ b₄ : Bool,
    ((if b₀ then 0x3b6a57b2#30 else 0) ^^^ (if b₁ then 0x26508e6d#30 else 0) ^^^
      (if b₂ then 0x1ea119fa#30 else 0) ^^^ (if b₃ then 0x3d4233dd#30 else 0) ^^^
      (if b₄ then 0x2a1462b3#30 else 0)).setWidth 5 = 0#5 →
    b₀ = false ∧ b₁ = false ∧ b₂ = false ∧ b₃ = false ∧ b₄ = false := by
  decide

/-- What fell out shows in the last coefficient. -/
theorem leading_eq_false {s : BitVec 30} (h : (reduction s).setWidth 5 = 0#5) :
    ∀ i < 5, s.getLsbD (25 + i) = false := by
  obtain ⟨h₀, h₁, h₂, h₃, h₄⟩ := taps_independent _ _ _ _ _ h
  intro i hi
  match i, hi with
  | 0, _ => exact h₀
  | 1, _ => exact h₁
  | 2, _ => exact h₂
  | 3, _ => exact h₃
  | 4, _ => exact h₄

/-- A step takes no remainder but zero to zero. -/
theorem eq_zero_of_step_eq_zero {s : BitVec 30} (h : step s 0 = 0#30) : s = 0#30 := by
  have hzero : (0 : Word).zeroExtend 30 = 0#30 := rfl
  rw [step_eq, hzero, BitVec.xor_zero] at h
  have hlast : (reduction s).setWidth 5 = 0#5 := by
    have hshift : (s <<< 5).setWidth 5 = 0#5 := by
      apply BitVec.eq_of_getLsbD_eq
      intro i hi
      simp [hi]
    have hlow := congrArg (BitVec.setWidth 5) h
    rwa [BitVec.setWidth_xor, hshift, BitVec.zero_xor] at hlow
  have hleading := leading_eq_false hlast
  rw [reduction_eq_zero hleading, BitVec.xor_zero] at h
  -- the other coefficients have only moved up
  apply BitVec.eq_of_getLsbD_eq
  intro i hi
  by_cases hi' : i < 25
  · have hbit := congrArg (fun x => x.getLsbD (i + 5)) h
    simpa [show i + 5 < 30 by omega, hi] using hbit
  · have hbit := hleading (i - 25) (by omega)
    rw [show 25 + (i - 25) = i by omega] at hbit
    simpa using hbit

/-- A step forgets nothing of the remainder. -/
theorem step_left_injective {a b : BitVec 30} {w : Word} (h : step a w = step b w) : a = b := by
  have hxor : step (a ^^^ b) 0 ^^^ step b w = step a w := by
    rw [← step_xor, BitVec.xor_assoc, BitVec.xor_self, BitVec.xor_zero]
  have hzero : step (a ^^^ b) 0 = 0#30 := by
    rwa [h, ← BitVec.zero_xor (x := step b w), ← BitVec.xor_assoc, BitVec.xor_left_inj,
      BitVec.xor_zero] at hxor
  exact BitVec.xor_eq_zero_iff.mp (eq_zero_of_step_eq_zero hzero)

/-- A step forgets nothing of the word. -/
theorem step_right_injective {s : BitVec 30} {v w : Word} (h : step s v = step s w) : v = w := by
  rw [step_eq, step_eq, BitVec.xor_left_inj, BitVec.xor_right_inj] at h
  apply BitVec.eq_of_getLsbD_eq
  intro i hi
  have hbit := congrArg (fun x => x.getLsbD i) h
  simpa [show i < 30 by omega] using hbit

/-- A remainder without its last coefficients, stepped by the next one. -/
theorem step_ushiftRight (r : BitVec 30) (n : Nat) :
    step (r >>> (n + 5)) ((r >>> n).setWidth 5) = r >>> n := by
  have hleading : ∀ i < 5, (r >>> (n + 5)).getLsbD (25 + i) = false := by
    intro i hi
    rw [BitVec.getLsbD_ushiftRight]
    exact BitVec.getLsbD_of_ge _ _ (by omega)
  rw [step_eq, reduction_eq_zero hleading, BitVec.xor_zero]
  apply BitVec.eq_of_getLsbD_eq
  intro i hi
  by_cases hi' : i < 5
  · simp [hi, hi']
  · simp [hi, hi', show n + 5 + (i - 5) = n + i by omega]

/-! ## Lists of words -/

theorem remainder_append (xs ys : List Word) :
    remainder (xs ++ ys) = ys.foldl step (remainder xs) :=
  List.foldl_append

theorem foldl_step_injective {a b : BitVec 30} {ws : List Word}
    (h : ws.foldl step a = ws.foldl step b) : a = b := by
  induction ws generalizing a b with
  | nil => exact h
  | cons w ws ih => exact step_left_injective (ih h)

/-- Two lists that differ in no more than one word are one list if they have one remainder. -/
theorem eq_of_remainder_eq {xs ys : List Word} {v w : Word}
    (h : remainder (xs ++ v :: ys) = remainder (xs ++ w :: ys)) : v = w := by
  rw [remainder_append, remainder_append, List.foldl_cons, List.foldl_cons] at h
  exact step_right_injective (foldl_step_injective h)

/-- A word put in another's place is that word if the remainder stays. -/
theorem eq_getElem_of_remainder_set {xs ws : List Word} {i : Nat} {w : Word} (hi : i < ws.length)
    (h : remainder (xs ++ ws.set i w) = remainder (xs ++ ws)) : w = ws[i] := by
  rw [← List.set_getElem_self hi, List.set_set, List.set_eq_take_append_cons_drop, if_pos hi] at h
  rw [List.set_eq_take_append_cons_drop, if_pos hi, ← List.append_assoc, ← List.append_assoc] at h
  exact eq_of_remainder_eq h

/-- What an exclusive or adds to the remainder does not depend on the words. -/
theorem foldl_step_xor (a b : BitVec 30) (ws : List Word) :
    ws.foldl step (a ^^^ b) = (List.replicate ws.length 0).foldl step a ^^^ ws.foldl step b := by
  induction ws generalizing a b with
  | nil => rfl
  | cons w ws ih =>
    rw [List.foldl_cons, step_xor, ih]
    rfl

/-! ## The checksum -/

/-- The coefficients of a remainder, the leading one first. -/
def coefficients (r : BitVec 30) : List Word :=
  (List.range checksumLength).map fun i => (r >>> (5 * (5 - i))).setWidth 5

theorem length_coefficients (r : BitVec 30) : (coefficients r).length = checksumLength := by
  simp [coefficients]

theorem checksum_eq (variant : Variant) (hrp : List Char) (data : List Word) :
    checksum variant hrp data = coefficients
      (remainder (expand hrp ++ data ++ List.replicate checksumLength 0) ^^^ variant.residue) :=
  rfl

/-- Stepping through its coefficients gives a remainder back. -/
theorem foldl_step_coefficients (r : BitVec 30) : (coefficients r).foldl step 0#30 = r := by
  have hzero : (0#30 : BitVec 30) = r >>> (25 + 5) := by
    rw [BitVec.ushiftRight_eq_zero (Nat.le_refl 30)]
  have hcoefficients : coefficients r = [(r >>> 25).setWidth 5, (r >>> 20).setWidth 5,
    (r >>> 15).setWidth 5, (r >>> 10).setWidth 5, (r >>> 5).setWidth 5, (r >>> 0).setWidth 5] := rfl
  rw [hcoefficients, hzero]
  simp only [List.foldl_cons, List.foldl_nil]
  rw [step_ushiftRight r 25, step_ushiftRight r 20, step_ushiftRight r 15, step_ushiftRight r 10,
    step_ushiftRight r 5, step_ushiftRight r 0, BitVec.ushiftRight_zero]

/-- Words with their checksum have the variant's remainder. -/
theorem remainder_checksum (variant : Variant) (hrp : List Char) (data : List Word) :
    remainder (expand hrp ++ (data ++ checksum variant hrp data)) = variant.residue := by
  rw [checksum_eq]
  generalize hr : remainder (expand hrp ++ data ++ List.replicate checksumLength 0) = r
  rw [remainder_append] at hr
  calc remainder (expand hrp ++ (data ++ coefficients (r ^^^ variant.residue)))
      = (coefficients (r ^^^ variant.residue)).foldl step
          (remainder (expand hrp ++ data) ^^^ 0#30) := by
        rw [← List.append_assoc, remainder_append, BitVec.xor_zero]
    _ = r ^^^ (r ^^^ variant.residue) := by
        rw [foldl_step_xor, length_coefficients, hr, foldl_step_coefficients]
    _ = variant.residue := by
        rw [← BitVec.xor_assoc, BitVec.xor_self, BitVec.zero_xor]

theorem variant?_checksum (variant : Variant) (hrp : List Char) (data : List Word) :
    variant? hrp (data ++ checksum variant hrp data) = some variant := by
  unfold variant?
  rw [remainder_checksum]
  cases variant with
  | bech32 => rfl
  | bech32m => rfl

/-! ## No other words make a good checksum -/

/-- The bits of a remainder from the given one on are zero. -/
def Below (n : Nat) (s : BitVec 30) : Prop := ∀ i, n ≤ i → s.getLsbD i = false

section
variable {n : Nat} {s : BitVec 30} (h : Below n s)
include h

/-- A step of a remainder without a leading coefficient only moves the coefficients up. -/
theorem getLsbD_step (hn : n ≤ 25) (w : Word) (i : Nat) :
    (step s w).getLsbD i = if i < 5 then w.getLsbD i else s.getLsbD (i - 5) := by
  have hleading : ∀ j < 5, s.getLsbD (25 + j) = false := fun j _ => h (25 + j) (by omega)
  rw [step_eq, reduction_eq_zero hleading, BitVec.xor_zero, BitVec.getLsbD_xor,
    BitVec.getLsbD_shiftLeft, BitVec.getLsbD_setWidth]
  by_cases hi : i < 5
  · simp [hi, show i < 30 by omega]
  · rw [if_neg hi, BitVec.getLsbD_of_ge w i (by omega)]
    by_cases hi' : i < 30
    · simp [hi, hi']
    · simp [hi', h (i - 5) (by omega)]

theorem below_step (hn : n ≤ 25) (w : Word) : Below (n + 5) (step s w) := by
  intro i hi
  rw [getLsbD_step h hn, if_neg (by omega)]
  exact h _ (by omega)

theorem step_ushiftRight_add (hn : n ≤ 25) (w : Word) (k : Nat) :
    step s w >>> (5 + k) = s >>> k := by
  apply BitVec.eq_of_getLsbD_eq
  intro i _
  rw [BitVec.getLsbD_ushiftRight, BitVec.getLsbD_ushiftRight, getLsbD_step h hn,
    if_neg (by omega)]
  congr 1
  omega

theorem setWidth_step (hn : n ≤ 25) (w : Word) : (step s w).setWidth 5 = w := by
  apply BitVec.eq_of_getLsbD_eq
  intro i hi
  rw [BitVec.getLsbD_setWidth, getLsbD_step h hn, if_pos hi]
  simp [hi]

/-- Words that fit behind a remainder move it up as a whole. -/
theorem foldl_step_ushiftRight_add (ws : List Word) (hws : n + 5 * ws.length ≤ 30) (k : Nat) :
    ws.foldl step s >>> (5 * ws.length + k) = s >>> k := by
  induction ws generalizing n s k with
  | nil => rw [List.foldl_nil, List.length_nil, Nat.mul_zero, Nat.zero_add]
  | cons w ws ih =>
    rw [List.length_cons] at hws
    rw [List.foldl_cons, List.length_cons, Nat.mul_succ, Nat.add_assoc,
      ih (below_step h (by omega) w) (by omega), step_ushiftRight_add h (by omega)]

/-- Words that fit behind a remainder are its last coefficients then. -/
theorem setWidth_foldl_step (ws : List Word) (hws : n + 5 * ws.length ≤ 30) {i : Nat}
    (hi : i < ws.length) :
    (ws.foldl step s >>> (5 * (ws.length - 1 - i))).setWidth 5 = ws[i] := by
  induction ws generalizing n s i with
  | nil => exact absurd hi (Nat.not_lt_zero i)
  | cons w ws ih =>
    rw [List.length_cons] at hws
    have hstep := below_step h (show n ≤ 25 by omega) w
    -- the first word is shifted out by all that follow it, the others are those of a shorter list
    cases i with
    | zero =>
      have hshift := foldl_step_ushiftRight_add hstep ws (by omega) 0
      rw [BitVec.ushiftRight_zero, Nat.add_zero] at hshift
      rw [List.foldl_cons, List.length_cons, Nat.add_sub_cancel, Nat.sub_zero, hshift,
        setWidth_step h (by omega)]
      rfl
    | succ i =>
      have hlength : (w :: ws).length - 1 - (i + 1) = ws.length - 1 - i := by
        rw [List.length_cons]
        omega
      rw [List.foldl_cons, hlength]
      exact ih hstep (by omega) (Nat.lt_of_succ_lt_succ hi)

end

/-- The words of a checksum are the coefficients of what stepping through them from zero on
gives. -/
theorem coefficients_foldl_step {ws : List Word} (h : ws.length = checksumLength) :
    coefficients (ws.foldl step 0#30) = ws := by
  have hzero : Below 0 0#30 := fun i _ => BitVec.getLsbD_zero
  refine List.ext_getElem (by rw [length_coefficients, h]) fun i _ hi => ?_
  have hword := setWidth_foldl_step hzero ws (by rw [h]; decide) hi
  rw [h] at hword
  simp only [coefficients, List.getElem_map, List.getElem_range]
  exact hword

/-- No other words than the checksum make the remainder the variant's. -/
theorem eq_checksum {variant : Variant} {hrp : List Char} {data ws : List Word}
    (hlength : ws.length = checksumLength)
    (h : remainder (expand hrp ++ (data ++ ws)) = variant.residue) :
    ws = checksum variant hrp data := by
  have hsame : remainder (expand hrp ++ data ++ ws) =
      remainder (expand hrp ++ data ++ checksum variant hrp data) := by
    rw [List.append_assoc, List.append_assoc, h, remainder_checksum]
  have hchecksum : (checksum variant hrp data).length = checksumLength := by
    rw [checksum_eq, length_coefficients]
  rw [remainder_append (expand hrp ++ data) ws, remainder_append (expand hrp ++ data) _,
    ← BitVec.xor_zero (x := remainder (expand hrp ++ data)), foldl_step_xor, foldl_step_xor,
    hlength, hchecksum, BitVec.xor_right_inj] at hsame
  rw [← coefficients_foldl_step hlength, hsame, coefficients_foldl_step hchecksum]

end ContractHost.Bech32
