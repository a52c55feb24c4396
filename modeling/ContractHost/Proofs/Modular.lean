import Mathlib.FieldTheory.Finite.Basic
import ContractHost.Crypto.Modular

/-!
# Modular arithmetic

A number is read bit by bit, and whatever doubles with each bit and adds one for each that is set
comes to that number (`foldl_bits`). So powers are powers (`cast_pow`), and a multiple of a point is
the sum of as many of it (`multiple_induction`).

What is computed with representatives is what it stands for among the residues modulo `m`:
differences (`cast_sub`), powers, and modulo a prime also inverses (`cast_inverse`).
-/

namespace ContractHost.Modular

/-! ## Bits -/

/-- The bits of a number, the highest one first. -/
theorem bits_succ (width n : Nat) : bits (width + 1) n = n.testBit width :: bits width n := by
  simp [bits, List.range_succ]

/-- The bits of a number are read onto a number that is there already. -/
theorem foldl_bits {β : Type} (R : β → Nat → Prop) (step : β → Bool → β)
    (hstep : ∀ {b k}, R b k → ∀ bit : Bool, R (step b bit) (2 * k + bit.toNat)) {b : β} {k : Nat}
    (h : R b k) (width n : Nat) :
    R ((bits width n).foldl step b) (k * 2 ^ width + n % 2 ^ width) := by
  induction width generalizing b k with
  | zero =>
    rw [pow_zero, mul_one, Nat.mod_one, add_zero]
    exact h
  | succ width ih =>
    have hvalue : (2 * k + (n.testBit width).toNat) * 2 ^ width + n % 2 ^ width =
        k * 2 ^ (width + 1) + n % 2 ^ (width + 1) := by
      rw [Nat.mod_pow_succ, Nat.toNat_testBit]
      ring
    have hrest := ih (hstep h (n.testBit width))
    rw [hvalue] at hrest
    rw [bits_succ, List.foldl_cons]
    exact hrest

theorem foldl_bits_of_lt {β : Type} (R : β → Nat → Prop) (step : β → Bool → β)
    (hstep : ∀ {b k}, R b k → ∀ bit : Bool, R (step b bit) (2 * k + bit.toNat)) {b : β}
    (h : R b 0) {width n : Nat} (hn : n < 2 ^ width) : R ((bits width n).foldl step b) n := by
  have hbits := foldl_bits R step hstep h width n
  rwa [Nat.zero_mul, Nat.zero_add, Nat.mod_eq_of_lt hn] at hbits

/-- What holds of nothing taken no times, and is kept by doubling and by taking the point once more,
holds of a multiple and the number of times that it takes the point. -/
theorem multiple_induction {α : Type} {zero : α} {add : α → α → α} {a : α} (R : α → Nat → Prop)
    (hzero : R zero 0) (hdouble : ∀ {b k}, R b k → R (add b b) (2 * k))
    (hadd : ∀ {b k}, R b k → R (add b a) (k + 1)) {n : Nat} (hn : n < 2 ^ 256) :
    R (multiple zero add n a) n := by
  refine foldl_bits_of_lt R _ ?_ hzero hn
  intro b k hb bit
  cases bit with
  | false => exact hdouble hb
  | true => exact hadd (hdouble hb)

/-! ## Residues -/

variable {m a b e : Nat}

theorem natCast_ne_zero (hpos : a ≠ 0) (hlt : a < m) : (a : ZMod m) ≠ 0 := by
  rw [Ne, ZMod.natCast_eq_zero_iff]
  exact Nat.not_dvd_of_pos_of_lt (Nat.pos_of_ne_zero hpos) hlt

theorem sub_lt (hm : 0 < m) : sub m a b < m := Nat.mod_lt _ hm

/-- A difference modulo a number is one in the ring. -/
theorem cast_sub (h : b ≤ m) : (sub m a b : ZMod m) = a - b := by
  rw [sub, ZMod.natCast_mod, Nat.cast_add, Nat.cast_sub h, ZMod.natCast_self]
  ring

theorem pow_lt (hm : 1 < m) : pow m a e < m := by
  refine foldl_bits (fun (acc _ : Nat) => acc < m) _ ?_ (k := 0) hm 256 e
  intro acc k _ bit
  cases bit with
  | false => exact Nat.mod_lt _ (Nat.zero_lt_of_lt hm)
  | true => exact Nat.mod_lt _ (Nat.zero_lt_of_lt hm)

/-- Squaring and multiplying bit by bit comes to the power. -/
theorem cast_pow (he : e < 2 ^ 256) : (pow m a e : ZMod m) = (a : ZMod m) ^ e := by
  refine foldl_bits_of_lt (fun (acc k : Nat) => (acc : ZMod m) = (a : ZMod m) ^ k) _ ?_ ?_ he
  · intro acc k hacc bit
    cases bit with
    | false => simp [hacc, two_mul, pow_add]
    | true => simp [hacc, two_mul, pow_add]
  · rw [Nat.cast_one, pow_zero]

/-- By Fermat's theorem, the last power but one is the inverse modulo a prime. -/
theorem cast_inverse [hm : Fact m.Prime] (h : m < 2 ^ 256) (ha : (a : ZMod m) ≠ 0) :
    (inverse m a : ZMod m) = (a : ZMod m)⁻¹ := by
  have hlast : m - 2 + 1 = m - 1 := by
    have htwo : 2 ≤ m := hm.out.two_le
    omega
  rw [inverse, cast_pow (Nat.lt_of_le_of_lt (Nat.sub_le m 2) h)]
  apply eq_inv_of_mul_eq_one_left
  rw [← pow_succ, hlast]
  exact ZMod.pow_card_sub_one_eq_one ha

end ContractHost.Modular
