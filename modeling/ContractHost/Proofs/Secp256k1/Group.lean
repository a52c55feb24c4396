import Mathlib.GroupTheory.Perm.Cycle.Type
import ContractHost.Proofs.Secp256k1.Addition
import ContractHost.Proofs.Secp256k1.Primes

/-!
# The group of the curve

Points are computed with as triples of numbers, which represent points of the curve over the field
(`Represents`). What is computed is what it says: sums, negatives and multiples of representatives
represent those of the points, and the coordinates of a representative are those of the point
(`affine?_of_represents`).

The group has prime order (`groupOrder_nsmul`). The base point has that order; there are at most two
points above each first coordinate, so a larger group would have twice as many points and one of
order two; and the second coordinate of that point would be zero, but minus seven is no cube.
-/

namespace ContractHost.Secp256k1

open Coordinates (normal)

/-- The points of the curve over the field. -/
abbrev Group := (curve (ZMod fieldPrime)).Point

/-- The elements of the field have 256 bits. -/
theorem fieldPrime_lt : fieldPrime < 2 ^ 256 := by decide

theorem one_lt_fieldPrime : 1 < fieldPrime := by decide

theorem groupOrder_lt : groupOrder < 2 ^ 256 := by decide

/-! ## The field -/

theorem two_ne_zero_field : (2 : ZMod fieldPrime) ≠ 0 :=
  Modular.natCast_ne_zero (a := 2) (by decide) (by decide)

theorem seven_ne_zero : (7 : ZMod fieldPrime) ≠ 0 :=
  Modular.natCast_ne_zero (a := 7) (by decide) (by decide)

/-- Minus seven is no cube, by its power of a third of the order of the field's units. -/
theorem cube_ne_neg_seven (x : ZMod fieldPrime) : x ^ 3 ≠ -7 := by
  intro hx
  have hseven : ((fieldPrime - 7 : Nat) : ZMod fieldPrime) = -7 := by
    rw [Nat.cast_sub (by decide), ZMod.natCast_self, zero_sub]
    rfl
  have hpower : ((fieldPrime - 7 : Nat) : ZMod fieldPrime) ^ ((fieldPrime - 1) / 3) ≠ 1 := by
    -- the power is worked out with numbers, by squaring, and not in the field
    rw [← Modular.cast_pow (by decide)]
    intro hone
    have hmod : Modular.pow fieldPrime (fieldPrime - 7) ((fieldPrime - 1) / 3) % fieldPrime =
        1 % fieldPrime := by
      rw [← ZMod.natCast_eq_natCast_iff', hone, Nat.cast_one]
    revert hmod
    decide +kernel
  have hne : x ≠ 0 := by
    rintro rfl
    apply seven_ne_zero
    linear_combination hx
  apply hpower
  rw [hseven, ← hx, ← pow_mul]
  have hcard : 3 * ((fieldPrime - 1) / 3) = fieldPrime - 1 := by decide
  rw [hcard]
  exact ZMod.pow_card_sub_one_eq_one hne

/-- The curve has no point of order two, as seven is no cube of the field. -/
theorem noTwoTorsion : NoTwoTorsion (ZMod fieldPrime) where
  two_ne_zero := two_ne_zero_field
  y_ne_zero {x y} h := by
    rintro rfl
    apply cube_ne_neg_seven x
    linear_combination -h

/-! ## Representatives -/

/-- The coordinates of a triple of numbers. -/
def Point.coordinates (p : Point) : Coordinates (ZMod fieldPrime) := ⟨p.x, p.y, p.z⟩

/-- A triple of numbers below the field's modulus represents a point if it has coordinates of it. -/
structure Represents (p : Point) (a : Group) : Prop where
  x_lt : p.x < fieldPrime
  y_lt : p.y < fieldPrime
  z_lt : p.z < fieldPrime
  of : p.coordinates.Of a

/-- Coordinates that are not scaled represent their point. -/
theorem represents_of_normal {p : Point} {a : Group} (hx : p.x < fieldPrime)
    (hy : p.y < fieldPrime) (hz : p.z < fieldPrime) (h : p.coordinates = normal a) :
    Represents p a where
  x_lt := hx
  y_lt := hy
  z_lt := hz
  of := by
    rw [h]
    exact Coordinates.of_normal a

/-- Words are added by the formula of the field. -/
theorem coordinates_add (p q : Point) :
    (add p q).coordinates = p.coordinates.add q.coordinates := by
  have hle (n : Nat) : n % fieldPrime ≤ fieldPrime := (Nat.mod_lt n (by decide)).le
  ext
  · simp only [Point.coordinates, add, Coordinates.add, Modular.cast_sub (hle _),
      ZMod.natCast_mod, Nat.cast_mul, Nat.cast_add, Nat.cast_ofNat]
    ring
  · simp only [Point.coordinates, add, Coordinates.add, Modular.cast_sub (hle _),
      ZMod.natCast_mod, Nat.cast_mul, Nat.cast_add, Nat.cast_ofNat]
    ring
  · simp only [Point.coordinates, add, Coordinates.add, Modular.cast_sub (hle _),
      ZMod.natCast_mod, Nat.cast_mul, Nat.cast_add, Nat.cast_ofNat]
    ring

section
variable {p q : Point} {a b : Group}

/-- What is added represents the sum, whatever the two points are. -/
theorem Represents.add (hp : Represents p a) (hq : Represents q b) :
    Represents (add p q) (a + b) where
  x_lt := Modular.sub_lt (by decide)
  y_lt := Nat.mod_lt _ (by decide)
  z_lt := Nat.mod_lt _ (by decide)
  of := by
    rw [coordinates_add]
    exact hp.of.add noTwoTorsion hq.of

/-- What is negated represents the negative. -/
theorem Represents.neg (hp : Represents p a) : Represents (neg p) (-a) where
  x_lt := hp.x_lt
  y_lt := Modular.sub_lt (by decide)
  z_lt := hp.z_lt
  of := by
    have hneg : (Secp256k1.neg p).coordinates =
        ⟨p.coordinates.x, -p.coordinates.y, p.coordinates.z⟩ := by
      simp [Point.coordinates, Secp256k1.neg, Modular.cast_sub hp.y_lt.le]
    rw [hneg]
    exact hp.of.neg

theorem represents_infinity : Represents infinity 0 := by
  apply represents_of_normal (by decide) (by decide) (by decide)
  simp [Point.coordinates, infinity]

/-- Doubling and adding bit by bit represents the multiple. -/
theorem Represents.multiple (hp : Represents p a) {n : Nat} (hn : n < 2 ^ 256) :
    Represents (multiple n p) (n • a) := by
  refine Modular.multiple_induction (fun q k => Represents q (k • a)) ?_ ?_ ?_ hn
  · rw [zero_nsmul]
    exact represents_infinity
  · intro q k hq
    rw [two_mul, add_nsmul]
    exact hq.add hq
  · intro q k hq
    rw [succ_nsmul]
    exact hq.add hp

end

/-! ## Coordinates of a point -/

/-- The coordinates of a point as numbers, if it is not at infinity. -/
def numbers? : Group → Option (Nat × Nat)
  | .zero => none
  | .some x y _ => some (x.val, y.val)

/-- The equation of the curve, checked with numbers. -/
theorem square_eq_cubic_iff {x y : Nat} :
    y * y % fieldPrime = cubic x ↔ (y : ZMod fieldPrime) ^ 2 = (x : ZMod fieldPrime) ^ 3 + 7 := by
  have hcubic : (cubic x : ZMod fieldPrime) = (x : ZMod fieldPrime) ^ 3 + 7 := by
    simp only [cubic, ZMod.natCast_mod, Nat.cast_add, Nat.cast_mul, Nat.cast_ofNat]
    ring
  have hmod : cubic x % fieldPrime = cubic x := Nat.mod_mod _ _
  rw [← hmod, ← ZMod.natCast_eq_natCast_iff', hcubic, Nat.cast_mul, sq]

/-- A pair of numbers that satisfies the equation is one of a point. -/
theorem exists_of_square_eq_cubic {x y : Nat} (hx : x < fieldPrime) (hy : y < fieldPrime)
    (h : y * y % fieldPrime = cubic x) : ∃ a, numbers? a = some (x, y) := by
  refine ⟨.some x y (noTwoTorsion.nonsingular (square_eq_cubic_iff.mp h)), ?_⟩
  rw [numbers?, ZMod.val_cast_of_lt hx, ZMod.val_cast_of_lt hy]

/-- The coordinates of a point satisfy the equation, and represent it. -/
theorem of_numbers? {a : Group} {x y : Nat} (h : numbers? a = some (x, y)) :
    x < fieldPrime ∧ y < fieldPrime ∧ y * y % fieldPrime = cubic x ∧ Represents ⟨x, y, 1⟩ a := by
  cases a with
  | zero => exact absurd h (by simp [numbers?])
  | some x' y' hxy =>
    rw [numbers?, Option.some.injEq, Prod.mk.injEq] at h
    obtain ⟨rfl, rfl⟩ := h
    have hx := ZMod.val_lt x'
    have hy := ZMod.val_lt y'
    refine ⟨hx, hy, ?_, represents_of_normal hx hy one_lt_fieldPrime ?_⟩
    · rw [square_eq_cubic_iff, ZMod.natCast_zmod_val, ZMod.natCast_zmod_val]
      exact equation_of_nonsingular hxy
    · rw [Coordinates.normal_some, Point.coordinates, ZMod.natCast_zmod_val,
        ZMod.natCast_zmod_val, Nat.cast_one]

/-- Only representatives of infinity have no last coordinate. -/
theorem Represents.z_eq_zero_iff {p : Point} {a : Group} (h : Represents p a) :
    p.z = 0 ↔ a = 0 := by
  have hcast : (p.z : ZMod fieldPrime) = 0 ↔ p.z = 0 := by
    rw [ZMod.natCast_eq_zero_iff]
    exact ⟨fun hdvd => Nat.eq_zero_of_dvd_of_lt hdvd h.z_lt, fun hzero => hzero ▸ dvd_zero _⟩
  obtain ⟨c, hc, hp⟩ := h.of
  have hz : (p.z : ZMod fieldPrime) = c * (normal a).z := congrArg Coordinates.z hp
  rw [← hcast, hz, mul_eq_zero, or_iff_right hc]
  cases a with
  | zero => exact ⟨fun _ => rfl, fun _ => rfl⟩
  | some x y hxy =>
    have hone : (1 : ZMod fieldPrime) ≠ 0 := one_ne_zero
    exact ⟨fun hnormal => absurd hnormal hone,
      fun hpoint => absurd hpoint (WeierstrassCurve.Affine.Point.some_ne_zero _)⟩

/-- The coordinates of a representative are those of the point. -/
theorem affine?_of_represents {p : Point} {a : Group} (h : Represents p a) :
    affine? p = numbers? a := by
  obtain ⟨c, hc, hp⟩ := h.of
  cases a with
  | zero => rw [affine?, if_pos (h.z_eq_zero_iff.mpr rfl), numbers?]
  | some x y hxy =>
    have hx : (p.x : ZMod fieldPrime) = c * x := congrArg Coordinates.x hp
    have hy : (p.y : ZMod fieldPrime) = c * y := congrArg Coordinates.y hp
    have hz : (p.z : ZMod fieldPrime) = c := by
      simpa [Point.coordinates, Coordinates.scale] using congrArg Coordinates.z hp
    have hne : p.z ≠ 0 := by
      rw [Ne, h.z_eq_zero_iff]
      exact WeierstrassCurve.Affine.Point.some_ne_zero _
    have hinverse : (Modular.inverse fieldPrime p.z : ZMod fieldPrime) = c⁻¹ := by
      rw [Modular.cast_inverse fieldPrime_lt (hz ▸ hc), hz]
    have hquotient {n : Nat} {t : ZMod fieldPrime} (hn : (n : ZMod fieldPrime) = c * t) :
        n * Modular.inverse fieldPrime p.z % fieldPrime = t.val := by
      rw [← ZMod.val_natCast, Nat.cast_mul, hinverse, hn, mul_comm c t, mul_inv_cancel_right₀ hc]
    simp only [affine?, if_neg hne, numbers?, hquotient hx, hquotient hy]

/-- What is lifted to a point is its first coordinate. -/
theorem represents_of_lift? {x : Nat} {odd : Bool} {p : Point} (h : lift? x odd = some p) :
    ∃ a y, Represents p a ∧ numbers? a = some (x, y) := by
  simp only [lift?] at h
  split at h
  · exact absurd h (by simp)
  · rename_i hx
    split at h
    · rename_i hsquare
      obtain rfl := Option.some.inj h
      have hroot : Modular.pow fieldPrime (cubic x) ((fieldPrime + 1) / 4) < fieldPrime :=
        Modular.pow_lt one_lt_fieldPrime
      -- the root itself does not matter from here on, only that its square is right
      generalize Modular.pow fieldPrime (cubic x) ((fieldPrime + 1) / 4) = y at hsquare hroot
      split
      · obtain ⟨a, ha⟩ := exists_of_square_eq_cubic (Nat.lt_of_not_le hx) hroot hsquare
        exact ⟨a, y, (of_numbers? ha).2.2.2, ha⟩
      · have hneg : Modular.sub fieldPrime 0 y * Modular.sub fieldPrime 0 y % fieldPrime =
            cubic x := by
          rw [square_eq_cubic_iff] at hsquare ⊢
          rw [Modular.cast_sub hroot.le, Nat.cast_zero, zero_sub, neg_sq, hsquare]
        obtain ⟨a, ha⟩ := exists_of_square_eq_cubic (Nat.lt_of_not_le hx)
          (Modular.sub_lt (by decide)) hneg
        exact ⟨a, _, (of_numbers? ha).2.2.2, ha⟩
    · exact absurd h (by simp)

/-! ## The order of the group -/

/-- The base point, as a point of the curve. -/
def generator : Group :=
  .some base.x base.y (noTwoTorsion.nonsingular (square_eq_cubic_iff.mp (by decide +kernel)))

theorem represents_generator : Represents base generator := by
  apply represents_of_normal (by decide) (by decide) (by decide)
  simp only [Point.coordinates, generator, Coordinates.normal_some, base, Nat.cast_one]

/-- The generator has the order of the group. -/
theorem addOrderOf_generator : addOrderOf generator = groupOrder := by
  apply addOrderOf_eq_prime
  · have hmultiple := represents_generator.multiple groupOrder_lt
    have hinfinity : (multiple groupOrder base).z = 0 := by decide +kernel
    exact hmultiple.z_eq_zero_iff.mp hinfinity
  · exact WeierstrassCurve.Affine.Point.some_ne_zero _

/-- A point, told by its first coordinate and the parity of the second. -/
def compressed : Group → Option (ZMod fieldPrime × Bool)
  | .zero => none
  | .some x y _ => some (x, y.val % 2 == 0)

theorem compressed_injective : Function.Injective compressed := by
  intro a b hab
  cases a with
  | zero => cases b with
    | zero => rfl
    | some x y h => simp [compressed] at hab
  | some x₁ y₁ h₁ => cases b with
    | zero => simp [compressed] at hab
    | some x₂ y₂ h₂ =>
      simp only [compressed, Option.some.injEq, Prod.mk.injEq] at hab
      obtain ⟨rfl, hparity⟩ := hab
      have hy := WeierstrassCurve.Affine.Y_eq_of_X_eq h₁.1 h₂.1 rfl
      rw [negY_eq] at hy
      rcases hy with rfl | rfl
      · rfl
      · -- the field's modulus is odd, so a number and its negative differ in parity
        exfalso
        have hlt := ZMod.val_lt y₂
        have hodd : fieldPrime % 2 = 1 := by decide
        have hne := noTwoTorsion.y_ne_zero (equation_of_nonsingular h₂)
        rw [ZMod.neg_val, if_neg hne, Bool.eq_iff_iff, beq_iff_eq, beq_iff_eq] at hparity
        omega

instance finite_group : Finite Group := Finite.of_injective compressed compressed_injective

/-- A group of points has at most two for each element of the field, and one at infinity. -/
theorem card_group_le : Nat.card Group ≤ 2 * fieldPrime + 1 := by
  have hbool : Nat.card Bool = 2 := by rw [Nat.card_eq_fintype_card, Fintype.card_bool]
  have hcard : Nat.card (Option (ZMod fieldPrime × Bool)) = 2 * fieldPrime + 1 := by
    rw [Finite.card_option, Nat.card_prod, Nat.card_zmod, hbool, mul_comm]
  rw [← hcard]
  exact Nat.card_le_card_of_injective compressed compressed_injective

/-- No point is its own negative. -/
theorem addOrderOf_ne_two (a : Group) : addOrderOf a ≠ 2 := by
  intro ha
  cases a with
  | zero => simp [← WeierstrassCurve.Affine.Point.zero_def] at ha
  | some x y h =>
    have hdouble := addOrderOf_nsmul_eq_zero (.some x y h : Group)
    rw [ha, two_nsmul, add_eq_zero_iff_eq_neg, WeierstrassCurve.Affine.Point.neg_some] at hdouble
    injection hdouble with _ hy
    exact noTwoTorsion.ne_negY (equation_of_nonsingular h) hy

/-- The group has as many points as the generator has multiples. -/
theorem card_group : Nat.card Group = groupOrder := by
  obtain ⟨k, hk⟩ : groupOrder ∣ Nat.card Group := by
    rw [← addOrderOf_generator]
    exact addOrderOf_dvd_natCard generator
  have hle := card_group_le
  have hpos : 0 < Nat.card Group := Nat.card_pos
  have hthree : 2 * fieldPrime + 1 < groupOrder * 3 := by decide
  have hlt : k < 3 := by
    apply Nat.lt_of_mul_lt_mul_left (a := groupOrder)
    rw [← hk]
    exact Nat.lt_of_le_of_lt hle hthree
  interval_cases k
  · omega
  · rw [hk, mul_one]
  · obtain ⟨a, ha⟩ := exists_prime_addOrderOf_dvd_card' 2 (Dvd.intro_left groupOrder hk.symm)
    exact absurd ha (addOrderOf_ne_two a)

/-- As many times any point as the group has elements comes to nothing. -/
theorem groupOrder_nsmul (a : Group) : groupOrder • a = 0 := by
  rw [← card_group]
  exact card_nsmul_eq_zero'

end ContractHost.Secp256k1
