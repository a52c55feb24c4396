import Mathlib.AlgebraicGeometry.EllipticCurve.Affine.Point
import Mathlib.Tactic.LinearCombination

/-!
# Sums of points by one formula

Points are added by formulas in projective coordinates that take no case of their own for equal
points, for opposite ones or for infinity. Over a field in which two is not zero, and on a curve
without points of order two, they never fail: whatever coordinates two points have, the formulas
give coordinates of their sum (`Of.add`).

The formulas are compared with the chord through two points, with the tangent at one, and with the
vertical line. The last coordinate vanishes only at infinity: on a chord it tells the second
coordinate of the difference of the points (`z_add_chord`), on a tangent that of the point
(`add_tangent`), and on a vertical line the formulas would give nothing at all only if the double of
the point were of order two (`add_vertical`).
-/

namespace ContractHost.Secp256k1

open WeierstrassCurve.Affine (nonsingular_add slope_of_X_ne slope_of_Y_ne)
open WeierstrassCurve.Affine.Point (add_of_X_ne add_of_Y_eq add_of_Y_ne)

variable {K : Type} [Field K]

/-! ## The curve -/

variable (K) in
/-- The curve `y² = x³ + 7` over a field. -/
def curve : WeierstrassCurve.Affine K where
  a₁ := 0
  a₂ := 0
  a₃ := 0
  a₄ := 0
  a₆ := 7

/-- The curve is that of the equation. -/
theorem equation_iff {x y : K} : (curve K).Equation x y ↔ y ^ 2 = x ^ 3 + 7 := by
  simp [WeierstrassCurve.Affine.equation_iff, curve]

theorem equation_of_nonsingular {x y : K} (h : (curve K).Nonsingular x y) : y ^ 2 = x ^ 3 + 7 :=
  equation_iff.mp h.1

theorem negY_eq (x y : K) : (curve K).negY x y = -y := by
  simp [WeierstrassCurve.Affine.negY, curve]

/-- The third point of a chord or tangent of a given slope. -/
theorem addX_eq (x₁ x₂ s : K) : (curve K).addX x₁ x₂ s = s ^ 2 - x₁ - x₂ := by
  simp [WeierstrassCurve.Affine.addX, curve]

theorem addY_eq (x₁ x₂ y₁ s : K) :
    (curve K).addY x₁ x₂ y₁ s = s * (x₁ - (s ^ 2 - x₁ - x₂)) - y₁ := by
  rw [WeierstrassCurve.Affine.addY, WeierstrassCurve.Affine.negAddY, addX_eq, negY_eq]
  ring

variable (K) in
/-- Over this field, no point of the curve is its own negative. -/
structure NoTwoTorsion : Prop where
  two_ne_zero : (2 : K) ≠ 0
  y_ne_zero {x y : K} (h : y ^ 2 = x ^ 3 + 7) : y ≠ 0

namespace NoTwoTorsion

variable (hK : NoTwoTorsion K) {x y : K} (h : y ^ 2 = x ^ 3 + 7)
include hK h

/-- No point is its own negative, so that tangents have a slope. -/
theorem two_mul_ne_zero : 2 * y ≠ 0 := mul_ne_zero hK.two_ne_zero (hK.y_ne_zero h)

theorem ne_negY : y ≠ (curve K).negY x y := by
  rw [negY_eq]
  intro hy
  apply hK.two_mul_ne_zero h
  linear_combination hy

/-- The curve has no singular point. -/
theorem nonsingular : (curve K).Nonsingular x y := by
  rw [WeierstrassCurve.Affine.nonsingular_iff]
  refine ⟨equation_iff.mpr h, .inr ?_⟩
  have hy := hK.ne_negY h
  rw [negY_eq] at hy
  simpa [curve] using hy

/-- The slope of the tangent. -/
theorem slope_mul [DecidableEq K] : (curve K).slope x x y y * (2 * y) = 3 * x ^ 2 := by
  rw [slope_of_Y_ne rfl (hK.ne_negY h), negY_eq, sub_neg_eq_add, ← two_mul,
    div_mul_cancel₀ _ (hK.two_mul_ne_zero h)]
  simp [curve]

end NoTwoTorsion

/-! ## Coordinates -/

variable (K) in
/-- The projective coordinates of a point. -/
@[ext]
structure Coordinates where
  x : K
  y : K
  z : K

namespace Coordinates

/-- All coordinates, multiplied by a factor. -/
def scale (c : K) (p : Coordinates K) : Coordinates K := ⟨c * p.x, c * p.y, c * p.z⟩

/-- The formulas for the sum of two points. -/
def add (p q : Coordinates K) : Coordinates K where
  x := (p.x * q.y + q.x * p.y) * (p.y * q.y - 21 * (p.z * q.z)) -
    21 * (p.y * q.z + q.y * p.z) * (p.x * q.z + q.x * p.z)
  y := (p.y * q.y - 21 * (p.z * q.z)) * (p.y * q.y + 21 * (p.z * q.z)) +
    63 * (p.x * q.x) * (p.x * q.z + q.x * p.z)
  z := (p.y * q.z + q.y * p.z) * (p.y * q.y + 21 * (p.z * q.z)) +
    3 * (p.x * q.x) * (p.x * q.y + q.x * p.y)

/-- The coordinates of a point with one for the last of them, if it is not at infinity. -/
def normal : (curve K).Point → Coordinates K
  | .zero => ⟨0, 1, 0⟩
  | .some x y _ => ⟨x, y, 1⟩

/-- The point at infinity. -/
@[simp] theorem normal_zero : normal (0 : (curve K).Point) = ⟨0, 1, 0⟩ := rfl

@[simp] theorem normal_some {x y : K} (h : (curve K).Nonsingular x y) :
    normal (.some x y h) = ⟨x, y, 1⟩ := rfl

/-- These are coordinates of a point. -/
def Of (p : Coordinates K) (a : (curve K).Point) : Prop := ∃ c, c ≠ 0 ∧ p = (normal a).scale c

/-- Coordinates are scaled twice by the product. -/
theorem scale_scale (c d : K) (p : Coordinates K) : (p.scale c).scale d = p.scale (d * c) := by
  simp only [scale, mul_assoc]

theorem of_normal (a : (curve K).Point) : (normal a).Of a := by
  refine ⟨1, one_ne_zero, ?_⟩
  simp [scale]

/-- Scaled coordinates are those of the same point. -/
theorem Of.scale {p : Coordinates K} {a : (curve K).Point} (h : p.Of a) {c : K} (hc : c ≠ 0) :
    (p.scale c).Of a := by
  obtain ⟨d, hd, rfl⟩ := h
  exact ⟨c * d, mul_ne_zero hc hd, scale_scale d c _⟩

/-- A point is negated in the second coordinate. -/
theorem Of.neg {p : Coordinates K} {a : (curve K).Point} (h : p.Of a) :
    Of ⟨p.x, -p.y, p.z⟩ (-a) := by
  obtain ⟨c, hc, rfl⟩ := h
  cases a with
  | zero =>
    refine ⟨-c, neg_ne_zero.mpr hc, ?_⟩
    rw [← WeierstrassCurve.Affine.Point.zero_def, WeierstrassCurve.Affine.Point.neg_zero,
      normal_zero]
    simp [Coordinates.scale]
  | some x y hxy =>
    refine ⟨c, hc, ?_⟩
    rw [WeierstrassCurve.Affine.Point.neg_some, normal_some, normal_some, negY_eq]
    simp [Coordinates.scale]

/-- The formula scales with its operands. -/
theorem add_scale (c d : K) (p q : Coordinates K) :
    (p.scale c).add (q.scale d) = (p.add q).scale ((c * d) ^ 2) := by
  ext
  · simp only [add, Coordinates.scale]
    ring
  · simp only [add, Coordinates.scale]
    ring
  · simp only [add, Coordinates.scale]
    ring

/-- The formula does not depend on the order of its operands. -/
theorem add_comm (p q : Coordinates K) : p.add q = q.add p := by
  ext
  · simp only [add]
    ring
  · simp only [add]
    ring
  · simp only [add]
    ring

/-! ## The formulas on lines -/

/-- Infinity adds nothing. -/
theorem add_infinity (p : Coordinates K) : p.add ⟨0, 1, 0⟩ = p.scale p.y := by
  ext
  · simp only [add, Coordinates.scale]
    ring
  · simp only [add, Coordinates.scale]
    ring
  · simp only [add, Coordinates.scale]
    ring

section
variable {x₁ y₁ x₂ y₂ x y s : K}

/-- Two points on a chord of slope `s`. -/
theorem add_chord (h₁ : y₁ ^ 2 = x₁ ^ 3 + 7) (h₂ : y₂ ^ 2 = x₂ ^ 3 + 7) (hx : x₁ - x₂ ≠ 0)
    (hs : s * (x₁ - x₂) = y₁ - y₂) :
    add ⟨x₁, y₁, 1⟩ ⟨x₂, y₂, 1⟩ =
      scale (add ⟨x₁, y₁, 1⟩ ⟨x₂, y₂, 1⟩).z
        ⟨s ^ 2 - x₁ - x₂, s * (x₁ - (s ^ 2 - x₁ - x₂)) - y₁, 1⟩ := by
  ext
  · apply mul_left_cancel₀ hx
    simp only [add, Coordinates.scale]
    grind
  · apply mul_left_cancel₀ hx
    simp only [add, Coordinates.scale]
    grind
  · simp only [Coordinates.scale, mul_one]

/-- Here `s` is the slope of the chord through the first point and the negative of the second. -/
theorem z_add_chord (h₁ : y₁ ^ 2 = x₁ ^ 3 + 7) (h₂ : y₂ ^ 2 = x₂ ^ 3 + 7)
    (hs : s * (x₁ - x₂) = y₁ + y₂) :
    (add ⟨x₁, y₁, 1⟩ ⟨x₂, y₂, 1⟩).z =
      -(x₁ - x₂) ^ 3 * (s * (x₁ - (s ^ 2 - x₁ - x₂)) - y₁) := by
  simp only [add]
  grind

/-- A point with itself, where the tangent has slope `s`. -/
theorem add_tangent (h : y ^ 2 = x ^ 3 + 7) (hs : s * (2 * y) = 3 * x ^ 2) :
    add ⟨x, y, 1⟩ ⟨x, y, 1⟩ =
      scale ((2 * y) ^ 3) ⟨s ^ 2 - x - x, s * (x - (s ^ 2 - x - x)) - y, 1⟩ := by
  ext
  · simp only [add, Coordinates.scale]
    grind
  · simp only [add, Coordinates.scale]
    grind
  · simp only [add, Coordinates.scale]
    grind

/-- A point with its negative; `s` is the slope of the tangent. -/
theorem add_vertical (h : y ^ 2 = x ^ 3 + 7) (hs : s * (2 * y) = 3 * x ^ 2) :
    add ⟨x, y, 1⟩ ⟨x, -y, 1⟩ =
      scale ((2 * y) ^ 3 * (s * (x - (s ^ 2 - x - x)) - y)) ⟨0, 1, 0⟩ := by
  ext
  · simp only [add, Coordinates.scale]
    ring
  · simp only [add, Coordinates.scale]
    grind
  · simp only [add, Coordinates.scale]
    ring

end

/-! ## Sums -/

section
variable (hK : NoTwoTorsion K)
include hK

/-- The formula is right at the point at infinity. -/
theorem of_add_zero (a : (curve K).Point) : ((normal a).add (normal 0)).Of a := by
  have hy : (normal a).y ≠ 0 := by
    cases a with
    | zero => exact one_ne_zero
    | some x y h => exact hK.y_ne_zero (equation_of_nonsingular h)
  have hsum : (normal a).add (normal 0) = (normal a).scale (normal a).y := add_infinity _
  rw [hsum]
  exact (of_normal a).scale hy

variable [DecidableEq K] {x₁ y₁ x₂ y₂ x y : K}

/-- The formula is right for two points with a chord. -/
theorem of_add_chord (h₁ : (curve K).Nonsingular x₁ y₁) (h₂ : (curve K).Nonsingular x₂ y₂)
    (hx : x₁ ≠ x₂) : Of (add ⟨x₁, y₁, 1⟩ ⟨x₂, y₂, 1⟩) (.some x₁ y₁ h₁ + .some x₂ y₂ h₂) := by
  have he₁ := equation_of_nonsingular h₁
  have he₂ := equation_of_nonsingular h₂
  have hne : x₁ - x₂ ≠ 0 := sub_ne_zero.mpr hx
  -- the difference of the points lies on the curve, so its second coordinate is not zero
  have hneg : (curve K).Nonsingular x₂ (-y₂) := hK.nonsingular (by rw [neg_sq, he₂])
  have hdifference := equation_of_nonsingular (nonsingular_add h₁ hneg fun hxy => hx hxy.1)
  rw [slope_of_X_ne hx, sub_neg_eq_add, addX_eq, addY_eq] at hdifference
  refine ⟨(add ⟨x₁, y₁, 1⟩ ⟨x₂, y₂, 1⟩).z, ?_, ?_⟩
  · rw [z_add_chord he₁ he₂ (div_mul_cancel₀ _ hne)]
    exact mul_ne_zero (neg_ne_zero.mpr (pow_ne_zero 3 hne)) (hK.y_ne_zero hdifference)
  · rw [add_of_X_ne hx, normal_some, slope_of_X_ne hx, addX_eq, addY_eq]
    exact add_chord he₁ he₂ hne (div_mul_cancel₀ _ hne)

/-- The formula is right for a point and itself. -/
theorem of_add_tangent (h : (curve K).Nonsingular x y) :
    Of (add ⟨x, y, 1⟩ ⟨x, y, 1⟩) (.some x y h + .some x y h) := by
  have he := equation_of_nonsingular h
  refine ⟨(2 * y) ^ 3, pow_ne_zero 3 (hK.two_mul_ne_zero he), ?_⟩
  rw [add_of_Y_ne (hK.ne_negY he), normal_some, addX_eq, addY_eq]
  exact add_tangent he (hK.slope_mul he)

/-- The formula is right for a point and its negative. -/
theorem of_add_vertical (h : (curve K).Nonsingular x y) :
    Of (add ⟨x, y, 1⟩ ⟨x, -y, 1⟩) (0 : (curve K).Point) := by
  have he := equation_of_nonsingular h
  -- the double of the point lies on the curve too
  have hdouble := equation_of_nonsingular (nonsingular_add h h fun hy => hK.ne_negY he hy.2)
  rw [addX_eq, addY_eq] at hdouble
  refine ⟨_, mul_ne_zero (pow_ne_zero 3 (hK.two_mul_ne_zero he)) (hK.y_ne_zero hdouble), ?_⟩
  exact add_vertical he (hK.slope_mul he)

/-- The formula is right for any two points whose coordinates are not scaled. -/
theorem of_add_normal (a b : (curve K).Point) : ((normal a).add (normal b)).Of (a + b) := by
  cases a with
  | zero =>
    have hb := of_add_zero hK b
    rw [add_comm] at hb
    rwa [← WeierstrassCurve.Affine.Point.zero_def, zero_add]
  | some x₁ y₁ h₁ =>
    cases b with
    | zero =>
      have ha := of_add_zero hK (.some x₁ y₁ h₁)
      rwa [← WeierstrassCurve.Affine.Point.zero_def, add_zero]
    | some x₂ y₂ h₂ =>
      by_cases hx : x₁ = x₂
      · subst hx
        -- with one first coordinate, the points are the same or opposite to each other
        have hy := WeierstrassCurve.Affine.Y_eq_of_X_eq h₁.1 h₂.1 rfl
        rw [negY_eq] at hy
        rcases hy with rfl | rfl
        · exact of_add_tangent hK h₁
        · have hsum : (.some x₁ (-y₂) h₁ + .some x₁ y₂ h₂ : (curve K).Point) = 0 :=
            add_of_Y_eq rfl (negY_eq x₁ y₂).symm
          rw [hsum, add_comm]
          exact of_add_vertical hK h₂
      · exact of_add_chord hK h₁ h₂ hx

/-- The formulas give the sum of two points. -/
theorem Of.add {p q : Coordinates K} {a b : (curve K).Point} (hp : p.Of a) (hq : q.Of b) :
    (p.add q).Of (a + b) := by
  obtain ⟨c, hc, rfl⟩ := hp
  obtain ⟨d, hd, rfl⟩ := hq
  rw [add_scale]
  exact (of_add_normal hK a b).scale (pow_ne_zero 2 (mul_ne_zero hc hd))

end

end Coordinates

end ContractHost.Secp256k1
