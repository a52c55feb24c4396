/-!
Binary floating-point numbers of 64 bits, finite and without a sign.

The smallest of them above zero is 2^-1074, and all of them are multiples of it. So a number is held
as how many of these *units* it has, and arithmetic on it is arithmetic on natural numbers. Of the
binary digits of a number at most 53 count: a result with more of them is rounded to the nearest
number, and half way between two to the one whose last digit is even.
-/

namespace ContractHost.Binary64

/-- The units of the number one. -/
def one : Nat := 1 <<< 1074

/-- The units of 2^1024. A result that is rounded to as much is too large. -/
def bound : Nat := one <<< 1024

/-- How far apart the numbers are from one of a given size upwards, in units. -/
def spacing (units : Nat) : Nat := 1 <<< (units.log2 - 52)

/-- The number nearest to a fraction of units. -/
def nearest (numerator denominator : Nat) : Nat :=
  let gap := spacing (numerator / denominator)
  let steps := numerator / (denominator * gap)
  let rest := numerator % (denominator * gap)
  if denominator * gap < 2 * rest ∨ (2 * rest = denominator * gap ∧ steps % 2 = 1) then
    (steps + 1) * gap
  else steps * gap

/-- The number nearest to a natural number. -/
def ofNat (n : Nat) : Nat := nearest (n * one) 1

/-- The product of two numbers. -/
def mul (a b : Nat) : Nat := nearest (a * b) one

/-- The quotient of two numbers. -/
def div (a b : Nat) : Nat := nearest (a * one) b

/-! ## Powers of ten -/

/-- The largest exponent of a power of ten that is a number. -/
def maxPower : Nat := 308

/-- The number nearest to a power of ten. -/
def power (k : Nat) : Nat := ofNat (Nat.pow 10 k)

/-- A number times a power of ten, if that is not too large. -/
def times? (units k : Nat) : Option Nat :=
  if units = 0 then some 0
  else if maxPower < k then none
  else
    let product := mul units (power k)
    if product < bound then some product else none

/-- A number divided by a power of ten. Where the power is no number, one after the other of its
factors that are numbers is used. -/
def overPower (units k : Nat) : Nat :=
  if units = 0 then 0
  else if k ≤ maxPower then div units (power k)
  else overPower (div units (power maxPower)) (k - maxPower)
termination_by k
decreasing_by simp only [maxPower] at *; omega

/-- What a natural number times a power of ten comes to, first the natural number rounded and then
the result of the scaling. -/
def scaled? (n : Nat) : (exponent : Int) → Option Nat
  | .ofNat k => times? (ofNat n) k
  | .negSucc k => some (overPower (ofNat n) (k + 1))

end ContractHost.Binary64
