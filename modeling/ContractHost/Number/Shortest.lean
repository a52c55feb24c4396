import ContractHost.Number.Binary64
import ContractHost.Text.Decimal

/-!
Floating-point numbers in decimal.

A decimal number stands for a floating-point number if it lies between the middles of the gaps on
its two sides; a middle itself counts if the last binary digit of the number is even. `shortest` is
the decimal number with the fewest digits that does so, the nearest one of several; `render` writes
it with a point, or with an exponent if it is very large or very small.
-/

namespace ContractHost.Binary64

/-- The finest decimal digit in use is the one of 10^-324, below the smallest number. -/
def finest : Nat := 324

/-- The gap below a number. It is half of the one above where the numbers begin to lie closer. -/
def spacingBelow (units : Nat) : Nat :=
  let gap := spacing units
  if units = gap <<< 52 ∧ 1 < gap then gap / 2 else gap

/-- A number in halves of 10^-324 units, in which also the middles of the gaps are natural. -/
def fine (halfUnits : Nat) : Nat := halfUnits * Nat.pow 10 finest

/-- Does a number of halves of 10^-324 units stand for a floating-point number? -/
def standsFor (units x : Nat) : Bool :=
  let low := fine (2 * units - spacingBelow units)
  let high := fine (2 * units + spacing units)
  if units / spacing units % 2 = 0 then low ≤ x && x ≤ high else low < x && x < high

/-- The multiple of 10^(k - 324) that stands for a number, if there is one, without that factor. -/
def multiple? (units k : Nat) : Option Nat :=
  let step := 2 * one * Nat.pow 10 k
  let n := fine (2 * units) / step
  let rest := fine (2 * units) % step
  match standsFor units (n * step), standsFor units ((n + 1) * step) with
  | true, true =>
    if 2 * rest < step ∨ (2 * rest = step ∧ n % 2 = 0) then some n else some (n + 1)
  | true, false => some n
  | false, true => some (n + 1)
  | false, false => none

/-- The shortest decimal number that stands for a number and has no digit before that of
10^(k - 324), as a natural number and the `k` of its last digit. -/
def shortestFrom (units : Nat) : (k : Nat) → Nat × Nat
  | 0 => ((multiple? units 0).getD 0, 0)
  | k + 1 =>
    match multiple? units (k + 1) with
    | some n => (n, k + 1)
    | none => shortestFrom units k

/-- The shortest decimal number that stands for a number: a natural number and the exponent of its
last digit. -/
def shortest (units : Nat) : Nat × Int :=
  let (n, k) := shortestFrom units (finest + maxPower)
  (n, (k : Int) - finest)

/-- A number of zeros. -/
def zeros (n : Int) : List Char := List.replicate n.toNat '0'

/-- An exponent with its sign, also if it is a plus. -/
def exponentPart (exponent : Int) : List Char :=
  'e' :: (if exponent < 0 then '-' else '+') :: Decimal.digits exponent.natAbs

/-- Digits, the last of which has a given exponent, laid out as a number. It gets an exponent if its
first digit counts 10^16 or more, or less than 10^-5. -/
def layOut (digits : List Char) (exponent : Int) : List Char :=
  let front : Int := digits.length + exponent
  if 0 ≤ exponent ∧ front ≤ 16 then digits ++ zeros exponent ++ ['.', '0']
  else if 0 < front ∧ front ≤ 16 then digits.take front.toNat ++ '.' :: digits.drop front.toNat
  else if -5 < front ∧ front ≤ 0 then '0' :: '.' :: (zeros (-front) ++ digits)
  else
    let tail := digits.drop 1
    digits.take 1 ++ (if tail.isEmpty then [] else '.' :: tail) ++ exponentPart (front - 1)

/-- A number in decimal. -/
def render (units : Nat) : List Char :=
  if units = 0 then ['0', '.', '0']
  else
    let (n, exponent) := shortest units
    layOut (Decimal.digits n) exponent

end ContractHost.Binary64
