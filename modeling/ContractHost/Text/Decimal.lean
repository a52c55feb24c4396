/-!
Decimal numbers in text: the digits of a number, and the reading of an unsigned number that may
carry one plus sign and any number of leading zeros.
-/

namespace ContractHost.Decimal

/-- The decimal digits of a number, without leading zeros. -/
def digits (n : Nat) : List Char := Nat.toDigits 10 n

/-- An integer with its sign if it is negative. -/
def integer (n : Int) : List Char := if n < 0 then '-' :: digits n.natAbs else digits n.natAbs

/-- The value of a decimal digit. -/
def digit? (c : Char) : Option Nat :=
  if '0' ≤ c ∧ c ≤ '9' then some (c.toNat - '0'.toNat) else none

/-- Reads digits only, onto a value already read. -/
def value? : Nat → List Char → Option Nat
  | n, [] => some n
  | n, c :: cs =>
    match digit? c with
    | none => none
    | some d => value? (10 * n + d) cs

/-- Reads at least one digit, after at most one plus sign, of a number below `bound`. -/
def read? (bound : Nat) (cs : List Char) : Option Nat :=
  let cs := match cs with
    | '+' :: rest => rest
    | _ => cs
  if cs.isEmpty then none
  else (value? 0 cs).filter (· < bound)

end ContractHost.Decimal
