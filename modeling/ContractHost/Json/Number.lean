import ContractHost.Json.Tree
import ContractHost.Number.Binary64

/-!
What the numbers of a JSON text are worth.

An integer of 64 bits, signed or not, is worth just that. Every other number is a floating-point
number: of its digits those count that fit 64 bits together, and the result is scaled by a power of
ten. A number that is too large for that is worth nothing. Minus zero is no integer.
-/

namespace ContractHost.Json

/-- The value of a number. -/
inductive Number where
  | int (n : Int)
  /-- A floating-point number, in the units of `Binary64`. -/
  | float (negative : Bool) (units : Nat)
  deriving DecidableEq, Repr

/-- The value of a decimal digit. -/
def digitValue (d : UInt8) : Nat := d.toNat - 0x30

/-- The value of decimal digits. -/
def magnitude (ds : Bytes) : Nat := ds.foldl (fun n d => 10 * n + digitValue d) 0

/-- Appends decimal digits to a number while it stays below 2^64, and counts those left over. -/
def append64 (n : Nat) : Bytes → Nat × Nat
  | [] => (n, 0)
  | d :: ds =>
    let m := 10 * n + digitValue d
    if m < UInt64.size then append64 m ds else (n, (d :: ds).length)

/-- The value of an exponent. -/
def Exponent.value (e : Exponent) : Int :=
  if e.negative then -(magnitude e.digits : Int) else magnitude e.digits

namespace Numeral

/-- Does a number have neither point nor exponent? -/
def isWhole (n : Numeral) : Bool := n.fraction.isEmpty && n.exponent.isNone

/-- The digits of a number that fit 64 bits, and the exponent of the last of them. Digits before
the point that do not fit still count as places. -/
def scientific (n : Numeral) : Nat × Int :=
  let (digits, places) := append64 0 n.whole
  let (digits, unread) := append64 digits n.fraction
  let exponent := (n.exponent.map Exponent.value).getD 0
  (digits, places - ((n.fraction.length : Int) - unread) + exponent)

/-- The value of a number as a floating-point number. -/
def float? (n : Numeral) : Option Number :=
  let (digits, exponent) := n.scientific
  (Binary64.scaled? digits exponent).map (.float n.negative)

/-- The value of a number. -/
def value? (n : Numeral) : Option Number :=
  let (m, unread) := append64 0 n.whole
  if !n.isWhole || unread != 0 then n.float?
  else if !n.negative then some (.int m)
  else if 0 < m && m ≤ UInt64.size / 2 then some (.int (-m))
  else n.float?

end Numeral

end ContractHost.Json
