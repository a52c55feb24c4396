import ContractHost.Guest.Memory
import ContractHost.Guest.Value

/-!
What changes while a guest runs: its memory, its global variables, and its metering points.
-/

namespace ContractHost.Guest

/-- Metering points, and whether some were asked for that were not there. -/
structure Meter where
  points : UInt64
  exhausted : Bool := false
  deriving DecidableEq, Repr

namespace Meter

/-- The points that can be counted on: none once the meter is exhausted. -/
def remaining (m : Meter) : UInt64 := if m.exhausted then 0 else m.points

/-- The meter after a cost was paid, if there are points enough. -/
def pay? (m : Meter) (cost : Nat) : Option Meter :=
  if m.points.toNat < cost then none
  else some { m with points := UInt64.ofNat (m.points.toNat - cost) }

end Meter

/-- The state of a guest. -/
structure State where
  memory : Memory
  globals : List Value
  meter : Meter

end ContractHost.Guest
