/-!
Byte strings and the numbers written into them.

A number of `k` bytes is written least significant byte first by `ofNatLE k` and most significant
byte first by `ofNatBE k`; both drop what does not fit. `toNatLE` and `toNatBE` read a byte string
of any length back.
-/

namespace ContractHost

/-- A string of bytes. -/
abbrev Bytes := List UInt8

namespace Bytes

/-- The `k` low bytes of a number, least significant first. -/
def ofNatLE : Nat → Nat → Bytes
  | 0, _ => []
  | k + 1, n => UInt8.ofNat n :: ofNatLE k (n / 256)

/-- The number a byte string denotes, least significant byte first. -/
def toNatLE : Bytes → Nat
  | [] => 0
  | b :: bs => b.toNat + 256 * toNatLE bs

/-- The `k` low bytes of a number, most significant first. -/
def ofNatBE (k n : Nat) : Bytes := (ofNatLE k n).reverse

/-- The number a byte string denotes, most significant byte first. -/
def toNatBE (bs : Bytes) : Nat := toNatLE bs.reverse

@[simp] theorem length_ofNatLE (k n : Nat) : (ofNatLE k n).length = k := by
  induction k generalizing n with
  | zero => rfl
  | succ k ih => simp [ofNatLE, ih]

@[simp] theorem length_ofNatBE (k n : Nat) : (ofNatBE k n).length = k := by
  simp [ofNatBE]

end Bytes

end ContractHost
