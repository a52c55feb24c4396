import ContractHost.Bytes
import Mathlib.Algebra.Group.Nat.Defs

/-!
# Numbers written into byte strings

Writing a number and reading it back keeps what fits into the bytes, and reading a byte string and
writing what was read gives the byte string again.
-/

namespace ContractHost.Bytes

/-- Of a number as many bytes are kept as it is written in. -/
theorem toNatLE_ofNatLE (k n : Nat) : toNatLE (ofNatLE k n) = n % 256 ^ k := by
  induction k generalizing n with
  | zero => simp [ofNatLE, toNatLE, Nat.mod_one]
  | succ k ih =>
    -- the first byte is the remainder, and the others are written of the quotient
    have hp : 256 ^ (k + 1) = 256 * 256 ^ k := Nat.pow_succ'
    have hn : n % (256 * 256 ^ k) = n % 256 + 256 * (n / 256 % 256 ^ k) := Nat.mod_mul
    rw [ofNatLE, toNatLE, ih, UInt8.toNat_ofNat', hp, hn]

theorem toNatBE_ofNatBE (k n : Nat) : toNatBE (ofNatBE k n) = n % 256 ^ k := by
  simp [toNatBE, ofNatBE, toNatLE_ofNatLE]

/-- Bytes spell a number that fits into as many. -/
theorem toNatLE_lt (bs : Bytes) : toNatLE bs < 256 ^ bs.length := by
  induction bs with
  | nil => simp [toNatLE]
  | cons b bs ih =>
    have hb := b.toNat_lt
    rw [toNatLE, List.length_cons, Nat.pow_succ']
    omega

/-- The number that bytes spell, written in as many bytes, is these bytes. -/
theorem ofNatLE_toNatLE (bs : Bytes) : ofNatLE bs.length (toNatLE bs) = bs := by
  induction bs with
  | nil => rfl
  | cons b bs ih =>
    have hb := b.toNat_lt
    have hd : toNatLE (b :: bs) / 256 = toNatLE bs := by
      rw [toNatLE]
      omega
    have hm : UInt8.ofNat (toNatLE (b :: bs)) = b := by
      apply UInt8.toNat_inj.1
      rw [UInt8.toNat_ofNat', toNatLE]
      omega
    rw [List.length_cons, ofNatLE, hd, hm, ih]

/-- The same of bytes of which the highest comes first. -/
theorem ofNatBE_toNatBE (bs : Bytes) : ofNatBE bs.length (toNatBE bs) = bs := by
  have h := ofNatLE_toNatLE bs.reverse
  rw [List.length_reverse] at h
  rw [ofNatBE, toNatBE, h, List.reverse_reverse]

end ContractHost.Bytes
