import ContractHost.Bytes
import ContractHost.Crypto.Modular

/-!
ECDSA over secp256k1: the check of a signature and the recovery of the signer's key.

A signature is `r` and `s` of 32 bytes each. The check refuses the larger of the two values of `s`
that sign the same digest; recovery takes both.
-/

namespace ContractHost.Secp256k1

/-- The modulus of the field. -/
def fieldPrime : Nat := (1 <<< 256) - (1 <<< 32) - 977

/-- The order of the group. -/
def groupOrder : Nat := 0xfffffffffffffffffffffffffffffffebaaedce6af48a03bbfd25e8cd0364141

/-- A point of the curve `y² = x³ + 7`: `x / z` and `y / z` are its coordinates, and `z` is zero at
infinity. -/
structure Point where
  x : Nat
  y : Nat
  z : Nat
  deriving DecidableEq, Repr

/-- The point at infinity. -/
def infinity : Point := ⟨0, 1, 0⟩

/-- The base point. -/
def base : Point :=
  ⟨0x79be667ef9dcbbac55a06295ce870b07029bfcdb2dce28d959f2815b16f81798,
    0x483ada7726a3c4655da4fbfc0e1108a8fd17b448a68554199c47d08ffb10d4b8, 1⟩

/-- The sum of two points. The formulas hold for all pairs, equal or at infinity too. -/
def add (p q : Point) : Point :=
  let m := fieldPrime
  let xx := p.x * q.x % m
  let yy := p.y * q.y % m
  let zz := p.z * q.z % m
  let xy := Modular.sub m ((p.x + p.y) * (q.x + q.y) % m) ((xx + yy) % m)
  let yz := Modular.sub m ((p.y + p.z) * (q.y + q.z) % m) ((yy + zz) % m)
  let xz := Modular.sub m ((p.x + p.z) * (q.x + q.z) % m) ((xx + zz) % m)
  let xx3 := 3 * xx % m
  let zz21 := 21 * zz % m
  let sum := (yy + zz21) % m
  let difference := Modular.sub m yy zz21
  let xz21 := 21 * xz % m
  ⟨Modular.sub m (xy * difference % m) (yz * xz21 % m),
    (difference * sum + xz21 * xx3) % m,
    (sum * yz + xx3 * xy) % m⟩

/-- The negative of a point. -/
def neg (p : Point) : Point := ⟨p.x, Modular.sub fieldPrime 0 p.y, p.z⟩

/-- The sum of `n` times the same point. -/
def multiple (n : Nat) (p : Point) : Point := Modular.multiple infinity add n p

/-- The coordinates of a point that is not at infinity. -/
def affine? (p : Point) : Option (Nat × Nat) :=
  if p.z = 0 then none
  else
    let inv := Modular.inverse fieldPrime p.z
    some (p.x * inv % fieldPrime, p.y * inv % fieldPrime)

/-- The right side of the curve's equation. -/
def cubic (x : Nat) : Nat := (x * x % fieldPrime * x + 7) % fieldPrime

/-- The point with a given `x` whose `y` has a given parity, if `x` is below the field's prime and
such a point exists. -/
def lift? (x : Nat) (odd : Bool) : Option Point :=
  if fieldPrime ≤ x then none
  else
    let square := cubic x
    let y := Modular.pow fieldPrime square ((fieldPrime + 1) / 4)
    if y * y % fieldPrime = square then
      some ⟨x, if (y % 2 == 1) = odd then y else Modular.sub fieldPrime 0 y, 1⟩
    else none

/-- The point of an encoded key: 33 bytes with the parity of `y` in the first, or 65 bytes with both
coordinates, where the first byte may tell the parity of `y` too. -/
def key? (bs : Bytes) : Option Point :=
  match bs with
  | [] => none
  | tag :: rest =>
    let x := Bytes.toNatBE (rest.take 32)
    let y := Bytes.toNatBE (rest.drop 32)
    if rest.length = 32 then
      if tag = 0x02 then lift? x false
      else if tag = 0x03 then lift? x true
      else none
    else if rest.length = 64 then
      let tagged := tag = 0x04 ∨ (tag = 0x06 ∧ y % 2 = 0) ∨ (tag = 0x07 ∧ y % 2 = 1)
      if tagged ∧ x < fieldPrime ∧ y < fieldPrime ∧ y * y % fieldPrime = cubic x then
        some ⟨x, y, 1⟩
      else none
    else none

/-- The two numbers of a signature. -/
structure Signature where
  r : Nat
  s : Nat
  deriving DecidableEq, Repr

/-- Reads 64 bytes of two numbers below the group's order. -/
def Signature.ofBytes? (bs : Bytes) : Option Signature :=
  let r := Bytes.toNatBE (bs.take 32)
  let s := Bytes.toNatBE (bs.drop 32)
  if bs.length = 64 ∧ r < groupOrder ∧ s < groupOrder then some ⟨r, s⟩ else none

/-- The length of a digest. -/
def digestLength : Nat := 32

/-- Does a signature satisfy the equation of ECDSA? -/
def satisfies (digest : Nat) (sig : Signature) (key : Point) : Bool :=
  let inv := Modular.inverse groupOrder sig.s
  let u := digest % groupOrder * inv % groupOrder
  let v := sig.r * inv % groupOrder
  match affine? (add (multiple u base) (multiple v key)) with
  | none => false
  | some (x, _) => x % groupOrder == sig.r

/-- Is a signature good for a digest and a key? Both numbers have to be positive, and `s` at most
half of the group's order. -/
def verify (digest signature key : Bytes) : Bool :=
  if digest.length = digestLength then
    match Signature.ofBytes? signature, key? key with
    | some sig, some q =>
      sig.r ≠ 0 && sig.s ≠ 0 && sig.s ≤ groupOrder / 2 && satisfies (Bytes.toNatBE digest) sig q
    | _, _ => false
  else false

/-- Why no key can be recovered. -/
inductive RecoveryFault where
  | digest
  | param (n : UInt32)
  | signature
  | noKey
  deriving DecidableEq, Repr

/-- The wording of a failed recovery. -/
def RecoveryFault.message : RecoveryFault → String
  | .digest => "Invalid hash: message was not 32 bytes (do you need to hash?)"
  | .param n => s!"Invalid recovery param {n}"
  | .signature => "Invalid signature: malformed signature"
  | .noKey => "Cannot recover public key: malformed signature"

/-- The commitment of a signature. Bit 1 of the parameter says that its `x` is not below the group's
order, bit 0 is the parity of its `y`. -/
def commitment? (r : Nat) (param : UInt32) : Option Point :=
  let x := if param.toNat.testBit 1 then r + groupOrder else r
  lift? x (param.toNat.testBit 0)

/-- The coordinates of the key that signed a digest with given commitment. -/
def recoverPoint? (digest : Nat) (sig : Signature) (param : UInt32) : Option (Nat × Nat) :=
  if sig.r = 0 ∨ sig.s = 0 then none
  else
    match commitment? sig.r param with
    | none => none
    | some c =>
      let inv := Modular.inverse groupOrder sig.r
      let z := digest % groupOrder
      let u := sig.s * inv % groupOrder
      let v := z * inv % groupOrder
      affine? (add (multiple u c) (neg (multiple v base)))

/-- The key that signed a digest, 65 bytes. -/
def recover (digest signature : Bytes) (param : UInt32) : Except RecoveryFault Bytes :=
  if digest.length ≠ digestLength then .error .digest
  else if 3 < param then .error (.param param)
  else
    match Signature.ofBytes? signature with
    | none => .error .signature
    | some sig =>
      match recoverPoint? (Bytes.toNatBE digest) sig param with
      | none => .error .noKey
      | some (x, y) => .ok (0x04 :: (Bytes.ofNatBE 32 x ++ Bytes.ofNatBE 32 y))

end ContractHost.Secp256k1
