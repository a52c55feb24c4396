import ContractHost.Crypto.Modular
import ContractHost.Crypto.Sha512
import ContractHost.Limits

/-!
Ed25519 signatures: the check of a single one.

The check is the one without cofactor: the commitment is compared as bytes with the encoding of the
point that the equation asks for. A public key may be of small order, and its encoding need not be
the shortest.
-/

namespace ContractHost.Ed25519

/-- The modulus of the field. -/
def fieldPrime : Nat := (1 <<< 255) - 19

/-- The order of the base point. -/
def groupOrder : Nat := (1 <<< 252) + 27742317777372353535851937790883648493

/-- The coefficient of the curve `-x² + y² = 1 + d x² y²`. -/
def coefficient : Nat :=
  37095705934669439343138083508754565189542113879843219016388785533085940283555

/-- A square root of `-1`. -/
def rootOfMinusOne : Nat :=
  19681161376707505956807079304988542015446066515923890162744021073123829784752

/-- A point of the curve: `x / z` and `y / z` are its coordinates, and `x y = z t`. -/
structure Point where
  x : Nat
  y : Nat
  z : Nat
  t : Nat
  deriving DecidableEq, Repr

/-- The neutral point. -/
def neutral : Point := ⟨0, 1, 1, 0⟩

/-- The base point. -/
def base : Point :=
  ⟨15112221349535400772501151409588531511454012693041857206046113283949847762202,
    46316835694926478169428394003475163141307993866256225615783033603165251855960, 1,
    46827403850823179245072216630277197565144205554125654976674165829533817101731⟩

/-- The sum of two points. The formulas hold for all pairs, equal or neutral ones too. -/
def add (p q : Point) : Point :=
  let m := fieldPrime
  let a := Modular.sub m p.y p.x * Modular.sub m q.y q.x % m
  let b := (p.y + p.x) * (q.y + q.x) % m
  let c := p.t * q.t % m * (2 * coefficient) % m
  let d := 2 * p.z * q.z % m
  let e := Modular.sub m b a
  let f := Modular.sub m d c
  let g := (d + c) % m
  let h := (b + a) % m
  ⟨e * f % m, g * h % m, f * g % m, e * h % m⟩

/-- The negative of a point. -/
def neg (p : Point) : Point :=
  ⟨Modular.sub fieldPrime 0 p.x, p.y, p.z, Modular.sub fieldPrime 0 p.t⟩

/-- The encoding of a point: `y`, with the parity of `x` in the top bit. -/
def encode (p : Point) : Bytes :=
  let m := fieldPrime
  let inv := Modular.inverse m p.z
  let x := p.x * inv % m
  let y := p.y * inv % m
  Bytes.ofNatLE 32 (y + ((x % 2) <<< 255))

/-- A number `x` with `v x² = u`, if there is one. -/
def rootOfRatio? (u v : Nat) : Option Nat :=
  let m := fieldPrime
  let v3 := v * v % m * v % m
  let v7 := v3 * v3 % m * v % m
  let x := u * v3 % m * Modular.pow m (u * v7 % m) ((m - 5) / 8) % m
  let square := v * (x * x % m) % m
  if square = u then some x
  else if square = Modular.sub m 0 u then some (x * rootOfMinusOne % m)
  else none

/-- The point that 32 bytes encode: `y` is taken modulo the field's prime, and the root with the
parity of the top bit is taken for `x`, if it is not zero. -/
def decode? (bs : Bytes) : Option Point :=
  let m := fieldPrime
  let n := Bytes.toNatLE bs
  let y := n % (1 <<< 255) % m
  let u := Modular.sub m (y * y % m) 1
  let v := (coefficient * (y * y % m) + 1) % m
  match rootOfRatio? u v with
  | none => none
  | some r =>
    let x := if r % 2 = n >>> 255 then r else Modular.sub m 0 r
    some ⟨x, y, 1, x * y % m⟩

/-- Is a signature of 64 bytes good for a message and a key of 32 bytes? -/
def verifySized (message signature key : Bytes) : Bool :=
  match decode? key with
  | none => false
  | some a =>
    let commitment := signature.take 32
    let s := Bytes.toNatLE (signature.drop 32)
    if groupOrder ≤ s then false
    else
      let k := Bytes.toNatLE (Sha512.digest (commitment ++ key ++ message)) % groupOrder
      let sB := Modular.multiple neutral add s base
      let kA := Modular.multiple neutral add k (neg a)
      encode (add sB kA) == commitment

/-- Is a signature good for a message and a key? Messages beyond the bound, and signatures and keys
of another length, are not. -/
def verify (message signature key : Bytes) : Bool :=
  message.length ≤ Limits.ed25519Message && signature.length == Limits.ed25519Signature &&
    key.length == Limits.ed25519Key && verifySized message signature key

end ContractHost.Ed25519
