import ContractHost.Bech32.Word

/-!
The checksum over a human-readable part and data words: the remainder of a polynomial over the field
of 32 elements, kept as six coefficients of five bits.
-/

namespace ContractHost.Bech32

/-- Which constant the remainder has to equal. -/
inductive Variant where
  | bech32
  | bech32m
  deriving DecidableEq, Repr

/-- The remainder of a good checksum. -/
def Variant.residue : Variant → BitVec 30
  | .bech32 => 1
  | .bech32m => 0x2bc830a3

/-- What bit `i` of the leading coefficient adds to the remainder. -/
def tap (state : BitVec 30) (i : Nat) (g : BitVec 30) : BitVec 30 :=
  if state.getLsbD (25 + i) then g else 0

/-- The remainder after one more word: the coefficients move up by one, and the one that falls out
is reduced. -/
def step (state : BitVec 30) (w : Word) : BitVec 30 :=
  (state <<< 5) ^^^ w.zeroExtend 30 ^^^ tap state 0 0x3b6a57b2 ^^^ tap state 1 0x26508e6d ^^^
    tap state 2 0x1ea119fa ^^^ tap state 3 0x3d4233dd ^^^ tap state 4 0x2a1462b3

/-- The remainder of a list of words. -/
def remainder (ws : List Word) : BitVec 30 := ws.foldl step 1

/-- The words that stand for a human-readable part: the high bits of its characters, a zero, their
low bits. -/
def expand (hrp : List Char) : List Word :=
  hrp.map (fun c => BitVec.ofNat 5 (c.toNat / 32)) ++
    0 :: hrp.map (fun c => BitVec.ofNat 5 (c.toNat % 32))

/-- The number of words of a checksum. -/
def checksumLength : Nat := 6

/-- The six words that make the remainder the variant's. -/
def checksum (variant : Variant) (hrp : List Char) (data : List Word) : List Word :=
  let r := remainder (expand hrp ++ data ++ List.replicate checksumLength 0) ^^^ variant.residue
  (List.range checksumLength).map fun i => (r >>> (5 * (5 - i))).setWidth 5

/-- The variant under which a human-readable part and words with their checksum are good. -/
def variant? (hrp : List Char) (ws : List Word) : Option Variant :=
  let r := remainder (expand hrp ++ ws)
  if r = Variant.residue .bech32 then some .bech32
  else if r = Variant.residue .bech32m then some .bech32m
  else none

end ContractHost.Bech32
