import ContractHost.Bytes

/-!
Base64 with the standard alphabet and padding that must be there.

A text is read in blocks of eight symbols. All but the last hold symbols only; the last one may end
in padding. Which of several faults is told follows from that: a length that no text has, then the
blocks from the left, then the form of the last one.
-/

namespace ContractHost.Base64

/-- Why a text is not base64. -/
inductive Error where
  | invalidByte (offset : Nat) (b : UInt8)
  | strayBits
  | invalidPadding
  | invalidLastSymbol (offset : Nat) (b : UInt8)
  deriving DecidableEq, Repr

/-- The wording of an error. -/
def Error.message : Error → String
  | .invalidByte offset b => s!"Invalid byte {b}, offset {offset}."
  | .strayBits => "Encoded text cannot have a 6-bit remainder."
  | .invalidPadding => "Invalid padding"
  | .invalidLastSymbol offset b => s!"Invalid last symbol {b}, offset {offset}."

/-- The six bits that a symbol stands for. -/
def symbol? (b : UInt8) : Option Nat :=
  if 0x41 ≤ b ∧ b ≤ 0x5A then some (b.toNat - 0x41)
  else if 0x61 ≤ b ∧ b ≤ 0x7A then some (b.toNat - 0x61 + 26)
  else if 0x30 ≤ b ∧ b ≤ 0x39 then some (b.toNat - 0x30 + 52)
  else if b = 0x2B then some 62
  else if b = 0x2F then some 63
  else none

/-- The sign of padding. -/
def padding : UInt8 := 0x3D

/-- Reads symbols only, the first one at the given offset. -/
def symbols : (offset : Nat) → Bytes → Except Error (List Nat)
  | _, [] => .ok []
  | offset, b :: bs =>
    match symbol? b with
    | none => .error (.invalidByte offset b)
    | some v => (symbols (offset + 1) bs).map (v :: ·)

/-- Reads the last block, which starts at offset `base`; `i` counts its bytes, and `padded` is where
in the block padding began, if it did. -/
def lastBlock (base : Nat) : (i : Nat) → (padded : Option Nat) → Bytes → Except Error (List Nat)
  | _, _, [] => .ok []
  | i, padded, b :: bs =>
    if b = padding then
      if i % 4 < 2 then .error (.invalidByte (base + padded.getD i) padding)
      else lastBlock base (i + 1) (some (padded.getD i)) bs
    else
      match padded with
      | some p => .error (.invalidByte (base + p) padding)
      | none =>
        match symbol? b with
        | none => .error (.invalidByte (base + i) b)
        | some v => (lastBlock base (i + 1) none bs).map (v :: ·)

/-- The bytes of six-bit symbols; bits that make no byte are dropped. -/
def join : List Nat → Bytes
  | a :: b :: c :: d :: rest =>
    UInt8.ofNat (a * 4 + b / 16) :: UInt8.ofNat (b * 16 + c / 4) :: UInt8.ofNat (c * 64 + d) ::
      join rest
  | [a, b, c] => [UInt8.ofNat (a * 4 + b / 16), UInt8.ofNat (b * 16 + c / 4)]
  | [a, b] => [UInt8.ofNat (a * 4 + b / 16)]
  | _ => []

/-- The bits of the last of `count` symbols that make no byte. -/
def unusedBits (count last : Nat) : Nat :=
  if count % 4 = 2 then last % 16
  else if count % 4 = 3 then last % 4
  else 0

/-- The bytes that a text spells. -/
def decode (text : Bytes) : Except Error Bytes := do
  let n := text.length
  if n % 4 = 1 then
    let b := text.getLastD 0
    if b ≠ padding ∧ symbol? b = none then throw (.invalidByte (n - 1) b)
    throw .strayBits
  let base := (n - 1) / 8 * 8
  let front ← symbols 0 (text.take base)
  let block ← lastBlock base 0 none (text.drop base)
  if (n - base) % 4 ≠ 0 then throw .invalidPadding
  let count := block.length
  if unusedBits count (block.getLastD 0) ≠ 0 then
    let offset := base + count - 1
    throw (.invalidLastSymbol offset (text.getD offset 0))
  return join (front ++ block)

end ContractHost.Base64
