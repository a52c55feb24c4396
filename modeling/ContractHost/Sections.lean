import ContractHost.Bytes

/-!
Several byte strings packed into one.

Each section is followed by its length, four bytes with the most significant first, so a buffer is
read from its end. Up to three bytes in front of the first section belong to none.
-/

namespace ContractHost.Sections

/-- Packs sections, each with its length behind it. -/
def encode (sections : List Bytes) : Bytes :=
  sections.flatMap fun s => s ++ Bytes.ofNatBE 4 s.length

/-- A length field that asks for more bytes than there are in front of it. -/
structure Malformed where
  /-- The length asked for. -/
  length : Nat
  /-- The bytes in front of the field. -/
  available : Nat
  deriving DecidableEq, Repr

/-- The wording of a malformed buffer. -/
def Malformed.message (e : Malformed) : String :=
  s!"section length {e.length} exceeds the {e.available} bytes left"

/-- Reads a buffer from its end: `left` is the buffer's part still to be read, last byte first, and
`size` its length; `sections` are those behind it. -/
def decodeBack : (fuel : Nat) → (size : Nat) → (left : Bytes) → (sections : List Bytes) →
    Except Malformed (List Bytes)
  | fuel + 1, size, a :: b :: c :: d :: left, sections =>
    let length := Bytes.toNatLE [a, b, c, d]
    let available := size - 4
    if available < length then .error ⟨length, available⟩
    else
      decodeBack fuel (available - length) (left.drop length)
        ((left.take length).reverse :: sections)
  | _, _, _, sections => .ok sections

/-- Reads a packed buffer. Every section takes four bytes at least, so the length bounds them. -/
def decode (data : Bytes) : Except Malformed (List Bytes) :=
  decodeBack data.length data.length data.reverse []

end ContractHost.Sections
