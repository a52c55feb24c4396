import ContractHost.Bytes

/-!
UTF-8.

`encode` writes characters. `scan` cuts any byte string into items: characters, maximal ill-formed
subparts, and a character the string ends inside of. The strict reading `decode` fails at the first
item that is no character; the lossy reading `decodeLossy` puts U+FFFD in its place.
-/

namespace ContractHost.Utf8

/-- The bytes of one character. -/
def encodeChar (c : Char) : Bytes :=
  let n := c.toNat
  if n < 0x80 then
    [UInt8.ofNat n]
  else if n < 0x800 then
    [UInt8.ofNat (0xC0 + n / 0x40), UInt8.ofNat (0x80 + n % 0x40)]
  else if n < 0x10000 then
    [UInt8.ofNat (0xE0 + n / 0x1000), UInt8.ofNat (0x80 + n / 0x40 % 0x40),
      UInt8.ofNat (0x80 + n % 0x40)]
  else
    [UInt8.ofNat (0xF0 + n / 0x40000), UInt8.ofNat (0x80 + n / 0x1000 % 0x40),
      UInt8.ofNat (0x80 + n / 0x40 % 0x40), UInt8.ofNat (0x80 + n % 0x40)]

/-- The bytes of a text. -/
def encode (cs : List Char) : Bytes := cs.flatMap encodeChar

/-- Where a reader stands: between characters, or inside one, having taken `taken` of its bytes,
with `owed` bytes to come, the next of them from `low` to `high`, and the code point read so far. -/
inductive State where
  | start
  | inside (taken owed low high code : Nat)

/-- What a byte string is cut into. -/
inductive Item where
  /-- A well-formed character. -/
  | char (c : Char)
  /-- A maximal ill-formed subpart of `size` bytes. -/
  | invalid (size : Nat)
  /-- A character that the string ends inside of. -/
  | cut

/-- The bytes an item takes up; of a cut character it does not matter, as nothing follows. -/
def Item.size : Item → Nat
  | .char c => (encodeChar c).length
  | .invalid n => n
  | .cut => 0

/-- The state after the first byte of a character, with the item it completes. The second byte of
a longer character is restricted where it would otherwise spell a value in more bytes than it
needs, a surrogate, or a value above U+10FFFF. -/
def first (b : Nat) : State × Option Item :=
  if b < 0x80 then (.start, some (.char (Char.ofNat b)))
  else if b < 0xC2 then (.start, some (.invalid 1))
  else if b < 0xE0 then (.inside 1 1 0x80 0xBF (b - 0xC0), none)
  else if b < 0xF0 then
    let low := if b = 0xE0 then 0xA0 else 0x80
    let high := if b = 0xED then 0x9F else 0xBF
    (.inside 1 2 low high (b - 0xE0), none)
  else if b < 0xF5 then
    let low := if b = 0xF0 then 0x90 else 0x80
    let high := if b = 0xF4 then 0x8F else 0xBF
    (.inside 1 3 low high (b - 0xF0), none)
  else (.start, some (.invalid 1))

/-- A reader: its state, and the items read so far, the last one first. -/
structure Reader where
  state : State
  items : List Item

/-- Starts a character at a byte. -/
def Reader.begin (items : List Item) (b : Nat) : Reader :=
  match first b with
  | (state, some item) => ⟨state, item :: items⟩
  | (state, none) => ⟨state, items⟩

/-- Takes one byte. A byte that cannot continue the character at hand ends it as ill-formed and
starts the next one. -/
def Reader.push (r : Reader) (byte : UInt8) : Reader :=
  let b := byte.toNat
  match r.state with
  | .start => .begin r.items b
  | .inside taken owed low high code =>
    if low ≤ b ∧ b ≤ high then
      let code := code * 0x40 + (b - 0x80)
      if owed ≤ 1 then ⟨.start, .char (Char.ofNat code) :: r.items⟩
      else ⟨.inside (taken + 1) (owed - 1) 0x80 0xBF code, r.items⟩
    else .begin (.invalid taken :: r.items) b

/-- The items of a byte string, in order. -/
def scan (bs : Bytes) : List Item :=
  let r := bs.foldl Reader.push ⟨.start, []⟩
  match r.state with
  | .start => r.items.reverse
  | .inside .. => (.cut :: r.items).reverse

/-- Why a byte string is not UTF-8. -/
inductive Error where
  /-- An ill-formed subpart of `size` bytes. -/
  | invalid (size index : Nat)
  /-- The string ends inside a character. -/
  | incomplete (index : Nat)
  deriving DecidableEq, Repr

/-- The wording of a decoding error. -/
def Error.message : Error → String
  | .invalid size index => s!"invalid utf-8 sequence of {size} bytes from index {index}"
  | .incomplete index => s!"incomplete utf-8 byte sequence from index {index}"

/-- The characters of a list of items that holds nothing else; `index` is the place of the first
item, `cs` the characters before it, the last one first. -/
def Item.chars : (items : List Item) → (index : Nat) → (cs : List Char) → Except Error (List Char)
  | [], _, cs => .ok cs.reverse
  | .char c :: items, index, cs => chars items (index + (encodeChar c).length) (c :: cs)
  | .invalid size :: _, index, _ => .error (.invalid size index)
  | .cut :: _, index, _ => .error (.incomplete index)

/-- The text that a byte string spells. -/
def decode (bs : Bytes) : Except Error (List Char) := Item.chars (scan bs) 0 []

/-- The text that a byte string spells, with U+FFFD for every part that spells no character. -/
def decodeLossy (bs : Bytes) : List Char :=
  (scan bs).map fun
    | .char c => c
    | _ => '\uFFFD'

end ContractHost.Utf8
