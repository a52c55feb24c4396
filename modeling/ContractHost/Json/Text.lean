import ContractHost.Json.Tree
import ContractHost.Text.Utf8

/-!
JSON strings as texts.

`text?` reads the pieces of a string, where escapes above U+FFFF come as pairs of surrogates;
`quoted` writes a text between quotes and escapes what has to be: quote, backslash and the control
characters below U+0020.
-/

namespace ContractHost.Json

/-- The first half of a surrogate pair. -/
def isHighSurrogate (u : Nat) : Bool := 0xD800 ≤ u && u < 0xDC00

/-- The second half of a surrogate pair. -/
def isLowSurrogate (u : Nat) : Bool := 0xDC00 ≤ u && u < 0xE000

/-- The bytes that the pieces of a string spell, onto those already spelt, the last one first.
A surrogate is good in a pair only. -/
def spell? : List Piece → (bs : Bytes) → Option Bytes
  | [], bs => some bs.reverse
  | .raw b :: ps, bs => spell? ps (b :: bs)
  | .unit u :: ps, bs =>
    if isLowSurrogate u then none
    else if isHighSurrogate u then
      match ps with
      | .unit v :: ps =>
        if isLowSurrogate v then
          let c := Char.ofNat (0x10000 + (u - 0xD800) * 0x400 + (v - 0xDC00))
          spell? ps ((Utf8.encodeChar c).reverse ++ bs)
        else none
      | _ => none
    else spell? ps ((Utf8.encodeChar (Char.ofNat u)).reverse ++ bs)

/-- The text of a string, if its escapes are characters and its bytes are UTF-8. -/
def text? (ps : List Piece) : Option String :=
  match spell? ps [] with
  | none => none
  | some bs => (Utf8.decode bs).toOption.map String.ofList

/-- A digit of an escape. -/
def hexChar (n : Nat) : Char := Nat.digitChar (n % 16)

/-- How a character is written inside a string. -/
def escape (c : Char) : List Char :=
  if c = '"' then ['\\', '"']
  else if c = '\\' then ['\\', '\\']
  else if 0x20 ≤ c.toNat then [c]
  else if c.toNat = 0x08 then ['\\', 'b']
  else if c.toNat = 0x09 then ['\\', 't']
  else if c.toNat = 0x0A then ['\\', 'n']
  else if c.toNat = 0x0C then ['\\', 'f']
  else if c.toNat = 0x0D then ['\\', 'r']
  else ['\\', 'u', '0', '0', hexChar (c.toNat / 16), hexChar c.toNat]

/-- A text as a JSON string. -/
def quoted (s : String) : List Char := '"' :: (s.toList.flatMap escape ++ ['"'])

end ContractHost.Json
