import ContractHost.Bytes

/-!
Words of five bits: their characters, and the regrouping of bytes into words and back.

Bits are taken from the most significant one on. Regrouping into words fills the last word with
zeros; regrouping back accepts exactly such a filling.
-/

namespace ContractHost.Bech32

/-- Five bits. -/
abbrev Word := BitVec 5

/-- The characters of the words in the order of their values. -/
def charset : List Char := "qpzry9x8gf2tvdw0s3jn54khce6mua7l".toList

/-- The character of a word. -/
def Word.char (w : Word) : Char := charset.getD w.toNat 'q'

/-- The word that a lower-case character stands for. -/
def Word.ofChar? (c : Char) : Option Word := (charset.idxOf? c).map (BitVec.ofNat 5)

/-! ## Regrouping -/

/-- The bits of a byte. -/
def byteBits (b : UInt8) : List Bool := (List.range 8).map b.toBitVec.getMsbD

/-- The bits of a word. -/
def wordBits (w : Word) : List Bool := (List.range 5).map w.getMsbD

/-- The number that bits denote. -/
def bitsValue (bs : List Bool) : Nat := bs.foldl (fun n b => 2 * n + b.toNat) 0

/-- The word of five bits. -/
def word (a b c d e : Bool) : Word := BitVec.ofNat 5 (bitsValue [a, b, c, d, e])

/-- The words of any number of bits, zeros added behind them as needed. -/
def wordsOfBits : List Bool → List Word
  | [] => []
  | [a] => [word a false false false false]
  | [a, b] => [word a b false false false]
  | [a, b, c] => [word a b c false false]
  | [a, b, c, d] => [word a b c d false]
  | a :: b :: c :: d :: e :: rest => word a b c d e :: wordsOfBits rest

/-- The bytes of any number of bits. What is left behind the last whole byte has to be a filling:
fewer than five bits, all of them zero. -/
def bytesOfBits? : List Bool → Option Bytes
  | a :: b :: c :: d :: e :: f :: g :: h :: rest =>
    (bytesOfBits? rest).map (UInt8.ofNat (bitsValue [a, b, c, d, e, f, g, h]) :: ·)
  | rest => if rest.length < 5 ∧ rest.all (!·) then some [] else none

/-- Bytes regrouped into words. -/
def toWords (bs : Bytes) : List Word := wordsOfBits (bs.flatMap byteBits)

/-- Words regrouped into bytes, if their filling is good. -/
def ofWords? (ws : List Word) : Option Bytes := bytesOfBits? (ws.flatMap wordBits)

end ContractHost.Bech32
