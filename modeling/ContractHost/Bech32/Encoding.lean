import ContractHost.Bech32.Checksum
import ContractHost.Text.Utf8

/-!
Strings of a human-readable part, the separator `1`, data words and their checksum.

`encode` writes them and `decode` reads them with their variant. A string is in one case throughout;
the human-readable part that `decode` answers is in lower case. The last `1` is the separator, as no
word has that character. No bound is put on the whole length.
-/

namespace ContractHost.Bech32

/-- Why a string cannot be written or read. -/
inductive Error where
  | missingSeparator
  | invalidLength
  | invalidChar (c : Char)
  | mixedCase
  | invalidChecksum
  | invalidPadding
  deriving DecidableEq, Repr

/-- The wording of an error. -/
def Error.message : Error → String
  | .missingSeparator => "missing human-readable separator, \"1\""
  | .invalidLength => "invalid length"
  | .invalidChar c => s!"invalid character (code={c})"
  | .mixedCase => "mixed-case strings not allowed"
  | .invalidChecksum => "invalid checksum"
  | .invalidPadding => "invalid padding"

/-- The two cases of letters. -/
inductive LetterCase where
  | lower
  | upper
  deriving DecidableEq, Repr

/-- The case of a character, if it is an ASCII letter. -/
def letterCase? (c : Char) : Option LetterCase :=
  if c.isLower then some .lower
  else if c.isUpper then some .upper
  else none

/-- The case of a string so far after one more character. -/
def mergeCase (seen : Option LetterCase) (c : Char) : Except Error (Option LetterCase) :=
  match seen, letterCase? c with
  | seen, none => .ok seen
  | none, some new => .ok (some new)
  | some old, some new => if old = new then .ok seen else .error .mixedCase

/-- The longest human-readable part in bytes. -/
def maxHrpLength : Nat := 83

/-- Checks bytes of a human-readable part from the left: printable ASCII in one case. A byte that is
not is named as the character of its value. -/
def checkBytes : Option LetterCase → Bytes → Except Error (Option LetterCase)
  | seen, [] => .ok seen
  | seen, b :: bs =>
    let c := Char.ofNat b.toNat
    if b < 33 ∨ 126 < b then .error (.invalidChar c)
    else
      match mergeCase seen c with
      | .error e => .error e
      | .ok seen => checkBytes seen bs

/-- Checks a human-readable part and answers the case of its letters. -/
def checkHrp (hrp : List Char) : Except Error (Option LetterCase) :=
  let bs := Utf8.encode hrp
  if bs.isEmpty ∨ maxHrpLength < bs.length then .error .invalidLength
  else checkBytes none bs

/-- A checked human-readable part in lower case. -/
def lowercase (hrp : List Char) : List Char := hrp.map Char.toLower

/-- Writes a human-readable part and data words with their checksum. -/
def encode (hrp : List Char) (data : List Word) (variant : Variant) : Except Error (List Char) :=
  match checkHrp hrp with
  | .error e => .error e
  | .ok _ =>
    let hrp := lowercase hrp
    .ok (hrp ++ '1' :: (data ++ checksum variant hrp data).map Word.char)

/-- Splits a string at its last separator. -/
def split? (s : List Char) : Option (List Char × List Char) :=
  match s.reverse.dropWhile (· ≠ '1') with
  | [] => none
  | _ :: front => some (front.reverse, (s.reverse.takeWhile (· ≠ '1')).reverse)

/-- Reads data characters from the left, with the case seen so far. -/
def readWords : Option LetterCase → List Char → Except Error (List Word)
  | _, [] => .ok []
  | seen, c :: cs =>
    if 128 ≤ c.toNat then .error (.invalidChar c)
    else
      match mergeCase seen c with
      | .error e => .error e
      | .ok seen =>
        match Word.ofChar? c.toLower with
        | none => .error (.invalidChar c)
        | some w =>
          match readWords seen cs with
          | .error e => .error e
          | .ok ws => .ok (w :: ws)

/-- What a string holds. -/
structure Decoded where
  /-- The human-readable part in lower case. -/
  hrp : List Char
  /-- The data words without checksum. -/
  data : List Word
  variant : Variant

/-- Reads a string. -/
def decode (s : List Char) : Except Error Decoded := do
  let some (hrp, rest) := split? s | throw .missingSeparator
  let seen ← checkHrp hrp
  let ws ← readWords seen rest
  if ws.length < checksumLength then throw .invalidLength
  let hrp := lowercase hrp
  match variant? hrp ws with
  | none => throw .invalidChecksum
  | some variant => return ⟨hrp, ws.take (ws.length - checksumLength), variant⟩

/-- The bytes of data words. -/
def bytesOfWords (ws : List Word) : Except Error Bytes :=
  match ofWords? ws with
  | none => .error .invalidPadding
  | some bs => .ok bs

end ContractHost.Bech32
