import ContractHost.Bech32.Encoding
import ContractHost.Limits

/-!
Addresses as a contract hands them over.

`validate` accepts exactly the normalized spelling: the address is read, the bytes it carries are
written again under this chain's human-readable part, and the result has to be the source itself.
-/

namespace ContractHost.Address

/-- Why a text is not a normalized address. -/
inductive Reason where
  /-- It cannot be read, or its bytes cannot be written again. -/
  | malformed (e : Bech32.Error)
  /-- It carries no bytes. -/
  | noData
  /-- Its bytes are written differently. -/
  | normalizesTo (address : List Char)
  deriving DecidableEq, Repr

/-- The wording of a reason. -/
def Reason.message : Reason → String
  | .malformed e => e.message
  | .noData => "no data"
  | .normalizesTo address => s!"normalizes to {String.ofList address}"

/-- Why an address is refused. -/
inductive Fault where
  | empty
  | tooLong (length : Nat)
  | canonicalTooLong (length : Nat)
  | notText
  | invalid (human : List Char) (reason : Reason)
  deriving DecidableEq, Repr

/-- The wording of a refusal; the reason for which a text is not normalized is not told. -/
def Fault.message : Fault → String
  | .empty => "Empty address."
  | .tooLong length => s!"Address length {length} exceeds maximum length {Limits.humanAddress}"
  | .canonicalTooLong length =>
    s!"Canonical address length {length} exceeds maximum length {Limits.canonicalAddress}"
  | .notText => "Address is not valid UTF-8"
  | .invalid human _ => s!"Invalid address: {String.ofList human}"

/-- The text of a human-readable address within its bounds. -/
def humanText (source : Bytes) : Except Fault (List Char) :=
  if source.isEmpty then .error .empty
  else if Limits.humanAddress < source.length then .error (.tooLong source.length)
  else (Utf8.decode source).mapError fun _ => .notText

/-- Checks the bounds of a canonical address. -/
def checkCanonical (source : Bytes) : Except Fault Unit :=
  if source.isEmpty then .error .empty
  else if Limits.canonicalAddress < source.length then .error (.canonicalTooLong source.length)
  else .ok ()

/-- The bytes that an address carries, written again under a human-readable part. -/
def normalize (hrp human : List Char) : Except Reason (List Char) := do
  let decoded ← (Bech32.decode human).mapError .malformed
  let bytes ← (Bech32.bytesOfWords decoded.data).mapError .malformed
  if bytes.isEmpty then throw .noData
  (Bech32.encode hrp (Bech32.toWords bytes) .bech32).mapError .malformed

/-- Is a text the normalized spelling of an address under a human-readable part? -/
def checkNormalized (hrp human : List Char) : Except Reason Unit := do
  let address ← normalize hrp human
  if address ≠ human then throw (.normalizesTo address)

/-- Checks that a byte string is a normalized address under a human-readable part. -/
def validate (hrp : List Char) (source : Bytes) : Except Fault Unit := do
  let human ← humanText source
  (checkNormalized hrp human).mapError (.invalid human)

end ContractHost.Address
