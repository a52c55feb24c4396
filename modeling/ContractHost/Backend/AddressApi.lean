import ContractHost.Backend.Error
import ContractHost.Bech32.Encoding

/-!
The two forms of an address, as a backend maps them onto each other.

`AddressApi.bech32` takes the bytes that a bech32 string carries for the canonical form.
-/

namespace ContractHost

/-- How a backend maps human-readable and canonical addresses onto each other. -/
structure AddressApi where
  /-- The human-readable part of this chain's addresses. -/
  hrp : List Char
  /-- The canonical form of a human-readable address. -/
  canonical : List Char → Except BackendError Bytes
  /-- The human-readable form of a canonical address. -/
  human : Bytes → Except BackendError (List Char)

namespace AddressApi

/-- Runs a reading step whose error is the caller's fault, told behind `label`. -/
def blame {α : Type} (label : String) : Except Bech32.Error α → Except BackendError α
  | .ok a => .ok a
  | .error e => .error (.user s!"{label}: {e.message}")

/-- The bytes of a bech32 address with the human-readable part `hrp`. -/
def readBech32 (hrp : List Char) (address : List Char) : Except BackendError Bytes := do
  let decoded ← blame "Invalid address" (Bech32.decode address)
  if decoded.hrp ≠ hrp then
    throw (.user s!"Wrong address prefix {String.ofList decoded.hrp}")
  if decoded.variant ≠ .bech32 then throw (.user "Address is not bech32 encoded")
  let bytes ← blame "Invalid address data" (Bech32.bytesOfWords decoded.data)
  if bytes.isEmpty then throw (.user "Empty address data")
  return bytes

/-- The bech32 address of bytes with the human-readable part `hrp`. -/
def writeBech32 (hrp : List Char) (bytes : Bytes) : Except BackendError (List Char) :=
  if bytes.isEmpty then .error (.user "Empty canonical address")
  else
    match Bech32.encode hrp (Bech32.toWords bytes) .bech32 with
    | .ok address => .ok address
    | .error e => .error (.unknown e.message)

/-- The mapping of a chain whose addresses are bech32 strings. -/
def bech32 (hrp : List Char) : AddressApi where
  hrp := hrp
  canonical := readBech32 hrp
  human := writeBech32 hrp

/-- The human-readable part that addresses have unless another is chosen. -/
def defaultHrp : List Char := "cosmos".toList

end AddressApi

end ContractHost
