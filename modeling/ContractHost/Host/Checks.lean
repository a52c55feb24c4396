import ContractHost.Host.Basic

/-!
Addresses and signatures as a contract has them checked.
-/

namespace ContractHost

namespace Addresses

/-- The result of a check of an address. -/
def ofCheck {α : Type} (result : Except Address.Fault α) : HostM α :=
  Host.ofCheck (result.mapError .address)

/-- The canonical form of a human-readable address, as the backend has it. -/
def canonicalize (source : Bytes) : HostM Bytes := do
  let human ← ofCheck (Address.humanText source)
  Host.ofBackend ((← get).backend.addresses.canonical human)

/-- The human-readable form of a canonical address, as the backend has it. -/
def humanize (source : Bytes) : HostM (List Char) := do
  ofCheck (Address.checkCanonical source)
  Host.ofBackend ((← get).backend.addresses.human source)

/-- Checks that a byte string is a normalized address under a human-readable part. -/
def validate (hrp : List Char) (source : Bytes) : HostM Unit := do
  let result := Address.validate hrp source
  if let .error (.invalid human reason) := result then Host.note (.addressRefused human reason)
  ofCheck result

end Addresses

namespace Signatures

/-- What a guest is told of a check: zero for good, one for bad. -/
def code (good : Bool) : UInt32 := if good then 0 else 1

/-- The result of a check of a batch. -/
def ofBatch {α : Type} (result : Except Batch.Fault α) : HostM α := do
  if let .error (.mismatch e) := result then Host.note (.batchRefused e)
  Host.ofCheck (result.mapError .ofBatch)

/-- Aligns the lists of a batch. -/
def align (b : Batch.Lists) : HostM Batch.Lists := ofBatch ((Batch.align b).mapError .mismatch)

/-- Checks a packed batch of Ed25519 signatures. -/
def batchVerify (messages signatures keys : Bytes) : HostM Bool :=
  ofBatch (Batch.verify messages signatures keys)

/-- The key that signed a digest. -/
def recover (digest signature : Bytes) (param : UInt32) : HostM Bytes :=
  Host.ofCheck ((Secp256k1.recover digest signature param).mapError .recovery)

end Signatures

end ContractHost
