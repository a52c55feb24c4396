/-!
The bounds that the host enforces on what a contract hands it, and the configuration of a machine.
-/

namespace ContractHost

namespace Limits

/-- The longest key of the store. -/
def key : Nat := 64 * 1024

/-- The longest value of the store. -/
def value : Nat := 128 * 1024

/-- The longest canonical address. -/
def canonicalAddress : Nat := 64

/-- The longest human-readable address. -/
def humanAddress : Nat := 256

/-- The length of an Ed25519 signature. -/
def ed25519Signature : Nat := 64

/-- The longest message under an Ed25519 signature. -/
def ed25519Message : Nat := 128 * 1024

/-- The length of an Ed25519 public key. -/
def ed25519Key : Nat := 32

end Limits

/-- What an embedder may choose. -/
structure Config where
  /-- The metering points of a freshly built machine. -/
  gasLimit : UInt64 := 100000000000
  /-- The gas limit of every query to the chain. -/
  queryGasLimit : UInt64 := 100000
  /-- Are the guest's debug messages logged too? -/
  debugToLog : Bool := true
  deriving DecidableEq, Repr

end ContractHost
