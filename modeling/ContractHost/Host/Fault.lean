import ContractHost.Address
import ContractHost.Backend.Error
import ContractHost.Crypto.Batch
import ContractHost.Crypto.Secp256k1
import ContractHost.Guest.Region

/-!
Why a host function ends the call that it serves.
-/

namespace ContractHost

/-- What is wrong with the data that a guest handed over. -/
inductive ValidationFault where
  | keyTooLong (length : Nat)
  | valueTooLong (length : Nat)
  /-- A number that stands for no order. -/
  | order (e : BackendError)
  | address (e : Address.Fault)
  | sections (e : Sections.Malformed)
  | batch (e : Batch.Mismatch)
  | recovery (e : Secp256k1.RecoveryFault)
  /-- A fault that is told in words only. -/
  | other (text : String)
  deriving DecidableEq, Repr

/-- What is wrong with a batch. -/
def ValidationFault.ofBatch : Batch.Fault → ValidationFault
  | .sections e => .sections e
  | .mismatch e => .batch e

/-- The wording of a validation fault. -/
def ValidationFault.message : ValidationFault → String
  | .keyTooLong length => s!"Key length {length} exceeds maximum length {Limits.key}"
  | .valueTooLong length => s!"Value length {length} exceeds maximum length {Limits.value}"
  | .order e => e.message
  | .address e => e.message
  | .sections e => e.message
  | .batch e => e.message
  | .recovery e => e.message
  | .other text => text

/-- Why a host function fails. -/
inductive HostFault where
  /-- The guest's data is refused. -/
  | validation (e : ValidationFault)
  /-- The guest asked for it. -/
  | aborted (text : String)
  | backend (e : BackendError)
  | memory (e : Guest.MemoryFault)
  /-- A call of the guest made by the host failed; the causes, outermost first. -/
  | runtime (causes : List String)
  deriving DecidableEq, Repr

/-- The wording of a host function's failure. -/
def HostFault.message : HostFault → String
  | .validation e => s!"Validation error: {e.message}"
  | .aborted text => s!"Aborted: {text}"
  | .backend e => s!"Backend error: {e.message}"
  | .memory e => s!"Memory error: {e.message}"
  | .runtime _ => "Runtime"

end ContractHost
