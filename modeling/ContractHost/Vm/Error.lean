import ContractHost.Guest.Machine
import ContractHost.Text.Base64

/-!
The errors that an embedder sees, and how the failures of the parts become such errors.
-/

namespace ContractHost

open Guest (Trap LinkFault MemoryFault)

/-- Why data cannot be read as what it should be. -/
inductive SerializationFault where
  | json
  | base64 (e : Base64.Error)
  | utf8 (e : Utf8.Error)
  deriving DecidableEq, Repr

/-- The wording of a serialization fault. -/
def SerializationFault.message : SerializationFault → String
  | .json => "invalid JSON"
  | .base64 e => s!"invalid base64: {e.message}"
  | .utf8 e => e.message

/-- Why a module that compiled cannot be made ready. -/
inductive InstantiationFault where
  | link (e : LinkFault)
  /-- Its data or its start function trapped. -/
  | trapped (t : Trap)
  /-- Its allocator has not the type that host functions need. -/
  | environment
  deriving DecidableEq, Repr

/-- The wording of an instantiation fault. -/
def InstantiationFault.message : InstantiationFault → String
  | .link e => e.message
  | .trapped t => t.message
  | .environment => "Host env initialization error: Incompatible Export Type"

/-- The errors of a machine. -/
inductive VmError where
  | validation (e : ValidationFault)
  | guestAbort (text : String)
  | backend (e : BackendError)
  | gasExhausted
  | memory (e : MemoryFault)
  | serialization (e : SerializationFault)
  | notReady
  | alreadyBuilt
  | compile (text : String)
  | instantiation (e : InstantiationFault)
  | missingExport (name : String)
  | runtime (text : String)
  deriving DecidableEq, Repr

namespace VmError

/-- The wording of an error. -/
def message : VmError → String
  | .validation e => s!"Validation error: {e.message}"
  | .guestAbort text => s!"Aborted: {text}"
  | .backend e => s!"Backend error: {e.message}"
  | .gasExhausted => "Gas exhausted"
  | .memory e => s!"Memory error: {e.message}"
  | .serialization e => s!"Serialization error: {e.message}"
  | .notReady => "Instance is not ready, build a module first"
  | .alreadyBuilt => "A module is already built on this instance"
  | .compile text => s!"Cannot compile module: {text}"
  | .instantiation e => s!"Cannot instantiate module: {e.message}"
  | .missingExport name => s!"Missing export: {name}"
  | .runtime text => s!"Runtime error: {text}"

/-- The error of a failed host function: the same cause, and all causes of a failed call told one
behind the other. -/
def ofHostFault : HostFault → VmError
  | .validation e => .validation e
  | .aborted text => .guestAbort text
  | .backend e => .backend e
  | .memory e => .memory e
  | .runtime causes => .runtime (": ".intercalate causes)

/-- The error of a trap: that of the host function that failed, or the trap itself. -/
def ofTrap : Trap → VmError
  | .host e => ofHostFault e
  | t => .runtime t.message

end VmError

/-- Why an exported function cannot be had. -/
inductive ExportFault where
  | missing (name : String)
  | incompatible
  deriving DecidableEq, Repr

/-- The wording of an export fault. -/
def ExportFault.message : ExportFault → String
  | .missing name => s!"Missing export {name}"
  | .incompatible => MemoryFault.incompatibleExport.message

/-- Why the call of an exported function fails. -/
inductive CallFault where
  | noExport (e : ExportFault)
  | gasExhausted
  | trapped (t : Trap)
  deriving DecidableEq, Repr

/-- The error of a failed call. -/
def VmError.ofCallFault : CallFault → VmError
  | .noExport e => .missingExport e.message
  | .gasExhausted => .gasExhausted
  | .trapped t => ofTrap t

/-- Why bytecode does not become a module that can be used. -/
inductive BuildFault where
  | compile (text : String)
  | missingExport (name : String)
  deriving DecidableEq, Repr

/-- The error of bytecode that cannot be used. -/
def VmError.ofBuildFault : BuildFault → VmError
  | .compile text => .compile text
  | .missingExport name => .missingExport name

end ContractHost
