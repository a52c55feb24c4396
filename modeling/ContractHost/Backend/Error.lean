/-!
The failures of a backend.
-/

namespace ContractHost

/-- Why a backend refuses an operation. -/
inductive BackendError where
  /-- The caller's input is at fault. -/
  | user (text : String)
  /-- No iterator has this name. -/
  | unknownIterator (name : String)
  /-- Anything else. -/
  | unknown (text : String)
  deriving DecidableEq, Repr

/-- The wording of a backend's failure. -/
def BackendError.message : BackendError → String
  | .user text => s!"User error: {text}"
  | .unknownIterator name => s!"Iterator with id {name} does not exist"
  | .unknown text => s!"Unknown backend error: {text}"

end ContractHost
