import ContractHost.Backend.Storage
import ContractHost.Host.Journal

/-!
The host's own state: the backend, the configuration, the debug messages of the guest, and the
journal.

An operation of the host that fails leaves everything as it was at the moment of failure.
-/

namespace ContractHost

/-- The state of a host. -/
structure Host where
  backend : Backend := {}
  config : Config := {}
  /-- The guest's debug messages, the first one first. -/
  messages : List String := []
  journal : Journal := []

/-- An operation of the host. -/
abbrev HostM := EStateM HostFault Host

namespace Host

/-- Enters an event into the journal. -/
def note (e : Event) : HostM Unit := modify fun h => { h with journal := e :: h.journal }

/-- Runs an operation on the backend's storage. -/
def onStorage {α : Type} (x : StorageM α) : HostM α := fun h =>
  match x.run h.backend.storage with
  | .ok a storage => .ok a { h with backend := { h.backend with storage } }
  | .error e storage => .error (.backend e) { h with backend := { h.backend with storage } }

/-- The result of an operation of the backend. -/
def ofBackend {α : Type} : Except BackendError α → HostM α
  | .ok a => pure a
  | .error e => throw (.backend e)

/-- The result of a check of the guest's data. -/
def ofCheck {α : Type} : Except ValidationFault α → HostM α
  | .ok a => pure a
  | .error e => throw (.validation e)

/-! ## What they do to a host -/

/-- The host with one more event in its journal. -/
def noting (h : Host) (e : Event) : Host := { h with journal := e :: h.journal }

variable {α : Type} (h : Host)

@[simp] theorem run_note (e : Event) : (note e).run h = .ok () (h.noting e) := rfl

@[simp] theorem run_ofBackend_ok (a : α) : (ofBackend (.ok a)).run h = .ok a h := rfl

@[simp] theorem run_ofBackend_error (e : BackendError) :
    (ofBackend (.error e) : HostM α).run h = .error (.backend e) h := rfl

@[simp] theorem run_ofCheck_ok (a : α) : (ofCheck (.ok a)).run h = .ok a h := rfl

@[simp] theorem run_ofCheck_error (e : ValidationFault) :
    (ofCheck (.error e) : HostM α).run h = .error (.validation e) h := rfl

end Host

end ContractHost
