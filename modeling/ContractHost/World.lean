import ContractHost.Guest.State
import ContractHost.Host.Access
import ContractHost.Host.Basic

/-!
Host and guest together: the state that a call works on.
-/

namespace ContractHost

/-- A host and the guest that it serves. -/
structure World where
  host : Host
  guest : Guest.State

/-- An operation that the host does for a running guest. -/
abbrev ServiceM := EStateM HostFault World

namespace World

/-- Runs an operation of the host alone. -/
def onHost {ε α : Type} (x : EStateM ε Host α) : EStateM ε World α := fun w =>
  match x.run w.host with
  | .ok a host => .ok a { w with host }
  | .error e host => .error e { w with host }

/-- Runs an operation, keeping its failure as a result. -/
def observe {ε ε' σ α : Type} (x : EStateM ε σ α) : EStateM ε' σ (Except ε α) := fun s =>
  match x.run s with
  | .ok a s => .ok (.ok a) s
  | .error e s => .ok (.error e) s

/-- Enters an event into the journal. -/
def note {ε : Type} (e : Event) : EStateM ε World Unit :=
  modify fun w => { w with host := { w.host with journal := e :: w.host.journal } }

/-- Puts another memory into the guest. -/
def setMemory (m : Guest.Memory) (w : World) : World :=
  { w with guest := { w.guest with memory := m } }

end World

end ContractHost
