import ContractHost.Backend.Store
import ContractHost.Host.Fault
import ContractHost.Host.Import

/-!
What happens while a contract runs, event by event, and the log lines that come of it.

A debug message of the guest is two events, as it is two things that the host does: that it was
logged, if the configuration asks for it, and that it was kept.
-/

namespace ContractHost

/-- Something that happened. -/
inductive Event where
  /-- A key that was read is not in the store. -/
  | keyNotFound (key : Bytes)
  /-- A key was given a value. -/
  | wrote (key value : Bytes)
  /-- A key was taken out. -/
  | removed (key : Bytes)
  /-- An iterator was asked for more at its end. -/
  | iteratorExhausted (name : Bytes)
  /-- A text is not a normalized address. -/
  | addressRefused (human : List Char) (reason : Address.Reason)
  /-- Three lists make no batch. -/
  | batchRefused (e : Batch.Mismatch)
  /-- A module was built. -/
  | built (points : UInt64)
  /-- The guest was given a number of points. -/
  | refilled (points : UInt64)
  /-- The arguments of an entry point are in place. -/
  | calling (entry : String) (pointers : List UInt32)
  /-- The guest called a host function. -/
  | entered (f : HostFunction)
  /-- A host function came back to the guest. -/
  | returned (f : HostFunction)
  /-- A host function failed. -/
  | failed (f : HostFunction) (e : HostFault)
  /-- A debug message of the guest was logged. -/
  | logged (text : String)
  /-- A debug message of the guest was kept. -/
  | debugged (text : String)
  /-- The guest's debug messages were forgotten. -/
  | forgot
  /-- The guest asked for the end of the call. -/
  | aborting (text : String)
  /-- Metering points were paid. -/
  | charged (cost : Nat)
  /-- Metering points were asked for that were not there. -/
  | exhausted (cost : Nat)
  deriving DecidableEq

/-- How much a log line matters. -/
inductive LogLevel where
  | debug
  | warn
  | error
  deriving DecidableEq, Repr

/-- The name of a level. -/
def LogLevel.name : LogLevel → String
  | .debug => "DEBUG"
  | .warn => "WARN"
  | .error => "ERROR"

/-- A line of the log. -/
structure LogLine where
  level : LogLevel
  target : String
  text : String
  deriving DecidableEq, Repr

/-- The line that an event leaves in the log, if any. -/
def Event.line? : Event → Option LogLine
  | .keyNotFound key =>
    some ⟨.debug, "contract_vm::db",
      s!"db_read: key not found: {String.ofList (Utf8.decodeLossy key)}"⟩
  | .iteratorExhausted name =>
    some ⟨.debug, "contract_vm::db", s!"db_next: iterator {Store.listText name} exhausted"⟩
  | .addressRefused human reason =>
    some ⟨.warn, "contract_vm::address",
      s!"addr_validate: {String.ofList human}: {reason.message}"⟩
  | .batchRefused e =>
    let counts := s!"{e.messages} messages, {e.signatures} signatures, {e.keys} public keys"
    some ⟨.warn, "contract_vm::crypto", "ed25519_batch_verify: " ++ counts⟩
  | .built points =>
    some ⟨.debug, "contract_vm::instance", s!"module built, {points} metering points"⟩
  | .calling entry _ => some ⟨.debug, "contract_vm::instance", s!"calling {entry}"⟩
  | .logged text => some ⟨.debug, "contract_vm::guest", text⟩
  | .aborting text => some ⟨.error, "contract_vm::guest", s!"abort: {text}"⟩
  | _ => none

/-- What happened so far, the last event first. -/
abbrev Journal := List Event

/-- The log of a journal, the first line first. -/
def Journal.lines (journal : Journal) : List LogLine := journal.reverse.filterMap Event.line?

end ContractHost
