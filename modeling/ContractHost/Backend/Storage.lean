import ContractHost.Backend.Store
import ContractHost.Backend.AddressApi
import ContractHost.Backend.Querier

/-!
The storage that a contract works on, and the backend it is part of.

A storage is a store some of whose operations may be out of order: such an operation always fails in
the same way and leaves the store as it is.
-/

namespace ContractHost

/-- The operations of a storage that are out of order. -/
structure Outages where
  get : Option BackendError := none
  set : Option BackendError := none
  remove : Option BackendError := none
  scan : Option BackendError := none
  next : Option BackendError := none
  deriving DecidableEq, Repr

/-- A store and its operations that are out of order. -/
structure Storage where
  store : Store := .empty
  outages : Outages := {}

/-- An operation of a storage. -/
abbrev StorageM := EStateM BackendError Storage

namespace Storage

/-- Runs an operation on the store, or fails at once if it is out of order. -/
def unlessOut {α : Type} (outage : Outages → Option BackendError) (x : StoreM α) : StorageM α :=
  fun s =>
    match outage s.outages with
    | some e => .error e s
    | none =>
      match x.run s.store with
      | .ok a store => .ok a { s with store }
      | .error e store => .error e { s with store }

/-- The value of a key. -/
def get (key : Bytes) : StorageM (Option Bytes) :=
  unlessOut Outages.get fun s => .ok (s.get? key) s

/-- Gives a key a value. -/
def set (key value : Bytes) : StorageM Unit :=
  unlessOut Outages.set fun s => .ok () (s.insert key value)

/-- Takes a key out. -/
def remove (key : Bytes) : StorageM Unit :=
  unlessOut Outages.remove fun s => .ok () (s.erase key)

/-- Opens an iterator over a range and answers its name. -/
def scan (start stop : Option Bytes) (order : Order) : StorageM Bytes :=
  unlessOut Outages.scan (Store.scan start stop order)

/-- Takes the next record of an iterator, or none at its end. -/
def next (name : Bytes) : StorageM (Option Record) := unlessOut Outages.next (Store.next name)

end Storage

/-- What a contract's host is given from outside. -/
structure Backend where
  storage : Storage := {}
  addresses : AddressApi := .bech32 AddressApi.defaultHrp
  querier : Querier := .echo

end ContractHost
