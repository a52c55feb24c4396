import ContractHost.Host.Basic
import ContractHost.Sections

/-!
The storage as a contract sees it.

Keys and values are bounded where they come in, before the storage is touched. A record of an
iterator is answered as two packed sections, key and value; the record of an iterator at its end is
eight zero bytes.
-/

namespace ContractHost.Database

/-- A record as two packed sections. -/
def encodeRecord (r : Record) : Bytes := Sections.encode [r.key, r.value]

/-- What an iterator at its end answers: an empty key and an empty value. -/
def exhaustedRecord : Bytes := List.replicate 8 0

/-- Checks the bound of a key. -/
def checkKey (key : Bytes) : Except ValidationFault Unit :=
  if Limits.key < key.length then .error (.keyTooLong key.length) else .ok ()

/-- Checks the bound of a value. -/
def checkValue (value : Bytes) : Except ValidationFault Unit :=
  if Limits.value < value.length then .error (.valueTooLong value.length) else .ok ()

/-- The value of a key, if it has one. -/
def read (key : Bytes) : HostM (Option Bytes) := do
  Host.ofCheck (checkKey key)
  let value ← Host.onStorage (Storage.get key)
  if value.isNone then Host.note (.keyNotFound key)
  return value

/-- Gives a key a value. -/
def write (key value : Bytes) : HostM Unit := do
  Host.ofCheck (checkValue value)
  Host.ofCheck (checkKey key)
  Host.onStorage (Storage.set key value)
  Host.note (.wrote key value)

/-- Takes a key out. A key of any length may be asked for. -/
def remove (key : Bytes) : HostM Unit := do
  Host.onStorage (Storage.remove key)
  Host.note (.removed key)

/-- Opens an iterator over a range and answers its name. -/
def scan (start stop : Option Bytes) (code : Int32) : HostM Bytes := do
  let order ← Host.ofCheck ((Order.ofCode code).mapError .order)
  Host.onStorage (Storage.scan start stop order)

/-- Takes the next record of an iterator. -/
def next (name : Bytes) : HostM Bytes := do
  match ← Host.onStorage (Storage.next name) with
  | some r => return encodeRecord r
  | none =>
    Host.note (.iteratorExhausted name)
    return exhaustedRecord

end ContractHost.Database
