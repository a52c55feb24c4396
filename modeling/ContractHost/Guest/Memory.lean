import ContractHost.Bytes
import Std.Data.TreeMap

/-!
A guest's linear memory: bytes at addresses from zero on, in pages of 64 KiB.

Only bytes that were written are kept; every other byte inside the memory is zero. An access is good
if it lies inside the memory as a whole; one of no bytes touches nothing and is good anywhere.
-/

namespace ContractHost.Guest

/-- The bytes of a page. -/
def pageSize : Nat := 65536

/-- The pages that 32 bits can address. -/
def addressablePages : Nat := 65536

/-- One page can be addressed. -/
theorem addressable_one : 1 ≤ addressablePages := by decide

/-- A linear memory. -/
structure Memory where
  /-- How many pages it has. -/
  pages : Nat
  /-- All of it can be addressed. -/
  addressable : pages ≤ addressablePages
  /-- How many pages it may have. -/
  limit : Nat := addressablePages
  /-- The bytes that were written. -/
  written : Std.TreeMap Nat UInt8 compare := ∅

namespace Memory

/-- The number of bytes. -/
def size (m : Memory) : Nat := m.pages * pageSize

/-- The byte at an address. -/
def byte (m : Memory) (address : Nat) : UInt8 := m.written.getD address 0

/-- The bytes from an address on. -/
def bytes (m : Memory) (start length : Nat) : Bytes :=
  (List.range length).map fun i => m.byte (start + i)

/-- Does a span lie inside the memory? -/
def covers (m : Memory) (start length : Nat) : Bool := length == 0 || start + length ≤ m.size

/-- Reads a span. -/
def read? (m : Memory) (start length : Nat) : Option Bytes :=
  if m.covers start length then some (m.bytes start length) else none

/-- Puts bytes one after the other. -/
def put : (start : Nat) → Bytes → Std.TreeMap Nat UInt8 compare → Std.TreeMap Nat UInt8 compare
  | _, [], written => written
  | start, b :: bs, written => put (start + 1) bs (written.insert start b)

/-- Writes a span. -/
def write? (m : Memory) (start : Nat) (data : Bytes) : Option Memory :=
  if m.covers start data.length then some { m with written := put start data m.written } else none

/-- Adds pages, if the limit allows them and one page that 32 bits can address stays unused: a
memory may begin with all of them, but does not grow to all of them. Adding none is always
possible. -/
def grow? (m : Memory) (delta : Nat) : Option Memory :=
  if delta = 0 then some m
  else if h : m.pages + delta ≤ m.limit ∧ m.pages + delta < addressablePages then
    some { m with pages := m.pages + delta, addressable := Nat.le_of_lt h.2 }
  else none

end Memory

end ContractHost.Guest
