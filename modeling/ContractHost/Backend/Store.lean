import ContractHost.Bytes
import ContractHost.Backend.Error
import Std.Data.TreeMap

/-!
An ordered store of byte strings with iterators.

Keys are in byte-lexicographic order. An iterator is opened over a range of keys and holds the
records found at that moment, so later changes of the store do not reach it. It is named by a
number of four bytes, counted from zero and never given out twice; once it has nothing left it is
forgotten, and its name goes on meaning an iterator that is at its end.
-/

namespace ContractHost

/-- The order in which an iterator goes through its range. -/
inductive Order where
  | ascending
  | descending
  deriving DecidableEq, Repr

/-- The number that a guest passes for an order. -/
def Order.code : Order → Int32
  | .ascending => 1
  | .descending => 2

/-- The order that a number stands for. -/
def Order.ofCode (code : Int32) : Except BackendError Order :=
  if code = Order.ascending.code then .ok .ascending
  else if code = Order.descending.code then .ok .descending
  else .error (.user s!"Invalid order value {code}")

/-- A key and its value. -/
structure Record where
  key : Bytes
  value : Bytes
  deriving DecidableEq, Repr

/-- A store: its data, the records still to come of every open iterator, and how many iterators have
been opened. -/
structure Store where
  data : Std.TreeMap Bytes Bytes compare := ∅
  iterators : Std.TreeMap Nat (List Record) compare := ∅
  opened : Nat := 0

/-- An operation of a store. One that fails leaves the store that it had made till then. -/
abbrev StoreM := EStateM BackendError Store

namespace Store

/-- A store without data. -/
def empty : Store := {}

instance : Inhabited Store := ⟨empty⟩

/-- The value of a key. -/
def get? (s : Store) (key : Bytes) : Option Bytes := s.data[key]?

/-- Gives a key a value, new or instead of the one it has. -/
def insert (s : Store) (key value : Bytes) : Store := { s with data := s.data.insert key value }

/-- Takes a key out; one that is not there is no matter. -/
def erase (s : Store) (key : Bytes) : Store := { s with data := s.data.erase key }

/-- The number of keys. -/
def size (s : Store) : Nat := s.data.size

/-- Is there no key? -/
def isEmpty (s : Store) : Bool := s.data.isEmpty

/-- The records in the order of their keys. -/
def records (s : Store) : List Record := s.data.toList.map fun (key, value) => ⟨key, value⟩

/-- Does a key lie in the range from `start` on and before `stop`? A missing end is no bound. -/
def inRange (start stop : Option Bytes) (key : Bytes) : Bool :=
  start.all (fun b => (compare b key).isLE) && stop.all (fun b => (compare key b).isLT)

/-- The records of a range in the given order. -/
def range (s : Store) (start stop : Option Bytes) (order : Order) : List Record :=
  let found := s.records.filter fun r => inRange start stop r.key
  match order with
  | .ascending => found
  | .descending => found.reverse

/-- The length of an iterator's name. -/
def nameLength : Nat := 4

/-- The number of iterators that a store can open. The last name is never given out. -/
def maxIterators : Nat := UInt32.size - 1

/-- Opens an iterator over a range and answers its name. -/
def scan (start stop : Option Bytes) (order : Order) : StoreM Bytes := do
  let s ← get
  if s.opened < maxIterators then
    let records := s.range start stop order
    set { s with iterators := s.iterators.insert s.opened records, opened := s.opened + 1 }
    return Bytes.ofNatBE nameLength s.opened
  else throw (.unknown "iterator ids exhausted")

/-- A byte string as a list of decimal numbers. -/
def listText (bs : Bytes) : String :=
  let texts := bs.map fun b => toString b.toNat
  "[" ++ ", ".intercalate texts ++ "]"

/-- Takes the next record of an iterator, or none at its end. -/
def next (name : Bytes) : StoreM (Option Record) := do
  let s ← get
  if name.length = nameLength then
    let id := Bytes.toNatBE name
    match s.iterators[id]? with
    | some (record :: rest) =>
      set { s with iterators := s.iterators.insert id rest }
      return some record
    | some [] =>
      set { s with iterators := s.iterators.erase id }
      return none
    | none => if id < s.opened then return none else throw (.unknownIterator (toString id))
  else throw (.unknownIterator (listText name))

end Store

end ContractHost
