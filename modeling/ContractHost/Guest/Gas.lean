/-!
What the operators of a guest cost.

Constants and the mere shape of code are free; memory, multiplication and division, calls and the
growth of memory have prices of their own; every other operator costs one point.
-/

namespace ContractHost.Gas

/-- The kinds of operators that are priced alike. -/
inductive Kind where
  | free
  | plain
  | memoryAccess
  | product
  | call
  | growth
  deriving DecidableEq, Repr

/-- The price of calling a function, of host or guest. -/
def callCost : Nat := 10

/-- The price of growing the memory by any number of pages. -/
def growthCost : Nat := 1000

/-- The price of an operator of a kind. -/
def Kind.cost : Kind → Nat
  | .free => 0
  | .plain => 1
  | .memoryAccess => 3
  | .product => 5
  | .call => callCost
  | .growth => growthCost

/-- The names of the operators that are free. -/
def freeNames : List String := ["i32.const", "i64.const", "nop", "block", "end", "else"]

/-- The names of the operators that load and store integers. -/
def memoryAccessNames : List String :=
  ["i32.load", "i32.load8_s", "i32.load8_u", "i32.load16_s", "i32.load16_u", "i64.load",
    "i64.load8_s", "i64.load8_u", "i64.load16_s", "i64.load16_u", "i64.load32_s", "i64.load32_u",
    "i32.store", "i32.store8", "i32.store16", "i64.store", "i64.store8", "i64.store16",
    "i64.store32"]

/-- The names of the operators that multiply and divide integers. -/
def productNames : List String :=
  ["i32.mul", "i32.div_s", "i32.div_u", "i32.rem_s", "i32.rem_u", "i64.mul", "i64.div_s",
    "i64.div_u", "i64.rem_s", "i64.rem_u"]

/-- The names of the operators that call functions. -/
def callNames : List String := ["call", "call_indirect"]

/-- The names of the operators that grow the memory. -/
def growthNames : List String := ["memory.grow"]

/-- The kind of the operator with a given name. -/
def Kind.ofName (name : String) : Kind :=
  if name ∈ freeNames then .free
  else if name ∈ memoryAccessNames then .memoryAccess
  else if name ∈ productNames then .product
  else if name ∈ callNames then .call
  else if name ∈ growthNames then .growth
  else .plain

/-- The words of a line. -/
def words (line : String) : List String := (line.splitOn " ").filter fun w => !w.isEmpty

/-- The operators of a text that has one on each line. -/
def operators (text : String) : List String :=
  (text.splitOn "\n").filterMap fun line => (words line).head?

/-- The prices of the operators of a text. -/
def costs (text : String) : List Nat := (operators text).map fun name => (Kind.ofName name).cost

end ContractHost.Gas
