/-!
The types and values that a guest computes with.

Floating-point values are passed on without their bits, as no instruction here looks at them.
-/

namespace ContractHost.Guest

/-- The type of a value. -/
inductive ValueType where
  | i32
  | i64
  | f32
  | f64
  deriving DecidableEq, Repr

/-- How a type is written in messages. -/
def ValueType.name : ValueType → String
  | .i32 => "I32"
  | .i64 => "I64"
  | .f32 => "F32"
  | .f64 => "F64"

/-- A value. -/
inductive Value where
  | i32 (n : UInt32)
  | i64 (n : UInt64)
  | f32
  | f64
  deriving DecidableEq, Repr, Inhabited

/-- The type of a value. -/
def Value.type : Value → ValueType
  | .i32 _ => .i32
  | .i64 _ => .i64
  | .f32 => .f32
  | .f64 => .f64

/-- The value that a variable of a type starts with. -/
def ValueType.zero : ValueType → Value
  | .i32 => .i32 0
  | .i64 => .i64 0
  | .f32 => .f32
  | .f64 => .f64

/-- How types are listed in messages. -/
def ValueType.listText (ts : List ValueType) : String :=
  let names := ts.map ValueType.name
  "[" ++ ", ".intercalate names ++ "]"

/-- The types that a function takes and answers. -/
structure Signature where
  params : List ValueType := []
  results : List ValueType := []
  deriving DecidableEq, Repr

/-- How a signature is written in messages. -/
def Signature.text (s : Signature) : String :=
  ValueType.listText s.params ++ " -> " ++ ValueType.listText s.results

end ContractHost.Guest
