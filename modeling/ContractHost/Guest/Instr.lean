import ContractHost.Guest.Gas
import ContractHost.Guest.Value

/-!
The instructions of a guest, in the order in which its text has them, and their metering.

`meter` walks through the instructions of a function and adds up what they cost; in front of every
instruction where control may leave the straight line, what is owed so far is charged at once. So
a charge pays for the instructions behind the previous one, no matter on which way they are reached.
-/

namespace ContractHost.Guest

/-- An operation on the values at hand. -/
inductive Op where
  | i32Const (n : UInt32)
  | i64Const (n : UInt64)
  | f32Const
  | localGet (i : Nat)
  | localSet (i : Nat)
  | localTee (i : Nat)
  | globalGet (i : Nat)
  | globalSet (i : Nat)
  | drop
  | select
  | nop
  | unreachable
  | i32Load (offset : Nat)
  | i32Store (offset : Nat)
  | i32Load8U (offset : Nat)
  | i32Store8 (offset : Nat)
  | memorySize
  | memoryGrow
  | i32Add
  | i32Sub
  | i32Mul
  | i32DivS
  | i32DivU
  | i32RemU
  | i32Eqz
  | i64Mul
  | i64ShrU
  | i32WrapI64
  | i64ExtendI32U
  deriving DecidableEq, Repr

/-- An instruction. Blocks are written by their opening and their end. -/
inductive Instr where
  | op (o : Op)
  | call (f : Nat)
  | block
  | loop
  | ifThen
  | elseThen
  | close
  | br (depth : Nat)
  | brIf (depth : Nat)
  | ret
  /-- Pays points. No guest has this in its own text. -/
  | charge (cost : Nat)
  deriving DecidableEq, Repr

/-- The kind under which an operation is priced. -/
def Op.kind : Op → Gas.Kind
  | .i32Const _ | .i64Const _ | .nop => .free
  | .i32Load _ | .i32Store _ | .i32Load8U _ | .i32Store8 _ => .memoryAccess
  | .i32Mul | .i32DivS | .i32DivU | .i32RemU | .i64Mul => .product
  | .memoryGrow => .growth
  | _ => .plain

/-- The kind under which an instruction is priced. -/
def Instr.kind : Instr → Gas.Kind
  | .op o => o.kind
  | .call _ => .call
  | .block | .elseThen | .close | .charge _ => .free
  | .loop | .ifThen | .br _ | .brIf _ | .ret => .plain

/-- The price of an instruction. -/
def Instr.cost (i : Instr) : Nat := i.kind.cost

/-- Is what is owed charged in front of this instruction? -/
def Instr.settles : Instr → Bool
  | .loop | .close | .elseThen | .br _ | .brIf _ | .call _ | .ret => true
  | _ => false

/-- Charges what is owed in front of instructions, unless it is nothing. -/
def chargeFirst (owed : Nat) (is : List Instr) : List Instr :=
  if owed = 0 then is else .charge owed :: is

/-- The instructions of a function with its charges; `owed` is what was not charged yet. The end of
the function settles too. -/
def meter : (owed : Nat) → List Instr → List Instr
  | owed, [] => chargeFirst owed []
  | owed, i :: is =>
    if i.settles then chargeFirst (owed + i.cost) (i :: meter 0 is)
    else i :: meter (owed + i.cost) is

end ContractHost.Guest
