import ContractHost.Guest.Module
import ContractHost.Host.Functions

/-!
The running of a guest.

`Code.exec` runs code on a frame, given how functions are called; `invoke` calls functions, and ties
the two together. Charges are the only instructions that pay, and a call or a jump back is always
behind one, so the points that are left bound both how often a loop is repeated and how deep calls
are nested: the fuel of `Code.exec` and `invoke` is taken from them.
-/

namespace ContractHost.Guest

open World (onHost note)

/-- Why a guest's run ends before its time. -/
inductive Trap where
  | unreachable
  | outOfBounds
  | divideByZero
  | integerOverflow
  /-- A host function failed. -/
  | host (e : HostFault)
  | other (text : String)
  deriving DecidableEq, Repr

/-- The wording of a trap. -/
def Trap.text : Trap → String
  | .unreachable => "unreachable"
  | .outOfBounds => "out of bounds memory access"
  | .divideByZero => "integer divide by zero"
  | .integerOverflow => "integer overflow"
  | .host e => e.message
  | .other text => text

/-- The wording of a trap where it is told as a failure. -/
def Trap.message (t : Trap) : String := s!"RuntimeError: {t.text}"

/-- A step of a run. -/
abbrev RunM := EStateM Trap World

/-- The trap of an instruction without its operands, which code that was checked never meets. -/
def stuck {α : Type} : RunM α := throw (.other "invalid operands")

/-- The operands and the local variables of a running function, the last operand first. -/
structure Frame where
  stack : List Value
  locals : List Value

/-! ## Memory, variables and points -/

/-- The guest's state. -/
def guest : RunM State := return (← get).guest

/-- Reads a number of bytes of the memory. -/
def loadNat (start length : Nat) : RunM Nat := do
  match (← guest).memory.read? start length with
  | some bs => return Bytes.toNatLE bs
  | none => throw .outOfBounds

/-- Writes a number into bytes of the memory. -/
def storeNat (start length n : Nat) : RunM Unit := do
  match (← guest).memory.write? start (Bytes.ofNatLE length n) with
  | some m => modify (World.setMemory m)
  | none => throw .outOfBounds

/-- Adds pages to the memory and answers how many there were, or the largest word if they cannot be
added. -/
def growMemory (delta : UInt32) : RunM UInt32 := do
  let m := (← guest).memory
  match m.grow? delta.toNat with
  | some grown =>
    modify (World.setMemory grown)
    return UInt32.ofNat m.pages
  | none => return UInt32.ofNat (UInt32.size - 1)

/-- Gives a global variable a value. -/
def setGlobal (i : Nat) (v : Value) : RunM Unit :=
  modify fun w => { w with guest := { w.guest with globals := w.guest.globals.set i v } }

/-- Puts another meter into the guest. -/
def setMeter (m : Meter) : RunM Unit :=
  modify fun w => { w with guest := { w.guest with meter := m } }

/-- Pays a cost. Where the points do not suffice they are left alone, the meter is exhausted, and
the run ends. -/
def pay (cost : Nat) : RunM Unit := do
  let m := (← guest).meter
  match m.pay? cost with
  | some m =>
    setMeter m
    note (.charged cost)
  | none =>
    setMeter { m with exhausted := true }
    note (.exhausted cost)
    throw .unreachable

/-! ## Operations -/

/-- The quotient of words with their signs. -/
def divideSigned (a b : UInt32) : RunM UInt32 :=
  if b = 0 then throw .divideByZero
  else if a = 0x80000000 ∧ b = 0xFFFFFFFF then throw .integerOverflow
  else return (a.toInt32 / b.toInt32).toUInt32

/-- Does an operation. -/
def Op.exec (o : Op) (f : Frame) : RunM Frame :=
  match o, f.stack with
  | .i32Const n, st => return { f with stack := .i32 n :: st }
  | .i64Const n, st => return { f with stack := .i64 n :: st }
  | .f32Const, st => return { f with stack := .f32 :: st }
  | .localGet i, st =>
    match f.locals[i]? with
    | some v => return { f with stack := v :: st }
    | none => stuck
  | .localSet i, v :: st => return { stack := st, locals := f.locals.set i v }
  | .localTee i, v :: st => return { stack := v :: st, locals := f.locals.set i v }
  | .globalGet i, st => do
    match (← guest).globals[i]? with
    | some v => return { f with stack := v :: st }
    | none => stuck
  | .globalSet i, v :: st => do
    setGlobal i v
    return { f with stack := st }
  | .drop, _ :: st => return { f with stack := st }
  | .select, .i32 c :: b :: a :: st => return { f with stack := (if c = 0 then b else a) :: st }
  | .nop, _ => return f
  | .unreachable, _ => throw .unreachable
  | .i32Load offset, .i32 a :: st => do
    let n ← loadNat (a.toNat + offset) 4
    return { f with stack := .i32 (UInt32.ofNat n) :: st }
  | .i32Store offset, .i32 v :: .i32 a :: st => do
    storeNat (a.toNat + offset) 4 v.toNat
    return { f with stack := st }
  | .i32Load8U offset, .i32 a :: st => do
    let n ← loadNat (a.toNat + offset) 1
    return { f with stack := .i32 (UInt32.ofNat n) :: st }
  | .i32Store8 offset, .i32 v :: .i32 a :: st => do
    storeNat (a.toNat + offset) 1 v.toNat
    return { f with stack := st }
  | .memorySize, st => do
    let n := (← guest).memory.pages
    return { f with stack := .i32 (UInt32.ofNat n) :: st }
  | .memoryGrow, .i32 delta :: st => do
    let n ← growMemory delta
    return { f with stack := .i32 n :: st }
  | .i32Add, .i32 b :: .i32 a :: st => return { f with stack := .i32 (a + b) :: st }
  | .i32Sub, .i32 b :: .i32 a :: st => return { f with stack := .i32 (a - b) :: st }
  | .i32Mul, .i32 b :: .i32 a :: st => return { f with stack := .i32 (a * b) :: st }
  | .i32DivS, .i32 b :: .i32 a :: st => do
    let q ← divideSigned a b
    return { f with stack := .i32 q :: st }
  | .i32DivU, .i32 b :: .i32 a :: st =>
    if b = 0 then throw .divideByZero else return { f with stack := .i32 (a / b) :: st }
  | .i32RemU, .i32 b :: .i32 a :: st =>
    if b = 0 then throw .divideByZero else return { f with stack := .i32 (a % b) :: st }
  | .i32Eqz, .i32 a :: st => return { f with stack := .i32 (if a = 0 then 1 else 0) :: st }
  | .i64Mul, .i64 b :: .i64 a :: st => return { f with stack := .i64 (a * b) :: st }
  | .i64ShrU, .i64 b :: .i64 a :: st => return { f with stack := .i64 (a >>> b) :: st }
  | .i32WrapI64, .i64 a :: st => return { f with stack := .i32 a.toUInt32 :: st }
  | .i64ExtendI32U, .i32 a :: st => return { f with stack := .i64 a.toUInt64 :: st }
  | _, _ => stuck

/-! ## Code -/

/-- How a run of instructions ends: at its end, by a jump out of as many blocks around it and one
more, or by a return from its function. -/
inductive Flow where
  | next
  | br (depth : Nat)
  | ret
  deriving DecidableEq, Repr

/-- Calls a function on arguments. -/
abbrev Caller := Nat → List Value → RunM (List Value)

/-- Repeats the body of a loop as long as it jumps back to its start. -/
def repeatBody (body : Frame → RunM (Flow × Frame)) : (fuel : Nat) → Frame → RunM (Flow × Frame)
  | 0, _ => stuck
  | fuel + 1, f => do
    let (flow, g) ← body f
    match flow with
    | .br 0 => repeatBody body fuel { g with stack := f.stack }
    | flow => return (flow, g)

/-- Calls a function on the operands at hand; `arity` tells how many each function takes. -/
def callOnFrame (arity : Nat → Option Nat) (call : Caller) (f : Nat) (fr : Frame) : RunM Frame := do
  match arity f with
  | none => stuck
  | some n =>
    let results ← call f (fr.stack.take n).reverse
    return { fr with stack := results.reverse ++ fr.stack.drop n }

/-- Runs code. A block that is left by a jump leaves the operands as they were at its start. -/
def Code.exec (arity : Nat → Option Nat) (call : Caller) : Code → Frame → RunM (Flow × Frame)
  | .done, f => return (.next, f)
  | .op o rest, f => do exec arity call rest (← o.exec f)
  | .call callee rest, f => do exec arity call rest (← callOnFrame arity call callee f)
  | .charge cost rest, f => do
    pay cost
    exec arity call rest f
  | .block body rest, f => do
    let (flow, g) ← exec arity call body f
    match flow with
    | .next => exec arity call rest g
    | .br 0 => exec arity call rest { g with stack := f.stack }
    | .br (depth + 1) => return (.br depth, g)
    | .ret => return (.ret, g)
  | .loop body rest, f => do
    -- a metered body pays a point each time it jumps back, so it does not outlast the fuel
    let points := (← guest).meter.points
    let (flow, g) ← repeatBody (exec arity call body) (points.toNat + 1) f
    match flow with
    | .next => exec arity call rest g
    | .br depth => return (.br (depth - 1), g)
    | .ret => return (.ret, g)
  | .choose yes no rest, f =>
    match f.stack with
    | .i32 c :: st => do
      let f := { f with stack := st }
      let (flow, g) ← if c = 0 then exec arity call no f else exec arity call yes f
      match flow with
      | .next => exec arity call rest g
      | .br 0 => exec arity call rest { g with stack := f.stack }
      | .br (depth + 1) => return (.br depth, g)
      | .ret => return (.ret, g)
    | _ => stuck
  | .brIf depth rest, f =>
    match f.stack with
    | .i32 c :: st =>
      let f := { f with stack := st }
      if c = 0 then exec arity call rest f else return (.br depth, f)
    | _ => stuck
  | .br depth, f => return (.br depth, f)
  | .ret, f => return (.ret, f)

/-- Runs a function that a module brings along. Its results are the last operands. -/
def Function.exec (arity : Nat → Option Nat) (call : Caller) (f : Function) (args : List Value) :
    RunM (List Value) := do
  let frame : Frame := { stack := [], locals := args ++ f.locals.map ValueType.zero }
  let (_, frame) ← f.body.exec arity call frame
  return (frame.stack.take f.signature.results.length).reverse

/-! ## Calls -/

/-- The access of the host to a running guest, given how its functions are called. A guest that is
still starting cannot be reached. -/
def access (l : Linked) (attached : Bool) (call : Caller) : Access World where
  memory w := if attached then .ok w.guest.memory else .error .memoryNotReady
  setMemory := World.setMemory
  allocate size := do
    if !attached then throw (.memory .allocatorNotReady)
    let f ← exported Module.allocateName Module.allocateSignature
    match ← attempt "fail to allocate linear memory" (call f [.i32 size]) with
    | [.i32 ptr] => return ptr
    | _ => throw (.memory .incompatibleExport)
  deallocate ptr := do
    if !attached then throw (.memory .deallocatorNotReady)
    let f ← exported Module.deallocateName Module.deallocateSignature
    discard <| attempt "fail to deallocate linear memory" (call f [.i32 ptr])
where
  /-- The function that is exported under a name, which has to have a given type. -/
  exported (name : String) (signature : Signature) : ServiceM Nat :=
    match l.module.exportedFunction? name with
    | some f => if l.module.signature? f = some signature then pure f
      else throw (.memory .incompatibleExport)
    | none => throw (.memory .incompatibleExport)
  /-- Calls the guest. A trap is told behind what was attempted. -/
  attempt {α : Type} (label : String) (x : RunM α) : ServiceM α :=
    EStateM.adaptExcept (fun t => HostFault.runtime [s!"{label}: {t.message}"]) x

/-- The number of arguments of a function. -/
def Linked.arity (l : Linked) (f : Nat) : Option Nat :=
  (l.module.signature? f).map fun s => s.params.length

/-- Calls a function of a linked module. `fuel` bounds how deep calls are nested, those between host
and guest included. -/
def invoke (l : Linked) (attached : Bool) : (fuel : Nat) → Caller
  | 0, _, _ => stuck
  | fuel + 1, f, args =>
    match l.callee? f with
    | none => stuck
    | some (.service h) =>
      EStateM.adaptExcept Trap.host
        (Service.serve (access l attached (invoke l attached fuel)) h args)
    | some (.function g) => g.exec l.arity (invoke l attached fuel) args

/-- Calls a function from outside. Every second call at least is one that the guest pays for, so
twice the points that are left bound how deep calls are nested. -/
def run (l : Linked) (attached : Bool) : Caller := fun f args => do
  let points := (← guest).meter.points
  invoke l attached (2 * points.toNat + 2) f args

/-- The access of the embedder to a guest that is ready. -/
def Linked.access (l : Linked) : Access World := Guest.access l true (run l true)

end ContractHost.Guest
