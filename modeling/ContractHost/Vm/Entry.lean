import ContractHost.CallContext
import ContractHost.Vm.Error

/-!
The call of an entry point of a guest that is ready.

The arguments are copied into regions that the guest hands out, in their order; then the function of
the entry point's name is called with the pointers. Whatever fails is told as exhausted gas if no
points are left.
-/

namespace ContractHost

open Guest (Linked RunM Trap Value ValueType)

/-- The entry points of a contract. -/
inductive EntryPoint where
  | instantiate
  | execute
  | query
  | migrate
  | reply
  deriving DecidableEq, Repr

namespace EntryPoint

/-- The name under which an entry point is exported. -/
def name : EntryPoint → String
  | .instantiate => "instantiate"
  | .execute => "execute"
  | .query => "query"
  | .migrate => "migrate"
  | .reply => "reply"

/-- Is an entry point told who calls? -/
def takesInfo : EntryPoint → Bool
  | .instantiate | .execute => true
  | .query | .migrate | .reply => false

/-- The JSON texts that an entry point is called with. -/
def arguments (e : EntryPoint) (env : Env) (info : MessageInfo) (msg : Json.Value) : List Bytes :=
  env.toJson.bytes :: (if e.takesInfo then [info.toJson.bytes] else []) ++ [msg.bytes]

end EntryPoint

namespace Entry

/-- What the embedder does with a guest that is ready. -/
abbrev EmbedM := EStateM VmError World

/-- The points that can be counted on. -/
def remaining : EmbedM UInt64 := return (← get).guest.meter.remaining

/-- Runs an operation of the host on the guest. -/
def serve {α : Type} (x : ServiceM α) : EmbedM α := EStateM.adaptExcept VmError.ofHostFault x

/-- Runs an operation, and tells its failure as exhausted gas if no points are left. -/
def orExhausted {α : Type} (x : EmbedM α) : EmbedM α := fun w =>
  match x.run w with
  | .ok a w => .ok a w
  | .error e w => .error (if w.guest.meter.remaining = 0 then .gasExhausted else e) w

/-- Copies an argument into a new region of the guest. -/
def place (l : Linked) (arg : Bytes) : EmbedM UInt32 :=
  orExhausted <| serve do return (← l.access.newBytes arg).ptr

/-- Runs a function on pointers, if it takes them. -/
def runOn (l : Linked) (f : Nat) (pointers : List UInt32) : RunM (List Value) :=
  let given := pointers.map fun _ => ValueType.i32
  match l.module.signature? f with
  | none => Guest.stuck
  | some signature =>
    if signature.params = given then Guest.run l true f (pointers.map .i32)
    else
      let types := ValueType.listText given
      throw (.other s!"Parameters of type {types} did not match signature {signature.text}")

/-- The pointer that an entry point answers. -/
def result (name : String) : List Value → EmbedM UInt32
  | [.i32 ptr] => pure ptr
  | _ =>
    throw (.ofTrap (.other s!"entry point {name} must return a single region pointer"))

/-- Calls an entry point on its arguments. -/
def call (l : Linked) (name : String) (args : List Bytes) : EmbedM UInt32 := do
  let pointers ← args.mapM (place l)
  World.note (.calling name pointers)
  match l.module.exportedFunction? name with
  | none => throw (.missingExport name)
  | some f =>
    let results ← orExhausted (EStateM.adaptExcept VmError.ofTrap (runOn l f pointers))
    result name results

end Entry

end ContractHost
