import ContractHost.Guest.Code
import ContractHost.Guest.State
import ContractHost.Host.Import

/-!
Modules: what a guest is built from, and the two steps that make it ready to run — its imports are
bound to host functions, and its data is put into memory.

Functions are numbered from zero, imported ones first.
-/

namespace ContractHost.Guest

/-- A function that a module asks for. -/
structure Import where
  module : String
  name : String
  signature : Signature
  deriving DecidableEq, Repr

/-- A function that a module brings along. -/
structure Function where
  signature : Signature
  locals : List ValueType
  body : Code
  deriving DecidableEq, Repr

/-- What a name of a module stands for outside. -/
inductive Export where
  | function (i : Nat)
  | memory
  | global (i : Nat)
  deriving DecidableEq, Repr

/-- The pages that a memory starts with and may have. -/
structure MemoryType where
  pages : Nat
  addressable : pages ≤ addressablePages
  limit : Option Nat := none
  deriving DecidableEq, Repr

/-- A module. -/
structure Module where
  imports : List Import := []
  functions : List Function := []
  memory : Option MemoryType := none
  globals : List Value := []
  exports : List (String × Export) := []
  /-- Bytes with the addresses at which they start. -/
  data : List (Nat × Bytes) := []
  start : Option Nat := none
  deriving DecidableEq, Repr

namespace Module

/-- The signature of a function. -/
def signature? (m : Module) (f : Nat) : Option Signature :=
  if f < m.imports.length then m.imports[f]?.map Import.signature
  else m.functions[f - m.imports.length]?.map Function.signature

/-- The number of the function that is exported under a name. -/
def exportedFunction? (m : Module) (name : String) : Option Nat :=
  match m.exports.lookup name with
  | some (.function f) => some f
  | _ => none

/-- Is a function exported under a name, with a given signature? -/
def exportsFunction (m : Module) (name : String) (signature : Signature) : Bool :=
  ((m.exportedFunction? name).bind m.signature?) == some signature

/-- The name of the memory that the host reads and writes. -/
def memoryName : String := "memory"

/-- The name of the function that hands out regions. -/
def allocateName : String := "allocate"

/-- The name of the function that takes regions back. -/
def deallocateName : String := "deallocate"

/-- The type of the function that hands out regions. -/
def allocateSignature : Signature := ⟨[.i32], [.i32]⟩

/-- The type of the function that takes regions back. -/
def deallocateSignature : Signature := ⟨[.i32], []⟩

/-- The names that every module has to export. -/
def requiredExports : List String := [memoryName, allocateName, deallocateName]

/-- Is a required name exported as what it has to be? -/
def hasRequired (m : Module) (name : String) : Bool :=
  match m.exports.lookup name with
  | some .memory => name == memoryName
  | some (.function _) => name != memoryName
  | _ => false

/-- The first required name that is not exported as it has to be. -/
def missingExport? (m : Module) : Option String :=
  requiredExports.find? fun name => !m.hasRequired name

end Module

/-- Why an import cannot be bound. -/
inductive LinkFault where
  | unknown (i : Import)
  | incompatible (i : Import)
  deriving DecidableEq, Repr

/-- The wording of a failed import. -/
def LinkFault.message : LinkFault → String
  | .unknown i => s!"Error while importing \"{i.module}\".\"{i.name}\": unknown import"
  | .incompatible i =>
    s!"Error while importing \"{i.module}\".\"{i.name}\": incompatible import type"

/-- The host function that an import asks for. -/
def Import.bind (i : Import) : Except LinkFault HostFunction :=
  if i.module = HostFunction.moduleName then
    match HostFunction.ofName? i.name with
    | none => .error (.unknown i)
    | some f => if i.signature = f.signature then .ok f else .error (.incompatible i)
  else .error (.unknown i)

/-- A module with the host functions of its imports. -/
structure Linked where
  module : Module
  services : List HostFunction
  deriving DecidableEq, Repr

/-- Binds the imports of a module in their order. -/
def Module.link (m : Module) : Except LinkFault Linked := do
  return ⟨m, ← m.imports.mapM Import.bind⟩

/-- What a function of a linked module is. -/
inductive Callee where
  | service (f : HostFunction)
  | function (f : Function)

/-- The function with a given number. -/
def Linked.callee? (l : Linked) (f : Nat) : Option Callee :=
  if f < l.services.length then l.services[f]?.map .service
  else l.module.functions[f - l.services.length]?.map .function

/-- The memory that a module starts with, without its data. -/
def Module.blankMemory (m : Module) : Memory :=
  match m.memory with
  | none => { pages := 0, addressable := Nat.zero_le _, limit := 0 }
  | some t =>
    let limit := min (t.limit.getD addressablePages) addressablePages
    { pages := t.pages, addressable := t.addressable, limit }

/-- Puts pieces of data into a memory in their order. Also a piece without bytes has to start inside
or at the end. -/
def Memory.load? (m : Memory) (data : List (Nat × Bytes)) : Option Memory :=
  data.foldlM
    (fun m (start, bytes) => if start + bytes.length ≤ m.size then m.write? start bytes else none) m

/-- The memory that a module starts with. -/
def Module.memory? (m : Module) : Option Memory := m.blankMemory.load? m.data

end ContractHost.Guest
