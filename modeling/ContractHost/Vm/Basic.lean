import ContractHost.Vm.Entry

/-!
A machine: one backend, and one guest that is built on it at most once.

A machine starts without a module. Once a module compiled it is built, and it is ready once the
module was also found fit, bound to the host functions and started; neither is ever left again.
Entry points and memory are those of the guest that a machine holds. The guest and how far the
machine has come are kept apart, and a build changes the one after the other.
-/

namespace ContractHost

open Guest (Linked Module Region State Trap)

/-- A guest that is ready. -/
structure Instance where
  linked : Linked
  guest : State

/-- How far a machine has come. -/
inductive Phase where
  | uninitialized
  | built
  | ready
  deriving DecidableEq, Repr

/-- The name of a phase. -/
def Phase.name : Phase → String
  | .uninitialized => "Uninitialized"
  | .built => "Built"
  | .ready => "Ready"

/-- A machine. -/
structure Vm where
  host : Host
  phase : Phase := .uninitialized
  /-- The guest, once it is ready. -/
  instance? : Option Instance := none

/-- An operation of a machine. -/
abbrev VmM := EStateM VmError Vm

namespace Vm

/-- A machine without a module. -/
def new (config : Config) (backend : Backend) : Vm where
  host := { backend, config }

/-- The configuration that a machine was made with. -/
def config (vm : Vm) : Config := vm.host.config

/-- The points that the guest can count on, once it is ready. -/
def remainingGas (vm : Vm) : Option UInt64 :=
  vm.instance?.map fun i => i.guest.meter.remaining

/-- The guest's debug messages, the first one first. -/
def debugMessages (vm : Vm) : List String := vm.host.messages

/-- Forgets the guest's debug messages. -/
def clearDebugMessages (vm : Vm) : Vm :=
  { vm with host := { vm.host with messages := [], journal := .forgot :: vm.host.journal } }

/-- The log lines of everything that happened. -/
def log (vm : Vm) : List LogLine := vm.host.journal.lines

/-- Changes the storage from outside. -/
def mapStorage (f : Storage → Storage) (vm : Vm) : Vm :=
  { vm with
    host := { vm.host with
      backend := { vm.host.backend with storage := f vm.host.backend.storage } } }

/-! ## Building -/

/-- Runs an operation of the machine's host and a guest that is being started. The host keeps what
was done to it also when the operation fails, and the guest's state is answered. -/
def onGuest {α : Type} (x : Guest.RunM α) (guest : State) : EStateM Trap Host State := fun host =>
  match x.run { host, guest } with
  | .ok _ w => .ok w.guest w.host
  | .error t w => .error t w.host

/-- Does the allocator of a module have the types that host functions need? A module that imports
nothing needs none. -/
def allocatorFits (m : Module) : Bool :=
  m.imports.isEmpty ||
    (m.exportsFunction Module.allocateName Module.allocateSignature &&
      m.exportsFunction Module.deallocateName Module.deallocateSignature)

/-- The state of a guest before its start function runs. -/
def startState (m : Module) (gas : UInt64) : Option State :=
  m.memory?.map fun memory => { memory, globals := m.globals, meter := { points := gas } }

/-- Runs the start function, if there is one. -/
def start (l : Linked) (guest : State) : EStateM Trap Host State :=
  match l.module.start with
  | none => pure guest
  | some f => onGuest (Guest.run l false f []) guest

/-- Binds a module's imports, puts its data into memory and starts it. -/
def instantiate (m : Module) (gas : UInt64) : EStateM InstantiationFault Host Instance := do
  let linked ← match m.link with
    | .ok l => pure l
    | .error e => throw (.link e)
  let guest ← match startState m gas with
    | some s => pure s
    | none => throw (.trapped .outOfBounds)
  let guest ← EStateM.adaptExcept InstantiationFault.trapped (start linked guest)
  if !allocatorFits m then throw .environment
  return { linked, guest := { guest with meter := { points := gas } } }

/-- Runs an operation of the host. -/
def onHost {α : Type} (x : EStateM VmError Host α) : VmM α := fun vm =>
  match x.run vm.host with
  | .ok a host => .ok a { vm with host }
  | .error e host => .error e { vm with host }

/-- Goes on to another phase. -/
def enter (phase : Phase) : VmM Unit := modify fun vm => { vm with phase }

/-- Holds a guest. -/
def hold (i : Instance) : VmM Unit := modify fun vm => { vm with instance? := some i }

/-- Makes a module that compiled ready. -/
def makeReady (m : Module) : VmM Unit := do
  if let some name := m.missingExport? then throw (.ofBuildFault (.missingExport name))
  let gas := (← get).config.gasLimit
  let i ← onHost (EStateM.adaptExcept VmError.instantiation (instantiate m gas))
  onHost <| modify fun h => { h with journal := .built i.guest.meter.remaining :: h.journal }
  hold i
  enter .ready

/-- Builds a module, or fails with what its compilation says. What compiling a bytecode comes to is
the compiler's affair, so it is an argument: of one build whatever the compilations before it came
to, as no compilation is taken to have an effect on another. -/
def build (compiled : Except String Module) : VmM Unit := do
  if (← get).phase ≠ .uninitialized then throw .alreadyBuilt
  match compiled with
  | .error text => throw (.ofBuildFault (.compile text))
  | .ok m =>
    enter .built
    makeReady m

/-! ## Working with a guest that is ready -/

/-- Runs an operation on the guest, which has to be ready. -/
def onReady {α : Type} (x : Linked → Entry.EmbedM α) : VmM α := fun vm =>
  match vm.instance? with
  | some i =>
    match (x i.linked).run { host := vm.host, guest := i.guest } with
    | .ok a w => .ok a { vm with host := w.host, instance? := some { i with guest := w.guest } }
    | .error e w =>
      .error e { vm with host := w.host, instance? := some { i with guest := w.guest } }
  | none => .error .notReady vm

/-- Calls an entry point, and answers where its result is. -/
def call (e : EntryPoint) (env : Env) (info : MessageInfo) (msg : Json.Value) : VmM Region := do
  let ptr ← onReady fun l => Entry.call l e.name (e.arguments env info msg)
  return { ptr }

/-- Gives the guest a number of points. -/
def setRemainingGas (gas : UInt64) : VmM Unit :=
  onReady fun _ => do
    modify fun w => { w with guest := { w.guest with meter := { points := gas } } }
    World.note (.refilled gas)

/-- Has the guest hand out a region of a size. -/
def allocate (size : Nat) : VmM Region := onReady fun l => Entry.serve (l.access.newRegion size)

/-- Hands a region back to the guest. -/
def deallocate (ptr : UInt32) : VmM Unit := onReady fun l => Entry.serve (l.access.free ptr)

/-- Copies bytes into a new region. -/
def allocateBytes (data : Bytes) : VmM Region :=
  onReady fun l => Entry.serve (l.access.newBytes data)

/-- Copies a text into a new region. -/
def allocateText (text : String) : VmM Region := allocateBytes (Utf8.encode text.toList)

/-- Copies the JSON text of a value into a new region. -/
def allocateJson (v : Json.Value) : VmM Region := allocateBytes v.bytes

/-- Copies the bytes of a base64 text into a new region. -/
def allocateBase64 (text : String) : VmM Region := do
  match Base64.decode (Utf8.encode text.toList) with
  | .ok data => allocateBytes data
  | .error e => throw (.serialization (.base64 e))

/-- The region behind a pointer; behind zero it is the null region. -/
def region (ptr : UInt32) : VmM Region :=
  onReady fun l => Entry.serve do return (← l.access.region? ptr).getD Region.null

/-- Copies bytes into a region that is there, and answers the region as it is then. -/
def write (ptr : UInt32) (data : Bytes) : VmM Region :=
  onReady fun l => Entry.serve do l.access.write (← l.access.region ptr) data

/-- The bytes in use of the region behind a pointer; behind zero there are none. -/
def readBytes (ptr : UInt32) : VmM Bytes :=
  onReady fun l => Entry.serve do
    match ← l.access.region? ptr with
    | some r => l.access.read r
    | none => return []

/-- The text of a region. -/
def readText (ptr : UInt32) : VmM String := do
  match Utf8.decode (← readBytes ptr) with
  | .ok cs => return String.ofList cs
  | .error e => throw (.serialization (.utf8 e))

/-- What a region's JSON text spells, as `read?` has it. -/
def readJson {α : Type} (read? : Bytes → Option α) (ptr : UInt32) : VmM α := do
  match read? (← readBytes ptr) with
  | some a => return a
  | none => throw (.serialization .json)

end Vm

end ContractHost
