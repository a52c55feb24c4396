import ContractHost.Guest.Assembly
import ContractHost.Guest.Module
import ContractHost.Guest.Region

/-!
Blueprints of guests: what a module holds, told by names and lines of instructions.

A blueprint may ask for the customary parts: the whole import table, a memory, an allocator that
hands out regions one behind the other and never takes one back, and two functions on top of it. The
allocator lays a descriptor of twelve bytes at the top of the heap and the buffer right behind it.
-/

namespace ContractHost.Guest

/-- A global variable by name. -/
structure GlobalPlan where
  name : String
  init : Value
  shownAs : Option String := none

/-- A function by name, its instructions as lines. -/
structure FunctionPlan where
  name : String
  shownAs : Option String := none
  signature : Signature := {}
  locals : List ValueType := []
  code : List String

/-- A memory, and the name under which it is exported if it is. -/
structure MemoryPlan where
  pages : Nat := 32
  limit : Option Nat := none
  shownAs : Option String := some Module.memoryName

/-- A region that is there from the start, its buffer right behind its descriptor. -/
structure RegionPlan where
  start : Nat
  data : Bytes
  capacity : Option Nat := none

/-- The import table as a whole. -/
def Import.table : List Import :=
  HostFunction.all.map fun f => ⟨HostFunction.moduleName, f.name, f.signature⟩

/-- What a guest is made of. -/
structure Blueprint where
  imports : List Import := Import.table
  memory : Option MemoryPlan := some {}
  /-- Where the heap starts. -/
  heap : UInt32 := 65536
  allocator : Bool := true
  /-- Are there functions on top of the allocator? -/
  helpers : Bool := true
  deallocator : Bool := true
  globals : List GlobalPlan := []
  functions : List FunctionPlan := []
  start : Option String := none
  data : List (Nat × Bytes) := []
  regions : List RegionPlan := []

/-! ## The customary parts -/

/-- The variable that holds the top of the heap. -/
def heapGlobal (heap : UInt32) : GlobalPlan := { name := "heap", init := .i32 heap }

/-- Hands out a region of a given size. -/
def allocatorPlan : FunctionPlan where
  name := Module.allocateName
  shownAs := some Module.allocateName
  signature := Module.allocateSignature
  locals := [.i32]
  code :=
    ["global.get $heap", "local.set 1",
      "local.get 1", "local.get 1", "i32.const 12", "i32.add", "i32.store",
      "local.get 1", "local.get 0", "i32.store offset=4",
      "local.get 1", "i32.const 0", "i32.store offset=8",
      "local.get 1", "i32.const 12", "i32.add", "local.get 0", "i32.add", "global.set $heap",
      "local.get 1"]

/-- Hands out a region that holds a word. -/
def wordRegionPlan : FunctionPlan where
  name := "u32_region"
  signature := ⟨[.i32], [.i32]⟩
  locals := [.i32]
  code :=
    ["i32.const 4", "call $allocate", "local.set 1",
      "local.get 1", "i32.load", "local.get 0", "i32.store",
      "local.get 1", "i32.const 4", "i32.store offset=8",
      "local.get 1"]

/-- Hands out a region of a given size that is all in use. -/
def zeroedRegionPlan : FunctionPlan where
  name := "zeroed_region"
  signature := ⟨[.i32], [.i32]⟩
  locals := [.i32]
  code :=
    ["local.get 0", "call $allocate", "local.set 1",
      "local.get 1", "local.get 0", "i32.store offset=8",
      "local.get 1"]

/-- Takes a region back by doing nothing. -/
def deallocatorPlan : FunctionPlan where
  name := Module.deallocateName
  shownAs := some Module.deallocateName
  signature := Module.deallocateSignature
  code := []

/-- The bytes of a region that is there from the start. -/
def RegionPlan.bytes (r : RegionPlan) : Bytes :=
  let region : Region :=
    { ptr := UInt32.ofNat r.start
      offset := UInt32.ofNat (r.start + Region.descriptorSize)
      capacity := UInt32.ofNat (r.capacity.getD r.data.length)
      length := UInt32.ofNat r.data.length }
  region.descriptor ++ r.data

/-! ## From blueprint to module -/

namespace Blueprint

/-- All functions, the customary ones first. -/
def allFunctions (b : Blueprint) : List FunctionPlan :=
  (if b.allocator then [allocatorPlan] else []) ++
    (if b.allocator && b.helpers then [wordRegionPlan, zeroedRegionPlan] else []) ++
    (if b.deallocator then [deallocatorPlan] else []) ++ b.functions

/-- All global variables, the top of the heap first. -/
def allGlobals (b : Blueprint) : List GlobalPlan :=
  (if b.allocator then [heapGlobal b.heap] else []) ++ b.globals

/-- The names of functions and global variables. -/
def names (b : Blueprint) : Assembly.Names where
  functions := b.imports.map Import.name ++ b.allFunctions.map FunctionPlan.name
  globals := b.allGlobals.map GlobalPlan.name

/-- The exports of things that are numbered in their order from `first` on. -/
def exportsOf (kind : Nat → Export) (first : Nat) (shown : List (Option String)) :
    List (String × Export) :=
  (shown.zipIdx first).filterMap fun (name, i) => name.map fun name => (name, kind i)

/-- All exports. -/
def exports (b : Blueprint) : List (String × Export) :=
  (b.memory.bind MemoryPlan.shownAs).toList.map (fun name => (name, .memory)) ++
    exportsOf .function b.imports.length (b.allFunctions.map FunctionPlan.shownAs) ++
    exportsOf .global 0 (b.allGlobals.map GlobalPlan.shownAs)

/-- The type of a memory, if all of its pages can be addressed. -/
def memoryType? (p : MemoryPlan) : Option MemoryType :=
  if h : p.pages ≤ addressablePages then
    some { pages := p.pages, limit := p.limit, addressable := h }
  else none

/-- The module of a blueprint, if its lines are instructions, its names are known and its memory can
be addressed. -/
def module? (b : Blueprint) : Option Module := do
  let names := b.names
  let functions ← b.allFunctions.mapM fun f => do
    let is ← Assembly.instrs? names f.code
    return { signature := f.signature, locals := f.locals, body := ← Code.metered? is }
  let memory ← b.memory.mapM memoryType?
  let start ← match b.start with
    | none => some none
    | some name => (names.functions.idxOf? name).map some
  return {
    imports := b.imports
    functions
    memory
    globals := b.allGlobals.map GlobalPlan.init
    exports := b.exports
    data := b.data ++ b.regions.map fun r => (r.start, r.bytes)
    start }

end Blueprint

end ContractHost.Guest
