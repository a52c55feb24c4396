import ContractHost.Host.Fault

/-!
How the host reaches into a guest: its memory, and the functions by which the guest itself hands out
and takes back regions.

Everything here is said of any state `σ` that holds a memory and of any allocator, so it holds of a
memory without a guest as well as of a running guest whose allocator may do what it likes.
-/

namespace ContractHost

open Guest (Memory Region MemoryFault)

/-- The ways into a guest. -/
structure Access (σ : Type) where
  /-- The guest's memory, if it can be reached. -/
  memory : σ → Except MemoryFault Memory
  /-- Puts another memory in its place. -/
  setMemory : Memory → σ → σ
  /-- Asks the guest for a region of a size. -/
  allocate : UInt32 → EStateM HostFault σ UInt32
  /-- Hands a region back to the guest. -/
  deallocate : UInt32 → EStateM HostFault σ Unit

namespace Access

variable {σ : Type}

/-- The result of an operation on memory. -/
def ofMemory {α : Type} : Except MemoryFault α → EStateM HostFault σ α
  | .ok a => pure a
  | .error e => throw (.memory e)

/-- The guest's memory. -/
def view (g : Access σ) : EStateM HostFault σ Memory := do ofMemory (g.memory (← get))

/-- Runs an operation on the guest's memory. What it did before it failed stays done. -/
def onMemory {α : Type} (g : Access σ) (x : EStateM MemoryFault Memory α) :
    EStateM HostFault σ α := do
  let m ← g.view
  match x.run m with
  | .ok a m =>
    modify (g.setMemory m)
    return a
  | .error e m =>
    modify (g.setMemory m)
    throw (.memory e)

/-- The region behind a pointer, which must not be zero. -/
def region (g : Access σ) (ptr : UInt32) : EStateM HostFault σ Region := do
  if ptr = 0 then throw (.memory .nullPointer)
  ofMemory (Region.load (← g.view) ptr)

/-- The region behind a pointer, none behind zero. -/
def region? (g : Access σ) (ptr : UInt32) : EStateM HostFault σ (Option Region) :=
  if ptr = 0 then pure none else return some (← g.region ptr)

/-- The bytes in use of a region. -/
def read (g : Access σ) (r : Region) : EStateM HostFault σ Bytes :=
  if r.isNull then pure [] else do ofMemory (Region.read (← g.view) r)

/-- Writes bytes into a region. -/
def write (g : Access σ) (r : Region) (data : Bytes) : EStateM HostFault σ Region :=
  g.onMemory (r.write data)

/-- Has the guest hand out a region of a size. -/
def newRegion (g : Access σ) (size : Nat) : EStateM HostFault σ Region := do
  if UInt32.size ≤ size then throw (.memory (.cannotAllocate size))
  let ptr ← g.allocate (UInt32.ofNat size)
  g.region ptr

/-- Has the guest hand out a region that holds the given bytes. -/
def newBytes (g : Access σ) (data : Bytes) : EStateM HostFault σ Region := do
  let r ← g.newRegion data.length
  g.write r data

/-- Hands a region back to the guest; the pointer zero is none. -/
def free (g : Access σ) (ptr : UInt32) : EStateM HostFault σ Unit :=
  if ptr = 0 then pure () else g.deallocate ptr

/-- The access to a memory that no guest stands behind. -/
def bare : Access Memory where
  memory m := .ok m
  setMemory m _ := m
  allocate _ := throw (.memory .noAllocator)
  deallocate _ := throw (.memory .noDeallocator)

end Access

end ContractHost
