import ContractHost.Guest.Memory

/-!
Regions: the descriptors by which byte strings cross the boundary between host and guest.

A pointer leads to twelve bytes in the guest's memory: three words, least significant byte first,
that tell where a buffer starts, how many bytes it can take and how many are in use. The pointer
zero is no region: it says that there is nothing.
-/

namespace ContractHost.Guest

/-- A descriptor as it was read, with the pointer to it. -/
structure Region where
  ptr : UInt32
  offset : UInt32 := 0
  capacity : UInt32 := 0
  length : UInt32 := 0
  deriving DecidableEq, Repr, Inhabited

/-- Why a region cannot be read, written or made. -/
inductive MemoryFault where
  | nullPointer
  | zeroOffset (ptr : UInt32)
  | lengthOverCapacity (ptr length capacity : UInt32)
  | beyondAddresses (ptr : UInt32)
  | readOutside (length offset : Nat)
  | writeOutside (length offset : Nat)
  | writeToNull
  | unfit (length : Nat)
  | overCapacity (length : Nat) (capacity : UInt32)
  | cannotAllocate (size : Nat)
  | noAllocator
  | noDeallocator
  | memoryNotReady
  | allocatorNotReady
  | deallocatorNotReady
  | incompatibleExport
  /-- A fault that is told in words only. -/
  | other (text : String)
  deriving DecidableEq, Repr

/-- The wording of a memory fault. -/
def MemoryFault.message : MemoryFault → String
  | .nullPointer => "unexpected null region pointer"
  | .zeroOffset ptr => s!"region at {ptr} has a zero offset"
  | .lengthOverCapacity ptr length capacity =>
    s!"region at {ptr} has length {length} exceeding capacity {capacity}"
  | .beyondAddresses ptr => s!"region at {ptr} overflows the address space"
  | .readOutside length offset => s!"fail to read {length} bytes at offset {offset}"
  | .writeOutside length offset => s!"fail to write {length} bytes at offset {offset}"
  | .writeToNull => "cannot write to the null region"
  | .unfit length => s!"{length} bytes do not fit in a region"
  | .overCapacity length capacity => s!"writing {length} bytes exceeds region capacity {capacity}"
  | .cannotAllocate size => s!"cannot allocate {size} bytes"
  | .noAllocator => "no guest allocator"
  | .noDeallocator => "no guest deallocator"
  | .memoryNotReady => "guest memory is not initialized"
  | .allocatorNotReady => "guest allocator is not initialized"
  | .deallocatorNotReady => "guest deallocator is not initialized"
  | .incompatibleExport => "Incompatible Export Type"
  | .other text => text

namespace Region

/-- The pointer that leads nowhere. -/
def null : Region := { ptr := 0 }

/-- Is this the pointer that leads nowhere? -/
def isNull (r : Region) : Bool := r.ptr == 0

/-- The bytes of a descriptor. -/
def descriptorSize : Nat := 12

/-- Where in a descriptor the length stands. -/
def lengthOffset : Nat := 8

/-- The descriptor of a region as it stands in memory. -/
def descriptor (r : Region) : Bytes :=
  Bytes.ofNatLE 4 r.offset.toNat ++ Bytes.ofNatLE 4 r.capacity.toNat ++
    Bytes.ofNatLE 4 r.length.toNat

/-- The region that a descriptor spells. -/
def ofDescriptor (ptr : UInt32) (bs : Bytes) : Region where
  ptr := ptr
  offset := UInt32.ofNat (Bytes.toNatLE (bs.take 4))
  capacity := UInt32.ofNat (Bytes.toNatLE ((bs.drop 4).take 4))
  length := UInt32.ofNat (Bytes.toNatLE (bs.drop 8))

/-- Checks that a buffer starts somewhere, holds what is in use, and ends within 32 bits. -/
def check (r : Region) : Except MemoryFault Unit :=
  if r.offset = 0 then .error (.zeroOffset r.ptr)
  else if r.capacity < r.length then .error (.lengthOverCapacity r.ptr r.length r.capacity)
  else if UInt32.size ≤ r.offset.toNat + r.capacity.toNat then .error (.beyondAddresses r.ptr)
  else .ok ()

/-- Reads bytes at an offset. -/
def readSpan (m : Memory) (length offset : Nat) : Except MemoryFault Bytes :=
  match m.read? offset length with
  | some bs => .ok bs
  | none => .error (.readOutside length offset)

/-- Writes bytes at an offset. -/
def writeSpan (m : Memory) (offset : Nat) (data : Bytes) : Except MemoryFault Memory :=
  match m.write? offset data with
  | some m => .ok m
  | none => .error (.writeOutside data.length offset)

/-- Reads and checks the descriptor behind a pointer, which must not be zero. -/
def load (m : Memory) (ptr : UInt32) : Except MemoryFault Region := do
  if ptr = 0 then throw .nullPointer
  let bs ← readSpan m descriptorSize ptr.toNat
  let r := ofDescriptor ptr bs
  r.check
  return r

/-- The bytes in use of a region; there are none behind the pointer zero. -/
def read (m : Memory) (r : Region) : Except MemoryFault Bytes :=
  if r.isNull then .ok [] else readSpan m r.length.toNat r.offset.toNat

/-- Writes bytes into a region's buffer and their number into its descriptor. The state is the
memory: bytes that were written stay when the descriptor cannot be. -/
def write (r : Region) (data : Bytes) : EStateM MemoryFault Memory Region := do
  if r.isNull then throw .writeToNull
  if UInt32.size ≤ data.length then throw (.unfit data.length)
  if r.capacity.toNat < data.length then throw (.overCapacity data.length r.capacity)
  store r.offset.toNat data
  store (r.ptr.toNat + lengthOffset) (Bytes.ofNatLE 4 data.length)
  return { r with length := UInt32.ofNat data.length }
where
  /-- Writes a span of the memory that is the state. -/
  store (offset : Nat) (data : Bytes) : EStateM MemoryFault Memory Unit := do
    let m ← get
    match writeSpan m offset data with
    | .ok m => set m
    | .error e => throw e

end Region

end ContractHost.Guest
