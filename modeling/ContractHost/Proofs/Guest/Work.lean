import ContractHost.Host.Functions
import ContractHost.Proofs.Host.Turns

/-!
# What the host's work for a guest is made of

A host function looks at the guest's memory, puts another memory in its place, has the allocator
run, asks an operation of the host alone, or fails. So a property has each of them that has these
parts and is `Compositional`: `Reads` for what only looks, `Handles` for what hands out regions too,
and `Serving` for host functions that ask the host besides. The functions are gone through here,
once for all such properties; `closed_run` is about all of those that only remark on their work.
-/

namespace ContractHost

namespace HostFunction

/-- Does a host function do no more to the host than remark on its work? -/
def onlyRemarks : HostFunction → Bool
  | .dbWrite | .dbRemove | .dbScan | .dbNext | .debug => false
  | _ => true

/-- A host function that only remarks on its work is none of those with an effect. -/
theorem noEffect_of_onlyRemarks (f : HostFunction) (hf : f.onlyRemarks = true) :
    f ≠ .dbWrite ∧ f ≠ .dbRemove ∧ f ≠ .debug := by
  refine ⟨?_, ?_, ?_⟩
  all_goals
    rintro rfl
    cases hf

end HostFunction

namespace Guest

open Host (RemarkClosed)

/-- A property of the host's work that failing has, and a sequence if its parts have it. -/
structure HostClosed (C : (α : Type) → ServiceM α → Prop) : Prop extends Compositional C where
  fault {α : Type} (e : HostFault) : C α (throw e)

/-- A property that looking at the guest's memory has too. -/
structure Reads (C : (α : Type) → ServiceM α → Prop) (g : Access World) : Prop
    extends HostClosed C where
  view : C Memory g.view

/-- A property that changing the guest's memory and having its allocator run have too. -/
structure Handles (C : (α : Type) → ServiceM α → Prop) (g : Access World) : Prop
    extends Reads C g where
  setMemory (m : Memory) : C PUnit (modify (g.setMemory m))
  allocate (size : UInt32) : C UInt32 (g.allocate size)

/-- A property that an operation of the host has for a guest if it has another one for itself. Of
the world that a guest lives in, host functions ask for the backend and the gas of a query
besides. -/
structure Serving (C : (α : Type) → ServiceM α → Prop) (D : (α : Type) → HostM α → Prop)
    (g : Access World) : Prop extends Handles C g where
  onHost {α : Type} {x : HostM α} (hx : D α x) : C α (World.onHost x)
  observe {α : Type} {x : HostM α} (hx : D α x) :
    C (Except HostFault α) (World.observe (World.onHost x))
  backend {α : Type} {k : Backend → UInt64 → ServiceM α} (hk : ∀ b gas, C α (k b gas)) :
    C α (get >>= fun w => k w.host.backend w.host.config.queryGasLimit)

variable {C : (α : Type) → ServiceM α → Prop} {D : (α : Type) → HostM α → Prop} {g : Access World}
  {α : Type}

/-- What came of the memory is answered, or it is a failure. -/
theorem closed_ofMemory (hC : HostClosed C) (result : Except MemoryFault α) :
    C α (Access.ofMemory result) := by
  cases result with
  | ok a => exact hC.pure a
  | error e => exact hC.fault _

/-! ## Reading -/

section
variable (hg : Reads C g)
include hg

/-- A region is looked up in the memory; the pointer zero is refused before. -/
theorem closed_region (ptr : UInt32) : C Region (g.region ptr) := by
  unfold Access.region
  split
  · exact hg.fault _
  · exact hg.bind hg.view fun _ => closed_ofMemory hg.toHostClosed _

theorem closed_optionalRegion (ptr : UInt32) : C (Option Region) (g.region? ptr) := by
  unfold Access.region?
  split
  · exact hg.pure _
  · exact hg.bind (closed_region hg ptr) fun _ => hg.pure _

/-- Of the null region nothing is read, and the memory is not looked at. -/
theorem closed_read (r : Region) : C Bytes (g.read r) := by
  unfold Access.read
  split
  · exact hg.pure _
  · exact hg.bind hg.view fun _ => closed_ofMemory hg.toHostClosed _

/-- The first thing that host functions do is looking up a region and reading it. -/
theorem closed_bytesAt (ptr : UInt32) : C Bytes (Service.bytesAt g ptr) :=
  hg.bind (closed_region hg ptr) fun r => closed_read hg r

/-- No memory is looked at behind the pointer zero. -/
theorem closed_optionalBytesAt (ptr : UInt32) : C (Option Bytes) (Service.bytesAt? g ptr) := by
  refine hg.bind (closed_optionalRegion hg ptr) fun r => ?_
  cases r with
  | none => exact hg.pure _
  | some r => exact hg.bind (closed_read hg r) fun _ => hg.pure _

theorem closed_textAt (ptr : UInt32) : C String (Service.textAt g ptr) :=
  hg.bind (closed_bytesAt hg ptr) fun _ => hg.pure _

/-- Checking a signature asks for nothing but the bytes. -/
theorem closed_secp256k1Verify (digest signature key : UInt32) :
    C UInt32 (Service.secp256k1Verify g digest signature key) :=
  hg.bind (closed_bytesAt hg digest) fun _ => hg.bind (closed_bytesAt hg signature) fun _ =>
    hg.bind (closed_bytesAt hg key) fun _ => hg.pure _

theorem closed_ed25519Verify (message signature key : UInt32) :
    C UInt32 (Service.ed25519Verify g message signature key) :=
  hg.bind (closed_bytesAt hg message) fun _ => hg.bind (closed_bytesAt hg signature) fun _ =>
    hg.bind (closed_bytesAt hg key) fun _ => hg.pure _

end

/-! ## Regions that are handed out -/

section
variable (hg : Handles C g)
include hg

/-- Work on the memory begins with looking at it and ends with putting it back, whether the work
failed or not. -/
theorem closed_onMemory (x : EStateM MemoryFault Memory α) : C α (g.onMemory x) := by
  refine hg.bind hg.view fun m => ?_
  cases x.run m with
  | ok a m => exact hg.bind (hg.setMemory m) fun _ => hg.pure _
  | error e m => exact hg.bind (hg.setMemory m) fun _ => hg.fault _

theorem closed_write (r : Region) (data : Bytes) : C Region (g.write r data) :=
  closed_onMemory hg _

/-- A new region is one that the allocator handed out, and that then is looked up. -/
theorem closed_newRegion (size : Nat) : C Region (g.newRegion size) := by
  unfold Access.newRegion
  split
  · exact hg.fault _
  · exact hg.bind (hg.allocate _) fun ptr => closed_region hg.toReads ptr

theorem closed_newBytes (data : Bytes) : C Region (g.newBytes data) :=
  hg.bind (closed_newRegion hg _) fun r => closed_write hg r data

/-- Every answer is copied into a new region, so it depends on the allocator. -/
theorem closed_answer (data : Bytes) : C UInt32 (Service.answer g data) :=
  hg.bind (closed_newBytes hg data) fun _ => hg.pure _

/-- A region that the guest set aside is filled without its allocator. -/
theorem closed_fill (ptr : UInt32) (data : Bytes) : C Unit (Service.fill g ptr data) :=
  hg.bind (closed_region hg.toReads ptr) fun r => hg.bind (closed_write hg r data) fun _ =>
    hg.pure _

/-- Delivering is filling the destination, answering a refusal, or failing. -/
theorem closed_deliver (destination : UInt32) (result : Except HostFault Bytes) :
    C UInt32 (Service.deliver g destination result) := by
  unfold Service.deliver
  split
  · exact hg.bind (closed_fill hg destination _) fun _ => hg.pure _
  · exact closed_answer hg _
  · exact hg.fault _

end

/-! ## Host functions -/

section
variable (hC : Compositional C)
include hC

/-- Results are made of what was answered. -/
theorem closed_one {x : ServiceM UInt32} (hx : C UInt32 x) : C (List Value) (Service.one x) :=
  hC.bind hx fun _ => hC.pure _

theorem closed_nothing {x : ServiceM Unit} (hx : C Unit x) : C (List Value) (Service.nothing x) :=
  hC.bind hx fun _ => hC.pure _

/-- The pointer zero is not handed back. -/
theorem closed_free (hdeallocate : ∀ ptr, C Unit (g.deallocate ptr)) (ptr : UInt32) :
    C Unit (g.free ptr) := by
  unfold Access.free
  split
  · exact hC.pure _
  · exact hdeallocate ptr

end

section
variable (hg : Serving C D g)
include hg

/-- Opening an iterator has a property if the step of the host has it, whatever the range. -/
theorem closed_dbScan (hscan : ∀ start stop code, D _ (Database.scan start stop code))
    (start stop order : UInt32) : C UInt32 (Service.dbScan g start stop order) :=
  hg.bind (closed_optionalBytesAt hg.toReads start) fun start =>
    hg.bind (closed_optionalBytesAt hg.toReads stop) fun stop =>
      hg.bind (hg.onHost (hscan start stop _)) fun name => closed_answer hg.toHandles name

/-- Taking a record has a property if the step of the host has it, whatever the iterator. -/
theorem closed_dbNext (hnext : ∀ name, D _ (Database.next name)) (name : UInt32) :
    C UInt32 (Service.dbNext g name) :=
  hg.bind (closed_bytesAt hg.toReads name) fun name =>
    hg.bind (hg.onHost (hnext name)) fun record => closed_answer hg.toHandles record

variable (hD : RemarkClosed D)
include hD

/-- A key is read in the host, and its value handed out. -/
theorem closed_dbRead (key : UInt32) : C UInt32 (Service.dbRead g key) := by
  refine hg.bind (closed_bytesAt hg.toReads key) fun key =>
    hg.bind (hg.onHost (Database.closed_read hD key)) fun value => ?_
  cases value with
  | some value => exact closed_answer hg.toHandles value
  | none => exact hg.pure _

/-- The backend's refusal of an address is observed, and told to the guest. -/
theorem closed_addrHumanize (source destination : UInt32) :
    C UInt32 (Service.addrHumanize g source destination) :=
  hg.bind (closed_bytesAt hg.toReads source) fun source =>
    hg.bind (hg.observe (Addresses.closed_humanize hD source)) fun _ =>
      closed_deliver hg.toHandles destination _

/-- The other direction goes the same way. -/
theorem closed_addrCanonicalize (source destination : UInt32) :
    C UInt32 (Service.addrCanonicalize g source destination) :=
  hg.bind (closed_bytesAt hg.toReads source) fun source =>
    hg.bind (hg.observe (Addresses.closed_canonicalize hD source)) fun _ =>
      closed_deliver hg.toHandles destination _

/-- The prefix that addresses are checked against is one of the backend. -/
theorem closed_addrValidate (source : UInt32) : C UInt32 (Service.addrValidate g source) :=
  hg.bind (closed_bytesAt hg.toReads source) fun source => hg.backend fun b _ =>
    hg.bind (hg.onHost (Addresses.closed_validate hD b.addresses.hrp source)) fun _ => hg.pure _

/-- A recovered key is handed out as other answers are. -/
theorem closed_secp256k1RecoverPubkey (digest signature param : UInt32) :
    C UInt64 (Service.secp256k1RecoverPubkey g digest signature param) :=
  hg.bind (closed_bytesAt hg.toReads digest) fun digest =>
    hg.bind (closed_bytesAt hg.toReads signature) fun signature =>
      hg.bind (hg.onHost (Signatures.closed_recover hD digest signature param)) fun key =>
        hg.bind (closed_answer hg.toHandles key) fun _ => hg.pure _

/-- Of a batch only the verdict is answered. -/
theorem closed_ed25519BatchVerify (messages signatures keys : UInt32) :
    C UInt32 (Service.ed25519BatchVerify g messages signatures keys) :=
  hg.bind (closed_bytesAt hg.toReads messages) fun messages =>
    hg.bind (closed_bytesAt hg.toReads signatures) fun signatures =>
      hg.bind (closed_bytesAt hg.toReads keys) fun keys =>
        hg.bind (hg.onHost (Signatures.closed_batchVerify hD messages signatures keys)) fun _ =>
          hg.pure _

/-- What a query may cost is taken from the configuration. -/
theorem closed_queryChain (request : UInt32) : C UInt32 (Service.queryChain g request) :=
  hg.bind (closed_bytesAt hg.toReads request) fun request => hg.backend fun b gas =>
    hg.bind (hg.onHost (Host.closed_ofBackend hD (b.querier request gas))) fun response =>
      closed_answer hg.toHandles response

/-- An abort is remarked, and fails. -/
theorem closed_abort (message : UInt32) : C Unit (Service.abort g message) := by
  refine hg.bind (closed_textAt hg.toReads message) fun text => ?_
  have hnote : C Unit (World.note (.aborting text)) :=
    hg.onHost (hD.remark (e := .aborting text) trivial rfl)
  exact hg.bind hnote fun _ => hg.fault _

/-- A host function that only remarks on its work has every property that its parts have, whatever
it is called on. -/
theorem closed_run {f : HostFunction} (hf : f.onlyRemarks = true) (args : List Value) :
    C (List Value) (Service.run g f args) := by
  have hC : Compositional C := hg.toCompositional
  -- one line for each host function; those that do more than remark are excluded
  unfold Service.run
  split
  case h_1 key => exact closed_one hC (closed_dbRead hg hD key)
  case h_6 source destination => exact closed_one hC (closed_addrHumanize hg hD source destination)
  case h_7 source destination =>
    exact closed_one hC (closed_addrCanonicalize hg hD source destination)
  case h_8 source => exact closed_one hC (closed_addrValidate hg hD source)
  case h_9 digest signature key =>
    exact closed_one hC (closed_secp256k1Verify hg.toReads digest signature key)
  case h_10 digest signature param =>
    exact hC.bind (closed_secp256k1RecoverPubkey hg hD digest signature param) fun _ => hC.pure _
  case h_11 message signature key =>
    exact closed_one hC (closed_ed25519Verify hg.toReads message signature key)
  case h_12 messages signatures keys =>
    exact closed_one hC (closed_ed25519BatchVerify hg hD messages signatures keys)
  case h_14 request => exact closed_one hC (closed_queryChain hg hD request)
  case h_15 message => exact closed_nothing hC (closed_abort hg hD message)
  case h_16 => exact hg.fault _
  all_goals cases hf

end

end Guest

end ContractHost
