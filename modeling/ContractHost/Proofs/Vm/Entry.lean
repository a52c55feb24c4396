import ContractHost.Proofs.Guest.Services
import ContractHost.Vm.Entry

/-!
# Frames of an entry-point call

An entry-point call places its arguments, which is the host's work on the guest, and then has the
guest run; both tell their failures as exhausted gas if no points are left. So the call has any
property that a sequence has if its parts do, once placing, running and the remark between them have
it (`closed_call`). A relation that all runs keep is such a property (`moves_call`).
-/

namespace ContractHost

open Guest (Linked Runs RunsTo Side Conforms GuestConforms HostConforms)

variable {R : World → World → Prop} {l : Linked} {attached : Bool}

/-- What every run keeps, a computation keeps that only does what runs do. -/
theorem Guest.Conforms.moves {ε α : Type} {s : Side} {trap : ε → Guest.Trap}
    {x : EStateM ε World α} (hx : Conforms l attached s trap x)
    (hR : ∀ {w o u}, Runs l attached s w o u → R w u) : Moves R x :=
  Moves.iff_obeys.mpr (Obeys.mono hx hR)

namespace Entry

/-- The host's work succeeds for the embedder exactly if it does. -/
theorem run_serve_eq_ok {α : Type} {x : ServiceM α} {w u : World} {a : α} :
    (serve x).run w = .ok a u ↔ x.run w = .ok a u := by
  constructor
  · exact run_adaptExcept_eq_ok
  · intro h
    have h : x w = .ok a u := h
    simp only [EStateM.run, serve, EStateM.adaptExcept, h]

/-- A law of failures that are told as they are, unless no points are left. -/
theorem obeys_orExhausted {P Q : World → Option VmError → World → Prop} {α : Type} {x : EmbedM α}
    (hx : Obeys Q x) (hok : ∀ {w u}, Q w none u → P w none u)
    (herror : ∀ {w e u}, Q w (some e) u →
      P w (some (if u.guest.meter.remaining = 0 then .gasExhausted else e)) u) :
    Obeys P (orExhausted x) := by
  intro w
  simp only [EStateM.run, orExhausted]
  cases hrun : x w with
  | ok a u => exact hok (hx.of_ok hrun)
  | error e u => exact herror (hx.of_error hrun)

/-- An entry-point call does nothing but placing its arguments, noting the call, and running the
function. -/
theorem closed_call {C : (α : Type) → EmbedM α → Prop} (hC : Compositional C) {name : String}
    (hplace : ∀ arg, C UInt32 (place l arg))
    (hcalling : ∀ pointers, C Unit (World.note (.calling name pointers)))
    (hrun : ∀ f, l.module.exportedFunction? name = some f → ∀ pointers,
      C _ (orExhausted (EStateM.adaptExcept VmError.ofTrap (runOn l f pointers))))
    (hmissing : C UInt32 (throw (.missingExport name)))
    (hresult : ∀ t, C UInt32 (throw (.ofTrap t))) (args : List Bytes) :
    C UInt32 (call l name args) := by
  refine hC.bind (hC.mapM hplace args) fun pointers => ?_
  refine hC.bind (hcalling pointers) fun _ => ?_
  split
  · exact hmissing
  · rename_i f hf
    refine hC.bind (hrun f hf pointers) fun results => ?_
    unfold result
    split
    · exact hC.pure _
    · exact hresult _

/-- Telling a failure as exhausted gas undoes nothing. -/
theorem moves_orExhausted {α : Type} {x : EmbedM α} (hx : Moves R x) :
    Moves R (orExhausted x) :=
  Moves.iff_obeys.mpr (obeys_orExhausted (Moves.iff_obeys.mp hx) id id)

/-- What runs keep is kept by the host's work on a guest. -/
theorem moves_serve {α : Type} {x : ServiceM α} (hx : HostConforms l true x)
    (hR : ∀ {w o u}, Runs l true .host w o u → R w u) : Moves R (serve x) :=
  (Guest.Conforms.moves hx hR).adaptExcept _

/-- Placing an argument is the host's work on the guest. -/
theorem conforms_placing (arg : Bytes) :
    HostConforms l true (do return (← l.access.newBytes arg).ptr) :=
  (Guest.obeys_newBytes (Guest.lawfulAccess l) arg).bind fun _ => Obeys.pure _

/-- What runs keep is kept by placing an argument. -/
theorem moves_place (hR : ∀ {w o u}, Runs l true .host w o u → R w u) (arg : Bytes) :
    Moves R (place l arg) := moves_orExhausted (moves_serve (conforms_placing arg) hR)

/-- The function of an entry point is run like any other, or refused with a trap. -/
theorem closed_runOn {C : (α : Type) → Guest.RunM α → Prop} (hC : Guest.GuestClosed C) {f : Nat}
    (hf : ∀ args, C _ (Guest.run l true f args)) (pointers : List UInt32) :
    C _ (runOn l f pointers) := by
  unfold runOn
  dsimp only
  split
  · exact Guest.closed_stuck hC
  · split
    · exact hf _
    · exact hC.trap id

/-- The function of an entry point conforms, as all functions do. -/
theorem conforms_runOn (f : Nat) (pointers : List UInt32) :
    GuestConforms l true (runOn l f pointers) :=
    closed_runOn Guest.guestClosed_obeys (Guest.conforms_run f) pointers

variable [IsPreorder World R]

/-- What runs keep, and noting the call, the call of an entry point keeps, however it ends. -/
theorem moves_call (hR : ∀ {s w o u}, Runs l true s w o u → R w u) {name : String}
    (hcalling : ∀ w pointers, R w (w.noting (.calling name pointers))) (args : List Bytes) :
    Moves R (call l name args) := by
  have hrun (f : Nat) (pointers : List UInt32) :
      Moves R (orExhausted (EStateM.adaptExcept VmError.ofTrap (runOn l f pointers))) :=
    moves_orExhausted ((Guest.Conforms.moves (conforms_runOn f pointers) hR).adaptExcept _)
  refine closed_call Moves.compositional (moves_place hR) ?_ ?_ ?_ ?_ args
  · exact fun pointers w => hcalling w pointers
  · exact fun f _ => hrun f
  · exact Moves.throw _
  · exact fun t => Moves.throw _

end Entry

/-! ## A guest that aborts -/

namespace Vm

open Guest (Module Region)

/-- A guest whose queries give a key a value and then abort. Its allocator hands out one region over
and over. -/
def abortingModule : Module where
  imports := [HostFunction.dbWrite, .abort].map fun f =>
    ⟨HostFunction.moduleName, f.name, f.signature⟩
  functions := [
    ⟨Module.allocateSignature, [], .op (.i32Const 64) .done⟩,
    ⟨Module.deallocateSignature, [], .done⟩,
    ⟨⟨[.i32, .i32], [.i32]⟩, [], .op (.i32Const 16) (.op (.i32Const 32) (.call 0
      (.op (.i32Const 32) (.call 1 (.op .unreachable .done)))))⟩]
  memory := some { pages := 1, addressable := Guest.addressable_one }
  exports := [(Module.memoryName, .memory), (Module.allocateName, .function 2),
    (Module.deallocateName, .function 3), (EntryPoint.query.name, .function 4)]
  data := [
    (16, Region.descriptor { ptr := 16, offset := 48, capacity := 1, length := 1 }),
    (32, Region.descriptor { ptr := 32, offset := 48, capacity := 2, length := 2 }),
    (48, [0x61, 0x62]),
    (64, Region.descriptor { ptr := 64, offset := 80, capacity := 1024 })]

/-- The block and the contract of a call, with nothing in them. -/
def blankEnv : Env where
  block := { height := 0, time := ⟨0⟩, chainId := "" }
  contract := { address := "" }

/-- A sender without a name who sends nothing. -/
def blankInfo : MessageInfo := { sender := "", funds := [] }

end Vm

end ContractHost
