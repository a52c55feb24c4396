import ContractHost.Proofs.Vm.Entry
import ContractHost.Proofs.Vm.Lifecycle

/-!
# Operations on a guest that is ready

What an embedder does with a guest is an entry-point call, or the host's work on the guest's memory
and allocator. A machine that holds a guest passes it on and takes back what became of host and
guest (`run_onReady`). The operations are gone through once for all that can be said of such work
(`closed_perform`). So what all runs of a guest keep, all these operations keep (`moves_exec`): a
new invariant of runs has to be looked at again for builds and refills only, and for what is done to
the host from outside.

`Op.perform` carries out an operation for what it answers, which `Op.exec` forgets.
-/

namespace ContractHost.Vm

open Guest (Linked Region Runs RunsTo Side Trap Reads Handles closed_region closed_optionalRegion
  closed_read closed_write closed_newRegion closed_newBytes closed_free)

/-- The error that an operation answers, if it fails. -/
def fault? {α : Type} : EStateM.Result VmError Vm α → Option VmError
  | .ok _ _ => none
  | .error e _ => some e

theorem eq_error_of_fault? {α : Type} {r : EStateM.Result VmError Vm α} {e : VmError}
    (h : fault? r = some e) : r = .error e (leaves r) := by
  cases r with
  | ok a vm => cases h
  | error e' vm =>
    cases h
    rfl

/-- The machine with another world in the place of its host and its guest. -/
def withWorld (vm : Vm) (i : Instance) (w : World) : Vm :=
  { vm with host := w.host, instance? := some { i with guest := w.guest } }

variable {vm : Vm} {i : Instance}

/-- What works on the guest is passed the host and the guest, and the machine takes both back, also
after a failure. -/
theorem run_onReady {α : Type} (hi : vm.instance? = some i) (x : Linked → Entry.EmbedM α) :
    (onReady x).run vm = match (x i.linked).run ⟨vm.host, i.guest⟩ with
      | .ok a w => .ok a (vm.withWorld i w)
      | .error e w => .error e (vm.withWorld i w) := by
  simp only [EStateM.run, onReady, hi]
  cases x i.linked ⟨vm.host, i.guest⟩ with
  | ok a w => rfl
  | error e w => rfl

/-- What works on the guest succeeds exactly if there is one and the work on it succeeds. -/
theorem run_onReady_eq_ok {α : Type} {x : Linked → Entry.EmbedM α} {vm' : Vm} {a : α} :
    (onReady x).run vm = .ok a vm' ↔
      ∃ i u, vm.instance? = some i ∧ (x i.linked).run ⟨vm.host, i.guest⟩ = .ok a u ∧
        vm.withWorld i u = vm' := by
  constructor
  · intro h
    cases hi : vm.instance? with
    | none =>
      rw [(onGuest_onReady x).refused vm hi] at h
      cases h
    | some i =>
      rw [run_onReady hi] at h
      cases hrun : (x i.linked).run ⟨vm.host, i.guest⟩ with
      | ok b u =>
        rw [hrun] at h
        cases h
        exact ⟨i, u, rfl, hrun, rfl⟩
      | error e u =>
        rw [hrun] at h
        cases h
  · rintro ⟨i, u, hi, hrun, rfl⟩
    rw [run_onReady hi, hrun]

/-- On a machine that holds a guest an entry-point call does what the call on the guest does. -/
theorem run_call (hi : vm.instance? = some i) (e : EntryPoint) (env : Env) (info : MessageInfo)
    (msg : Json.Value) :
    (call e env info msg).run vm =
      match (Entry.call i.linked e.name (e.arguments env info msg)).run ⟨vm.host, i.guest⟩ with
      | .ok ptr w => .ok { ptr } (vm.withWorld i w)
      | .error err w => .error err (vm.withWorld i w) := by
  rw [call, EStateM.run_bind, run_onReady hi]
  cases (Entry.call i.linked e.name (e.arguments env info msg)).run ⟨vm.host, i.guest⟩ with
  | ok ptr w => rfl
  | error err w => rfl

/-- A machine holds no other world than the one that was put into it. -/
theorem withWorld_injective {u w : World} (h : vm.withWorld i u = vm.withWorld i w) : u = w := by
  have hhost : u.host = w.host := congrArg Vm.host h
  have hinstance : (vm.withWorld i u).instance? = (vm.withWorld i w).instance? :=
    congrArg Vm.instance? h
  have hguest : u.guest = w.guest := congrArg Instance.guest (Option.some.inj hinstance)
  cases u
  cases w
  cases hhost
  cases hguest
  rfl

/-- An entry-point call fails on the machine exactly if it does on the guest, and leaves what it
leaves there. -/
theorem run_call_eq_error (hi : vm.instance? = some i) {e : EntryPoint} {env : Env}
    {info : MessageInfo} {msg : Json.Value} {err : VmError} {u : World} :
    (call e env info msg).run vm = .error err (vm.withWorld i u) ↔
      (Entry.call i.linked e.name (e.arguments env info msg)).run ⟨vm.host, i.guest⟩ =
        .error err u := by
  rw [run_call hi]
  cases (Entry.call i.linked e.name (e.arguments env info msg)).run ⟨vm.host, i.guest⟩ with
  | ok ptr w => exact iff_of_false nofun nofun
  | error err' w =>
    constructor
    · intro h
      obtain ⟨rfl, hw⟩ := EStateM.Result.error.inj h
      rw [withWorld_injective hw]
    · intro h
      cases h
      rfl

/-- What the call on the guest obeys, the call on the machine does. -/
theorem world_of_obeys_call {P : World → Option VmError → World → Prop}
    (hi : vm.instance? = some i) {e : EntryPoint} {env : Env} {info : MessageInfo}
    {msg : Json.Value} (hcall : Obeys P (Entry.call i.linked e.name (e.arguments env info msg))) :
    ∃ u, leaves ((call e env info msg).run vm) = vm.withWorld i u ∧
      P ⟨vm.host, i.guest⟩ (fault? ((call e env info msg).run vm)) u := by
  rw [run_call hi]
  cases hrun : (Entry.call i.linked e.name (e.arguments env info msg)).run ⟨vm.host, i.guest⟩ with
  | ok ptr u => exact ⟨u, rfl, hcall.of_ok hrun⟩
  | error err u => exact ⟨u, rfl, hcall.of_error hrun⟩

/-- A call leaves as an operation what it leaves as a call. -/
theorem after_call (e : EntryPoint) (env : Env) (info : MessageInfo) (msg : Json.Value) :
    after vm (.call e env info (some msg)) = leaves ((call e env info msg).run vm) := by
  rw [after, Op.exec, EStateM.run_bind]
  cases (call e env info msg).run vm with
  | ok r vm' => rfl
  | error err vm' => rfl

/-- An operation leaves a machine that is ready so. -/
theorem phase_run_of_ready (hvm : vm.Consistent) (hphase : vm.phase = .ready) (ops : List Op) :
    (run vm ops).phase = .ready := by
  induction ops generalizing vm with
  | nil => exact hphase
  | cons op ops ih =>
    refine ih (consistent_after hvm op) ?_
    obtain ⟨hsame, -⟩ | ⟨huninit, -⟩ := after_cases op vm
    · rw [(Prod.mk.inj hsame).1, hphase]
    · rw [hphase] at huninit
      cases huninit

/-! ## Answers -/

/-- What an operation answers if it succeeds. -/
def Op.Answer : Op → Type
  | .call _ _ _ _ | .allocate _ | .allocateBytes _ | .allocateText _ | .allocateJson _
  | .allocateBase64 _ | .region _ | .write _ _ => Region
  | .readBytes _ => Bytes
  | .readText _ => String
  | @Op.readJson α _ _ => α
  | _ => Unit

/-- Carries out an operation for what it answers, which `Op.exec` forgets. -/
def Op.perform : (op : Op) → VmM op.Answer
  | .build compiled => Vm.build compiled
  | .call e env info (some msg) => Vm.call e env info msg
  | .call _ _ _ none => throw (.serialization .json)
  | .allocate size => Vm.allocate size
  | .deallocate ptr => Vm.deallocate ptr
  | .allocateBytes data => Vm.allocateBytes data
  | .allocateText text => Vm.allocateText text
  | .allocateJson (some msg) => Vm.allocateJson msg
  | .allocateJson none => throw (.serialization .json)
  | .allocateBase64 text => Vm.allocateBase64 text
  | .region ptr => Vm.region ptr
  | .write ptr data => Vm.write ptr data
  | .readBytes ptr => Vm.readBytes ptr
  | .readText ptr => Vm.readText ptr
  | .readJson read? ptr => Vm.readJson read? ptr
  | .setRemainingGas gas => Vm.setRemainingGas gas
  | .clearDebugMessages => modify Vm.clearDebugMessages
  | .changeBackend f =>
    modify fun vm => { vm with host := { vm.host with backend := f vm.host.backend } }

/-- An operation without its answer. -/
theorem exec_eq_perform (op : Op) : op.exec = op.perform >>= fun _ => pure () := by
  cases op with
  | build | deallocate | setRemainingGas | clearDebugMessages | changeBackend =>
    exact bind_pure_unit.symm
  | call e env info msg | allocateJson msg =>
    cases msg with
    | none => rfl
    | some msg => rfl
  | _ => rfl

/-- What an operation answers is no matter to what it leaves. -/
theorem after_eq_leaves_perform (vm : Vm) (op : Op) : after vm op = leaves (op.perform.run vm) := by
  rw [after, exec_eq_perform, EStateM.run_bind]
  cases op.perform.run vm with
  | ok a vm' => rfl
  | error e vm' => rfl

/-- An operation that has host and guest work together, and does nothing to them from outside. -/
def Op.Works : Op → Prop
  | .build _ | .setRemainingGas _ | .clearDebugMessages | .changeBackend _ => False
  | _ => True

/-- A property of what a machine does that its guest's entry-point calls have, and that the host's
work on the guest has if that work has a property of its own. -/
structure Working (C : (α : Type) → VmM α → Prop)
    (S : Linked → (α : Type) → ServiceM α → Prop) : Prop extends Compositional C where
  fault {α : Type} (e : VmError) : C α (throw e)
  call (e : EntryPoint) (args : List Bytes) : C UInt32 (onReady fun l => Entry.call l e.name args)
  serve {α : Type} {x : Linked → ServiceM α} (hx : ∀ l, S l α (x l)) :
    C α (onReady fun l => Entry.serve (x l))
  handles (l : Linked) : Handles (S l) l.access
  deallocate (l : Linked) (ptr : UInt32) : S l Unit (l.access.deallocate ptr)

section
variable {C : (α : Type) → VmM α → Prop} {S : Linked → (α : Type) → ServiceM α → Prop}
  (hC : Working C S)
include hC

/-- Bytes, texts and values are all handed out as bytes. -/
theorem closed_allocateBytes (data : Bytes) : C Region (allocateBytes data) :=
  hC.serve fun l => closed_newBytes (hC.handles l) data

/-- Nothing is read behind zero, and there the guest is not asked. -/
theorem closed_readBytes (ptr : UInt32) : C Bytes (readBytes ptr) := by
  refine hC.serve fun l => ?_
  have hreads : Reads (S l) l.access := (hC.handles l).toReads
  refine hreads.bind (closed_optionalRegion hreads ptr) fun r => ?_
  cases r with
  | some r => exact closed_read hreads r
  | none => exact hreads.pure _

/-- Every operation that has host and guest work has such a property. One whose arguments cannot be
written or read does no more than fail. -/
theorem closed_perform {op : Op} (hop : op.Works) : C op.Answer op.perform := by
  cases op with
  | build | setRemainingGas | clearDebugMessages | changeBackend => exact hop.elim
  | call e env info msg =>
    cases msg with
    | none => exact hC.fault _
    | some msg => exact hC.bind (hC.call e _) fun _ => hC.pure _
  | allocate size =>
    show C Region (allocate size)
    exact hC.serve fun l => closed_newRegion (hC.handles l) size
  | deallocate ptr =>
    show C Unit (deallocate ptr)
    exact hC.serve fun l => closed_free (hC.handles l).toCompositional (hC.deallocate l) ptr
  | allocateBytes data => exact closed_allocateBytes hC data
  | allocateText text => exact closed_allocateBytes hC _
  | allocateJson msg =>
    cases msg with
    | none => exact hC.fault _
    | some msg => exact closed_allocateBytes hC msg.bytes
  | allocateBase64 text =>
    rw [Op.perform, allocateBase64_eq]
    split
    · exact closed_allocateBytes hC _
    · exact hC.fault _
  | region ptr =>
    show C Region (region ptr)
    refine hC.serve fun l => ?_
    have hreads : Reads (S l) l.access := (hC.handles l).toReads
    exact hreads.bind (closed_optionalRegion hreads ptr) fun _ => hreads.pure _
  | write ptr data =>
    show C Region (write ptr data)
    -- the region is looked up at the time of writing
    refine hC.serve fun l => ?_
    have hhandles : Handles (S l) l.access := hC.handles l
    exact hhandles.bind (closed_region hhandles.toReads ptr) fun r => closed_write hhandles r data
  | readBytes ptr => exact closed_readBytes hC ptr
  | readText ptr =>
    refine hC.bind (closed_readBytes hC ptr) fun bytes => ?_
    split
    · exact hC.pure _
    · exact hC.fault _
  | readJson read? ptr =>
    refine hC.bind (closed_readBytes hC ptr) fun bytes => ?_
    split
    · exact hC.pure _
    · exact hC.fault _

end

/-! ## Frames of operations -/

/-- What host and guest become of one another, the machine becomes that holds them. -/
def Lifts (S : Linked → World → World → Prop) (R : Vm → Vm → Prop) : Prop :=
  ∀ {vm : Vm} {i : Instance} {u : World},
    vm.instance? = some i → S i.linked ⟨vm.host, i.guest⟩ u → R vm (vm.withWorld i u)

section
variable {S : Linked → World → World → Prop} {R : Vm → Vm → Prop} {α : Type}

/-- What an operation keeps is kept in the machine that it leaves, however it ends. -/
theorem leaves_of_moves {x : VmM α} (hx : Moves R x) (vm : Vm) : R vm (leaves (x.run vm)) := by
  cases hrun : x.run vm with
  | ok a vm' => exact hx.of_ok hrun
  | error e vm' => exact hx.of_error hrun

variable [IsPreorder Vm R] (hR : Lifts S R)
include hR

/-- What work on the guest keeps for host and guest, the machine keeps. -/
theorem moves_onReady {x : Linked → Entry.EmbedM α} (hx : ∀ l, Moves (S l) (x l)) :
    Moves R (onReady x) := by
  intro vm
  cases hi : vm.instance? with
  | none =>
    simp only [EStateM.run, onReady, hi]
    exact Std.Refl.refl vm
  | some i =>
    rw [run_onReady hi]
    cases hrun : (x i.linked).run ⟨vm.host, i.guest⟩ with
    | ok a w => exact hR hi ((hx i.linked).of_ok hrun)
    | error e w => exact hR hi ((hx i.linked).of_error hrun)

variable [∀ l, IsPreorder World (S l)]

/-- What all runs keep, and noting a call, is kept by all of a machine's work. -/
theorem working_moves (hS : ∀ {l s w o u}, Runs l true s w o u → S l w u)
    (hcalling : ∀ l w name pointers, S l w (w.noting (.calling name pointers))) :
    Working (Moving R) fun l => Obeying (RunsTo l true .host Trap.host) where
  toCompositional := Moves.compositional
  fault := Moves.throw
  call e args := moves_onReady hR fun l =>
    Entry.moves_call hS (fun w pointers => hcalling l w e.name pointers) args
  serve hx := moves_onReady hR fun l => Entry.moves_serve (hx l) hS
  handles l := (Guest.lawfulAccess l).handles
  deallocate := Guest.conforms_deallocate

end

/-- What all runs keep, and noting a call, every operation keeps that has host and guest work. -/
theorem moves_exec {S : Linked → World → World → Prop} {R : Vm → Vm → Prop}
    [∀ l, IsPreorder World (S l)] [IsPreorder Vm R] (hR : Lifts S R)
    (hS : ∀ {l s w o u}, Runs l true s w o u → S l w u)
    (hcalling : ∀ l w name pointers, S l w (w.noting (.calling name pointers))) {op : Op}
    (hop : op.Works) : Moves R op.exec := by
  rw [exec_eq_perform]
  exact (closed_perform (working_moves hR hS hcalling) hop).bind fun _ => Moves.pure _

/-- What every operation of a run keeps, the run keeps. -/
theorem related_run {R : Vm → Vm → Prop} [IsPreorder Vm R] {ops : List Op}
    (hops : ∀ op ∈ ops, Moves R op.exec) (vm : Vm) : R vm (run vm ops) := by
  induction ops generalizing vm with
  | nil => exact Std.Refl.refl vm
  | cons op ops ih =>
    obtain ⟨hop, hrest⟩ := List.forall_mem_cons.mp hops
    have hafter : R vm (after vm op) := leaves_of_moves hop vm
    exact IsTrans.trans _ _ _ hafter (ih hrest (after vm op))

/-! ## The host's history -/

section
variable {R : Host → Host → Prop}

/-- What an operation of the host does to it, the operation of the machine does. -/
theorem moves_onHost {α : Type} {x : EStateM VmError Host α} (hx : Moves R x) :
    Moves (InvImage R Vm.host) (onHost x) := by
  intro vm
  simp only [EStateM.run, onHost]
  cases hrun : x vm.host with
  | ok a h => exact hx.of_ok hrun
  | error e h => exact hx.of_error hrun

variable [HistoryLaw R]

/-- A start function runs like any other code of a guest. -/
theorem history_start (l : Linked) (guest : Guest.State) : Moves R (start l guest) := by
  unfold start
  split
  · exact Moves.pure _
  · rename_i f _
    intro host
    have hconforms : Guest.GuestConforms l false (Guest.run l false f []) := Guest.conforms_run f []
    have hrun := hconforms { host, guest }
    simp only [EStateM.run, onGuest] at hrun ⊢
    cases hresult : Guest.run l false f [] { host, guest } with
    | ok results w =>
      rw [hresult] at hrun
      exact hrun.history
    | error t w =>
      rw [hresult] at hrun
      exact hrun.history

/-- Of what makes a module ready only its start function does anything to the host. -/
theorem history_instantiate (m : Guest.Module) (gas : UInt64) : Moves R (instantiate m gas) := by
  have hlast (linked : Linked) (guest : Guest.State) : Moves R (do
      if !allocatorFits m then throw .environment
      return { linked, guest } : EStateM InstantiationFault Host Instance) := by
    split
    · exact Moves.throw _
    · exact Moves.pure _
  unfold instantiate
  cases m.link with
  | error e => exact Moves.throw _
  | ok linked =>
    cases startState m gas with
    | none => exact Moves.throw _
    | some guest =>
      exact ((history_start linked guest).adaptExcept _).bind fun guest => hlast linked _

/-- Making a module ready is instantiating it and noting that it was built. -/
theorem history_makeReady (m : Guest.Module) : Moves (InvImage R Vm.host) (makeReady m) := by
  unfold makeReady
  cases m.missingExport? with
  | some name => exact Moves.throw _
  | none =>
    refine Moves.get.bind fun vm => ?_
    refine (moves_onHost ((history_instantiate m _).adaptExcept _)).bind fun i => ?_
    have hnotice (h : Host) : R h (h.noting (.built i.guest.meter.remaining)) :=
      HistoryLaw.notice h trivial
    have hbuilt : Moves (InvImage R Vm.host) (onHost (modify fun h =>
        { h with journal := .built i.guest.meter.remaining :: h.journal })) := moves_onHost hnotice
    refine hbuilt.bind fun _ => ?_
    -- holding the guest and the new phase are no matter to the host
    exact fun vm => Std.Refl.refl vm.host

/-- A build obeys the laws of the host's history, however far it comes. -/
theorem history_build (compiled : Except String Guest.Module) :
    Moves (InvImage R Vm.host) (build compiled) := by
  intro vm
  obtain ⟨-, hrun⟩ | ⟨-, text, -, hrun⟩ | ⟨-, m, -, hrun⟩ := build_cases compiled vm
  · rw [hrun]
    exact Std.Refl.refl vm.host
  · rw [hrun]
    exact Std.Refl.refl vm.host
  · rw [hrun]
    exact history_makeReady m { vm with phase := .built }

/-- An operation that does nothing to the host from outside. -/
def Op.Inside : Op → Prop
  | .clearDebugMessages | .changeBackend _ => False
  | _ => True

/-- Every operation that does nothing to the host from outside obeys all laws of its history. -/
theorem history_exec {op : Op} (hop : op.Inside) : Moves (InvImage R Vm.host) op.exec := by
  have hlifts : Lifts (fun _ => InvImage R World.host) (InvImage R Vm.host) := fun _ h => h
  by_cases hworks : op.Works
  · refine moves_exec (S := fun _ => InvImage R World.host) hlifts Runs.history ?_ hworks
    exact fun _ w name pointers => HistoryLaw.notice w.host trivial
  cases op with
  | build compiled => exact history_build compiled
  | setRemainingGas gas =>
    show Moves (InvImage R Vm.host) (setRemainingGas gas)
    have hrefilled (w : World) : R w.host (w.host.noting (.refilled gas)) :=
      HistoryLaw.notice w.host trivial
    exact moves_onReady (S := fun _ => InvImage R World.host) hlifts fun _ w => hrefilled w
  | clearDebugMessages | changeBackend f => exact hop.elim
  | _ => exact absurd trivial hworks

end

/-! ## A guest that goes on -/

/-- Does an operation give the guest points? -/
def Op.Refills : Op → Prop
  | .setRemainingGas _ => True
  | _ => False

/-- A machine that is ready stays as it is, but for host and guest, which become as `S` says. -/
def GoesOn (S : Linked → World → World → Prop) (vm vm' : Vm) : Prop :=
  ∀ i, vm.phase = .ready → vm.instance? = some i →
    ∃ u, vm' = vm.withWorld i u ∧ S i.linked ⟨vm.host, i.guest⟩ u

section
variable {S : Linked → World → World → Prop}

/-- The guest may be left as it was. -/
theorem withWorld_host (hi : vm.instance? = some i) (host : Host) :
    vm.withWorld i ⟨host, i.guest⟩ = { vm with host } := by
  unfold withWorld
  rw [← hi]

theorem lifts_goesOn : Lifts S (GoesOn S) := by
  intro vm i u hi hu j hphase hj
  cases Option.some.inj (hi.symm.trans hj)
  exact ⟨u, rfl, hu⟩

variable [∀ l, IsPreorder World (S l)]

instance isPreorder_goesOn : IsPreorder Vm (GoesOn S) where
  refl vm i _ hi := ⟨_, (withWorld_host hi vm.host).symm, Std.Refl.refl _⟩
  trans vm vm' vm'' := by
    intro h h' i hphase hi
    obtain ⟨u, rfl, hu⟩ := h i hphase hi
    obtain ⟨v, rfl, hv⟩ := h' { i with guest := u.guest } hphase rfl
    exact ⟨v, rfl, IsTrans.trans _ _ _ hu hv⟩

/-- The second build of a module that compiles is refused. -/
theorem goesOn_build (compiled : Except String Guest.Module) :
    Moves (GoesOn S) (build compiled) := by
  intro vm
  by_cases huninit : vm.phase = .uninitialized
  · -- nothing is said of a machine that is not ready
    have hnot (vm' : Vm) : GoesOn S vm vm' := by
      intro i hphase
      rw [huninit] at hphase
      cases hphase
    cases (build compiled).run vm with
    | ok _ vm' => exact hnot vm'
    | error _ vm' => exact hnot vm'
  · obtain ⟨-, hrun⟩ | ⟨h, -⟩ | ⟨h, -⟩ := build_cases compiled vm
    · rw [hrun]
      exact (isPreorder_goesOn (S := S)).refl vm
    · exact absurd h huninit
    · exact absurd h huninit

/-- What all runs keep, and what is done to the host from outside, every operation keeps but a
refill, once a machine is ready. -/
theorem goesOn_exec (hruns : ∀ {l s w o u}, Runs l true s w o u → S l w u)
    (hcalling : ∀ l w name pointers, S l w (w.noting (.calling name pointers)))
    (hforgot : ∀ l (w : World),
      S l w (World.noting { w with host := { w.host with messages := [] } } .forgot))
    (hbackend : ∀ l (w : World) (backend : Backend),
      S l w { w with host := { w.host with backend } }) {op : Op} (hop : ¬ op.Refills) :
    Moves (GoesOn S) op.exec := by
  by_cases hworks : op.Works
  · exact moves_exec lifts_goesOn hruns hcalling hworks
  cases op with
  | build compiled => exact goesOn_build compiled
  | setRemainingGas gas => exact absurd trivial hop
  | clearDebugMessages =>
    intro vm i hphase hi
    exact ⟨_, (withWorld_host hi _).symm, hforgot _ _⟩
  | changeBackend f =>
    intro vm i hphase hi
    exact ⟨_, (withWorld_host hi _).symm, hbackend _ _ _⟩
  | _ => exact absurd trivial hworks

end

end ContractHost.Vm
