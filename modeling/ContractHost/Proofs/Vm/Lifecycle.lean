import ContractHost.Vm.Basic

/-!
# The life of a machine

`Op` is what an embedder can do with a machine, and `run` a run of it; what an embedder only reads
of a machine is no operation, as it leaves the machine alone. A build is the only operation that
changes how far a machine has come or that brings a guest (`build_cases`); all others keep both
(`Keeps`), and those that work on the guest are refused where there is none (`OnGuest`).

So after every run a machine is ready exactly if it holds a guest (`consistent_run`), and it is
without a module exactly if no build of the run had one that compiles
(`phase_run_eq_uninitialized_iff`). `lifecycle` puts together what follows for an embedder.
-/

namespace ContractHost.Vm

open Guest (Module)

/-- The machine that an operation leaves behind, whether it failed or not. -/
def leaves {α : Type} : EStateM.Result VmError Vm α → Vm
  | .ok _ vm => vm
  | .error _ vm => vm

/-! ## Operations -/

/-- What an embedder can do with a machine. A message that has no JSON text is none. -/
inductive Op : Type 1 where
  | build (compiled : Except String Module)
  | call (e : EntryPoint) (env : Env) (info : MessageInfo) (msg : Option Json.Value)
  | allocate (size : Nat)
  | deallocate (ptr : UInt32)
  | allocateBytes (data : Bytes)
  | allocateText (text : String)
  | allocateJson (msg : Option Json.Value)
  | allocateBase64 (text : String)
  | region (ptr : UInt32)
  | write (ptr : UInt32) (data : Bytes)
  | readBytes (ptr : UInt32)
  | readText (ptr : UInt32)
  | readJson {α : Type} (read? : Bytes → Option α) (ptr : UInt32)
  | setRemainingGas (gas : UInt64)
  | clearDebugMessages
  | changeBackend (f : Backend → Backend)

/-- Carries out an operation, whatever it answers. A message has to have a JSON text before anything
else is looked at. -/
def Op.exec : Op → VmM Unit
  | .build compiled => Vm.build compiled
  | .call e env info (some msg) => do let _ ← Vm.call e env info msg
  | .call _ _ _ none => throw (.serialization .json)
  | .allocate size => do let _ ← Vm.allocate size
  | .deallocate ptr => Vm.deallocate ptr
  | .allocateBytes data => do let _ ← Vm.allocateBytes data
  | .allocateText text => do let _ ← Vm.allocateText text
  | .allocateJson (some msg) => do let _ ← Vm.allocateJson msg
  | .allocateJson none => throw (.serialization .json)
  | .allocateBase64 text => do let _ ← Vm.allocateBase64 text
  | .region ptr => do let _ ← Vm.region ptr
  | .write ptr data => do let _ ← Vm.write ptr data
  | .readBytes ptr => do let _ ← Vm.readBytes ptr
  | .readText ptr => do let _ ← Vm.readText ptr
  | .readJson read? ptr => do let _ ← Vm.readJson read? ptr
  | .setRemainingGas gas => Vm.setRemainingGas gas
  | .clearDebugMessages => modify Vm.clearDebugMessages
  | .changeBackend f =>
    modify fun vm => { vm with host := { vm.host with backend := f vm.host.backend } }

/-- An entry point, a memory operation or a refill, whose arguments can be written or read. -/
def Op.NeedsGuest : Op → Prop
  | .build _ | .clearDebugMessages | .changeBackend _ => False
  | .call _ _ _ msg | .allocateJson msg => msg.isSome
  | .allocateBase64 text => ∃ data, Base64.decode (Utf8.encode text.toList) = .ok data
  | _ => True

/-- The machine after an operation. -/
def after (vm : Vm) (op : Op) : Vm := leaves (op.exec.run vm)

/-- The machine after a run. -/
def run (vm : Vm) : List Op → Vm
  | [] => vm
  | op :: ops => run (after vm op) ops

/-! ## Operations that are no builds -/

/-- How far a machine has come, and whether it holds a guest. -/
def standing (vm : Vm) : Phase × Bool := (vm.phase, vm.instance?.isSome)

/-- An operation changes neither how far a machine has come nor whether it holds a guest. -/
def Keeps {α : Type} (x : VmM α) : Prop := ∀ vm : Vm, (leaves (x.run vm)).standing = vm.standing

/-- An operation works on the guest: a machine without one refuses it and stays as it is. -/
structure OnGuest {α : Type} (x : VmM α) : Prop where
  keeps : Keeps x
  refused : ∀ vm : Vm, vm.instance? = none → x.run vm = .error .notReady vm

section
variable {α β : Type} {x : VmM α} {f : α → VmM β}

theorem keeps_pure (a : α) : Keeps (pure a : VmM α) := fun _ => rfl

theorem keeps_throw (e : VmError) : Keeps (throw e : VmM α) := fun _ => rfl

/-- A sequence of operations ends as its last operation does, or where the first one failed. -/
theorem leaves_bind (vm : Vm) :
    (∃ a, leaves ((x >>= f).run vm) = leaves ((f a).run (leaves (x.run vm)))) ∨
      leaves ((x >>= f).run vm) = leaves (x.run vm) := by
  rw [EStateM.run_bind]
  cases x.run vm with
  | ok a vm' => exact .inl ⟨a, rfl⟩
  | error e vm' => exact .inr rfl

/-- A sequence keeps how far a machine has come if its parts do. -/
theorem Keeps.bind (hx : Keeps x) (hf : ∀ a, Keeps (f a)) : Keeps (x >>= f) := by
  intro vm
  obtain ⟨a, h⟩ | h := leaves_bind (x := x) (f := f) vm
  · rw [h, hf a, hx]
  · rw [h, hx]

/-- What begins with work on the guest is refused where there is none. -/
theorem OnGuest.bind (hx : OnGuest x) (hf : ∀ a, Keeps (f a)) : OnGuest (x >>= f) := by
  refine ⟨hx.keeps.bind hf, fun vm hvm => ?_⟩
  rw [EStateM.run_bind, hx.refused vm hvm]

/-- The answer of an operation may be forgotten. -/
theorem OnGuest.forget (hx : OnGuest x) : OnGuest (x >>= fun _ => pure ()) :=
  hx.bind fun _ => keeps_pure ()

/-- All work on the guest is refused where there is none, and leaves the guest where it is. -/
theorem onGuest_onReady (y : Guest.Linked → Entry.EmbedM α) : OnGuest (onReady y) := by
  constructor
  · intro vm
    simp only [EStateM.run, onReady]
    split
    · rename_i i hvm
      -- the guest is another one afterwards, but there still is one
      split <;> simp only [leaves, standing, hvm, Option.isSome_some]
    · rfl
  · intro vm hvm
    simp only [EStateM.run, onReady, hvm]

end

theorem onGuest_allocateBytes (data : Bytes) : OnGuest (allocateBytes data) := onGuest_onReady _

theorem onGuest_readBytes (ptr : UInt32) : OnGuest (readBytes ptr) := onGuest_onReady _

/-- A text is read before it is looked at. -/
theorem onGuest_readText (ptr : UInt32) : OnGuest (readText ptr) := by
  refine (onGuest_readBytes ptr).bind fun bytes => ?_
  cases Utf8.decode bytes with
  | ok cs => exact keeps_pure _
  | error e => exact keeps_throw _

theorem onGuest_readJson {α : Type} (read? : Bytes → Option α) (ptr : UInt32) :
    OnGuest (readJson read? ptr) := by
  refine (onGuest_readBytes ptr).bind fun bytes => ?_
  cases read? bytes with
  | some a => exact keeps_pure _
  | none => exact keeps_throw _

/-- A base64 text that can be read is copied like other bytes, and one that cannot be read is
refused before. -/
theorem allocateBase64_eq (text : String) :
    allocateBase64 text = match Base64.decode (Utf8.encode text.toList) with
      | .ok data => allocateBytes data
      | .error e => throw (.serialization (.base64 e)) := rfl

/-- All that needs a guest is refused without one. -/
theorem onGuest_exec {op : Op} (hop : op.NeedsGuest) : OnGuest op.exec := by
  cases op with
  | build | clearDebugMessages | changeBackend => exact hop.elim
  | call e env info msg =>
    cases msg with
    | none => cases hop
    | some msg => exact ((onGuest_onReady _).bind fun _ => keeps_pure _).forget
  | allocateJson msg =>
    cases msg with
    | none => cases hop
    | some msg => exact (onGuest_allocateBytes msg.bytes).forget
  -- a text is decoded before the guest is looked for, so only a good one needs a guest
  | allocateBase64 text =>
    obtain ⟨data, hdata⟩ := hop
    rw [Op.exec, allocateBase64_eq, hdata]
    exact (onGuest_allocateBytes data).forget
  | readText ptr => exact (onGuest_readText ptr).forget
  | readJson read? ptr => exact (onGuest_readJson read? ptr).forget
  | allocateText text => exact (onGuest_allocateBytes (Utf8.encode text.toList)).forget
  | deallocate | setRemainingGas =>
    rw [Op.exec]
    exact onGuest_onReady _
  | allocate | allocateBytes | region | write | readBytes => exact (onGuest_onReady _).forget

/-- All operations but a build keep how far a machine has come and whether it holds a guest. -/
theorem keeps_exec {op : Op} (hop : ∀ compiled, op ≠ .build compiled) : Keeps op.exec := by
  -- what is left is an operation that does not come to the guest, as its argument is refused
  by_cases hguest : op.NeedsGuest
  · exact (onGuest_exec hguest).keeps
  cases op with
  | build compiled => exact absurd rfl (hop compiled)
  | clearDebugMessages | changeBackend => exact fun _ => rfl
  | call e env info msg =>
    cases msg with
    | none => exact keeps_throw _
    | some msg => exact absurd rfl hguest
  | allocateJson msg =>
    cases msg with
    | none => exact keeps_throw _
    | some msg => exact absurd rfl hguest
  | allocateBase64 text =>
    cases hread : Base64.decode (Utf8.encode text.toList) with
    | ok data => exact absurd ⟨data, hread⟩ hguest
    | error e =>
      rw [Op.exec, allocateBase64_eq, hread]
      exact (keeps_throw _).bind fun _ => keeps_pure ()
  | _ => exact absurd trivial hguest

/-! ## Builds -/

/-- An operation of the host has no part in how far the machine has come. -/
theorem keeps_onHost {α : Type} (x : EStateM VmError Host α) : Keeps (onHost x) := by
  intro vm
  simp only [EStateM.run, onHost]
  split
  · rfl
  · rfl

/-- An operation makes a machine ready with a guest, or it keeps both as they were. -/
def Readies {α : Type} (x : VmM α) : Prop :=
  ∀ vm : Vm, (leaves (x.run vm)).standing = (.ready, true) ∨
    (leaves (x.run vm)).standing = vm.standing

/-- What comes before a build may keep what it likes. -/
theorem Keeps.bind_readies {α β : Type} {x : VmM α} {f : α → VmM β} (hx : Keeps x)
    (hf : ∀ a, Readies (f a)) : Readies (x >>= f) := by
  intro vm
  obtain ⟨a, h⟩ | h := leaves_bind (x := x) (f := f) vm
  · rw [h, ← hx vm]
    exact hf a _
  · exact .inr (by rw [h, hx])

/-- A module is found unfit, and the machine stays built, or it is ready. -/
theorem readies_makeReady (m : Module) : Readies (makeReady m) := by
  unfold makeReady
  cases m.missingExport? with
  | some name => exact fun _ => .inr rfl
  | none =>
    have hget : Keeps (get : VmM Vm) := fun _ => rfl
    refine hget.bind_readies fun vm => (keeps_onHost _).bind_readies fun i =>
      (keeps_onHost _).bind_readies fun _ => ?_
    exact fun _ => .inl rfl

/-- What a build does to a machine. -/
theorem run_build (compiled : Except String Module) (vm : Vm) : (build compiled).run vm =
    if vm.phase = .uninitialized then
      match compiled with
      | .error text => .error (.compile text) vm
      | .ok m => (makeReady m).run { vm with phase := .built }
    else .error .alreadyBuilt vm := by
  by_cases hphase : vm.phase = .uninitialized
  · rw [if_pos hphase]
    simp only [build, ne_eq, ite_not, EStateM.run_bind, EStateM.run_get, hphase, ↓reduceIte]
    cases compiled with
    | error text => rfl
    | ok m => rfl
  · simp [build, hphase]

/-- A build is refused if there was one of a module that compiled, and fails if its own module does
not compile; both leave the machine as it is. Otherwise the machine is built, and made ready if
nothing is found against the module. -/
theorem build_cases (compiled : Except String Module) (vm : Vm) :
    (vm.phase ≠ .uninitialized ∧ (build compiled).run vm = .error .alreadyBuilt vm) ∨
    (vm.phase = .uninitialized ∧ ∃ text, compiled = .error text ∧
      (build compiled).run vm = .error (.compile text) vm) ∨
    (vm.phase = .uninitialized ∧ ∃ m, compiled = .ok m ∧
      (build compiled).run vm = (makeReady m).run { vm with phase := .built }) := by
  rw [run_build]
  by_cases hphase : vm.phase = .uninitialized
  · rw [if_pos hphase]
    cases compiled with
    | error text => exact .inr (.inl ⟨hphase, text, rfl, rfl⟩)
    | ok m => exact .inr (.inr ⟨hphase, m, rfl, rfl⟩)
  · exact .inl ⟨hphase, if_neg hphase⟩

/-! ## Runs -/

/-- A machine is ready exactly if it holds a guest. -/
def Consistent (vm : Vm) : Prop := vm.phase = .ready ↔ vm.instance?.isSome

/-- Does an operation build a module that compiles? -/
def Op.Builds (op : Op) : Prop := ∃ m, op = .build (.ok m)

/-- What an operation can do: it keeps how far the machine has come and whether it holds a guest, or
it is the first build of a module that compiles. -/
theorem after_cases (op : Op) (vm : Vm) :
    ((after vm op).standing = vm.standing ∧ (vm.phase = .uninitialized → ¬ op.Builds)) ∨
    (vm.phase = .uninitialized ∧ op.Builds ∧
      ((after vm op).standing = (.ready, true) ∨
        (after vm op).standing = (.built, vm.instance?.isSome))) := by
  by_cases hop : ∀ compiled, op ≠ .build compiled
  · exact .inl ⟨keeps_exec hop vm, fun _ ⟨m, hm⟩ => hop _ hm⟩
  · obtain ⟨compiled, rfl⟩ : ∃ compiled, op = .build compiled := by simpa using hop
    rw [after, Op.exec]
    obtain ⟨hphase, hrun⟩ | ⟨-, text, rfl, hrun⟩ | ⟨huninit, m, rfl, hrun⟩ :=
      build_cases compiled vm
    · rw [hrun]
      exact .inl ⟨rfl, fun huninit => absurd huninit hphase⟩
    · rw [hrun]
      refine .inl ⟨rfl, ?_⟩
      rintro - ⟨m, hm⟩
      cases hm
    · rw [hrun]
      exact .inr ⟨huninit, ⟨m, rfl⟩, readies_makeReady m _⟩

/-- No operation brings a guest without readiness, or readiness without a guest. -/
theorem consistent_after {vm : Vm} (h : vm.Consistent) (op : Op) : (after vm op).Consistent := by
  unfold Consistent at h ⊢
  obtain ⟨hsame, -⟩ | ⟨huninit, -, hready | hbuilt⟩ := after_cases op vm
  · obtain ⟨hphase, hsome⟩ := Prod.mk.inj hsame
    rw [hphase, hsome, h]
  · obtain ⟨hphase, hsome⟩ := Prod.mk.inj hready
    exact iff_of_true hphase hsome
  · obtain ⟨hphase, hsome⟩ := Prod.mk.inj hbuilt
    rw [hphase, hsome, ← h, huninit]
    exact iff_of_false nofun nofun

/-- A machine stays without a module exactly until the first build of one that compiles. -/
theorem phase_after_eq_uninitialized_iff (vm : Vm) (op : Op) :
    (after vm op).phase = .uninitialized ↔ vm.phase = .uninitialized ∧ ¬ op.Builds := by
  obtain ⟨hsame, hop⟩ | ⟨-, hop, hready | hbuilt⟩ := after_cases op vm
  · rw [(Prod.mk.inj hsame).1]
    exact ⟨fun huninit => ⟨huninit, hop huninit⟩, fun h => h.1⟩
  · simp [(Prod.mk.inj hready).1, hop]
  · simp [(Prod.mk.inj hbuilt).1, hop]

theorem consistent_run {vm : Vm} (h : vm.Consistent) (ops : List Op) : (run vm ops).Consistent := by
  induction ops generalizing vm with
  | nil => exact h
  | cons op ops ih => exact ih (consistent_after h op)

/-- A machine stays without a module exactly as long as nothing compiles. -/
theorem phase_run_eq_uninitialized_iff (vm : Vm) (ops : List Op) :
    (run vm ops).phase = .uninitialized ↔
      vm.phase = .uninitialized ∧ ∀ op ∈ ops, ¬ op.Builds := by
  induction ops generalizing vm with
  | nil => simp [run]
  | cons op ops ih =>
    rw [run, ih, phase_after_eq_uninitialized_iff, List.forall_mem_cons, and_assoc]

theorem consistent_new (config : Config) (backend : Backend) : (new config backend).Consistent := by
  simp [Consistent, new]

/-- After any run from a new machine: it is ready exactly if it holds a guest, and exactly if it
tells what gas remains. The next operation changes how far it has come only if it is without a
module, which it is exactly if no build of the run had a module that compiles. Then a build whose
module does not compile leaves it as it is, and after a build whose module compiled every other one
is refused and leaves it as it is. While it is not ready, whatever needs a guest is refused and
leaves it as it is. -/
theorem lifecycle (config : Config) (backend : Backend) (ops : List Op) :
    let vm := run (new config backend) ops
    (vm.phase = .ready ↔ vm.instance?.isSome) ∧
    (vm.phase = .ready ↔ vm.remainingGas.isSome) ∧
    (∀ op, (after vm op).phase ≠ vm.phase →
      vm.phase = .uninitialized ∧ ((after vm op).phase = .built ∨ (after vm op).phase = .ready)) ∧
    (vm.phase = .uninitialized ↔ ∀ op ∈ ops, ¬ op.Builds) ∧
    (vm.phase = .uninitialized → ∀ text,
      (build (.error text)).run vm = .error (.compile text) vm) ∧
    ((∃ op ∈ ops, op.Builds) → ∀ compiled, (build compiled).run vm = .error .alreadyBuilt vm) ∧
    (vm.phase ≠ .ready → ∀ op : Op, op.NeedsGuest → op.exec.run vm = .error .notReady vm) := by
  intro vm
  have hconsistent : vm.Consistent := consistent_run (consistent_new config backend) ops
  have hphase : vm.phase = .uninitialized ↔ ∀ op ∈ ops, ¬ op.Builds :=
    (phase_run_eq_uninitialized_iff _ ops).trans (and_iff_right rfl)
  refine ⟨hconsistent, ?_, fun op hop => ?_, hphase, fun huninit text => ?_,
    fun ⟨op, hmem, hbuilds⟩ compiled => ?_, fun hready op hop => ?_⟩
  · rw [remainingGas, Option.isSome_map]
    exact hconsistent
  · obtain ⟨hsame, -⟩ | ⟨huninit, -, hready | hbuilt⟩ := after_cases op vm
    · exact absurd (Prod.mk.inj hsame).1 hop
    · exact ⟨huninit, .inr (Prod.mk.inj hready).1⟩
    · exact ⟨huninit, .inl (Prod.mk.inj hbuilt).1⟩
  -- of the three ways that a build goes, compiling failed
  · obtain ⟨hne, -⟩ | ⟨-, text', heq, hrun⟩ | ⟨-, m, heq, -⟩ := build_cases (.error text) vm
    · exact absurd huninit hne
    · cases heq
      exact hrun
    · cases heq
  -- a module that compiled took the machine out of its first phase for good
  · have hne : vm.phase ≠ .uninitialized := fun huninit => hphase.mp huninit op hmem hbuilds
    obtain ⟨-, hrun⟩ | ⟨huninit, -⟩ | ⟨huninit, -⟩ := build_cases compiled vm
    · exact hrun
    · exact absurd huninit hne
    · exact absurd huninit hne
  · have hnone : vm.instance? = none :=
      Option.not_isSome_iff_eq_none.mp fun hsome => hready (hconsistent.mpr hsome)
    exact (onGuest_exec hop).refused vm hnone

/-- A module that exports no more than it has to. -/
def leastModule : Module where
  memory := some { pages := 1, addressable := Guest.addressable_one }
  exports := [(Module.memoryName, .memory), (Module.allocateName, .function 0),
    (Module.deallocateName, .function 0)]

/-- After a build that did not compile, one machine is made ready, and another one is built only. -/
theorem lifecycle_after_failed_build :
    (run (new {} {}) [.build (.error "not a module"), .build (.ok leastModule)]).phase = .ready ∧
    (run (new {} {}) [.build (.error "not a module"),
      .build (.ok leastModule)]).remainingGas.isSome ∧
    (run (new {} {}) [.build (.error "not a module"), .build (.ok {})]).phase = .built ∧
    (build (.ok leastModule)).run
        (run (new {} {}) [.build (.error "not a module"), .build (.ok {})]) =
      .error .alreadyBuilt
        (run (new {} {}) [.build (.error "not a module"), .build (.ok {})]) ∧
    (Op.allocate 8).exec.run
        (run (new {} {}) [.build (.error "not a module"), .build (.ok {})]) =
      .error .notReady
        (run (new {} {}) [.build (.error "not a module"), .build (.ok {})]) := by
  have hready : (run (new {} {}) [.build (.error "not a module"),
      .build (.ok leastModule)]).phase = .ready := rfl
  have hbuilt : (run (new {} {}) [.build (.error "not a module"), .build (.ok {})]).phase =
      .built := rfl
  have hbuilds : ∃ op ∈ [Op.build (.error "not a module"), .build (.ok {})], op.Builds :=
    ⟨_, List.mem_cons_of_mem _ List.mem_cons_self, {}, rfl⟩
  obtain ⟨-, hgas, -⟩ :=
    lifecycle {} {} [.build (.error "not a module"), .build (.ok leastModule)]
  obtain ⟨-, -, -, -, -, hagain, hrefused⟩ :=
    lifecycle {} {} [.build (.error "not a module"), .build (.ok {})]
  exact ⟨hready, hgas.mp hready, hbuilt, hagain hbuilds _,
    hrefused (by rw [hbuilt]; decide) (.allocate 8) trivial⟩

end ContractHost.Vm
