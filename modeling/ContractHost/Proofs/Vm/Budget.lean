import ContractHost.Proofs.Guest.Tolls
import ContractHost.Proofs.Vm.Operations

/-!
# The budget of a guest

A build that succeeds gives the guest the points of the configuration, and a refill gives it a
number of points; either begins a budget. Whatever is done with the machine after that, short of a
refill, takes points out of the budget only by payments that the journal tells (`exists_world_run`).
So the points that were paid and those that are left are the budget (`budget_of_run`).
-/

namespace ContractHost.Vm

open Guest (Linked Meter Module)

variable {vm vm' : Vm} {i : Instance}

/-! ## Payments of operations -/

/-- An event that tells of no check costs nothing. -/
theorem pays_noting (l : Linked) (w : World) {e : Event} (he : ¬ e.TellsCheck) :
    Pays l w (w.noting e) :=
  Unmetered.pays (ε := VmError) (o := none) (.noting he)

/-- Once a machine is ready, an operation takes points out of the guest only by payments that the
journal tells, unless it is a refill. -/
theorem goesOn_pays {op : Op} (hop : ¬ op.Refills) : Moves (GoesOn Pays) op.exec := by
  refine goesOn_exec (fun h => h.metered.pays) ?_ ?_ ?_ hop
  · exact fun l w name pointers => pays_noting l w id
  · exact fun l w =>
      pays_noting l { w with host := { w.host with messages := [] } } (e := .forgot) id
  · exact fun l w backend => Std.Refl.refl (r := Pays l) w

/-- What a run without refills leaves of a machine that is ready. -/
theorem exists_world_run (hphase : vm.phase = .ready) (hi : vm.instance? = some i) {ops : List Op}
    (hops : ∀ op ∈ ops, ¬ op.Refills) :
    ∃ u, run vm ops = vm.withWorld i u ∧ Pays i.linked ⟨vm.host, i.guest⟩ u :=
  related_run (fun op hop => goesOn_pays (hops op hop)) vm i hphase hi

@[simp] theorem remainingGas_withWorld (vm : Vm) (i : Instance) (u : World) :
    (vm.withWorld i u).remainingGas = some u.guest.meter.remaining := rfl

/-- What remains is never more than before. -/
theorem remainingGas_after_le (hphase : vm.phase = .ready) (hi : vm.instance? = some i) {op : Op}
    (hop : ¬ op.Refills) :
    ∃ gas, (after vm op).remainingGas = some gas ∧ gas ≤ i.guest.meter.remaining := by
  obtain ⟨u, hu, es, -, haccounts, -⟩ :=
    exists_world_run hphase hi (List.forall_mem_singleton.mpr hop)
  have hafter : after vm op = vm.withWorld i u := hu
  rw [hafter]
  exact ⟨_, rfl, haccounts.remaining_le⟩

/-! ## Where budgets come from -/

/-- A refill puts a fresh meter in place, also of one that was exhausted. -/
theorem run_setRemainingGas (hi : vm.instance? = some i) (gas : UInt64) :
    (setRemainingGas gas).run vm = .ok () (vm.withWorld i
      (World.noting ⟨vm.host, { i.guest with meter := { points := gas } }⟩ (.refilled gas))) := by
  rw [setRemainingGas, run_onReady hi]
  rfl

/-- Without a guest there is nothing to refill. -/
theorem run_setRemainingGas_of_none (hi : vm.instance? = none) (gas : UInt64) :
    (setRemainingGas gas).run vm = .error .notReady vm := by
  simp only [setRemainingGas, EStateM.run, onReady, hi]

/-- A module is made ready with all the points that it is given. -/
theorem meter_of_instantiate {m : Module} {gas : UInt64} {h h' : Host}
    (hrun : (instantiate m gas).run h = .ok i h') : i.guest.meter = { points := gas } := by
  unfold instantiate at hrun
  cases hlink : m.link with
  | error e =>
    rw [hlink] at hrun
    cases hrun
  | ok linked =>
    cases hstart : startState m gas with
    | none =>
      rw [hlink, hstart] at hrun
      cases hrun
    | some guest =>
      rw [hlink, hstart] at hrun
      obtain ⟨_, h₁, hlinked, hrun⟩ := run_bind_eq_ok hrun
      obtain ⟨_, h₂, hguest, hrun⟩ := run_bind_eq_ok hrun
      -- the start function may spend and run out of points; the meter is set behind it
      obtain ⟨guest', h₃, -, hrun⟩ := run_bind_eq_ok hrun
      split at hrun
      · cases hrun
      · cases hrun
        rfl

theorem run_onHost_eq_ok {α : Type} {x : EStateM VmError Host α} {a : α}
    (h : (onHost x).run vm = .ok a vm') :
    ∃ host, x.run vm.host = .ok a host ∧ vm' = { vm with host } := by
  simp only [EStateM.run, onHost] at h
  cases hrun : x vm.host with
  | error e host =>
    rw [hrun] at h
    cases h
  | ok a host =>
    rw [hrun] at h
    cases h
    exact ⟨host, hrun, rfl⟩

/-- A build that succeeds makes the machine ready with a guest that has the points of the
configuration. -/
theorem ready_of_build {compiled : Except String Module}
    (hrun : (build compiled).run vm = .ok () vm') :
    vm'.phase = .ready ∧ ∃ i, vm'.instance? = some i ∧
      i.guest.meter = { points := vm.config.gasLimit } := by
  obtain ⟨-, h⟩ | ⟨-, text, -, h⟩ | ⟨-, m, -, h⟩ := build_cases compiled vm
  · rw [h] at hrun
    cases hrun
  · rw [h] at hrun
    cases hrun
  · rw [h] at hrun
    unfold makeReady at hrun
    cases hmissing : m.missingExport? with
    | some name =>
      rw [hmissing] at hrun
      cases hrun
    | none =>
      rw [hmissing] at hrun
      -- the module is made ready on the machine as it is, then held, and that is noted
      obtain ⟨vm₁, vm₂, hget, hrun⟩ := run_bind_eq_ok hrun
      cases hget
      obtain ⟨i, vm₃, hheld, hrun⟩ := run_bind_eq_ok hrun
      obtain ⟨host, hinst, rfl⟩ := run_onHost_eq_ok hheld
      obtain ⟨_, vm₄, hnoted, hrun⟩ := run_bind_eq_ok hrun
      obtain ⟨host', -, rfl⟩ := run_onHost_eq_ok hnoted
      cases hrun
      exact ⟨rfl, i, rfl, meter_of_instantiate (run_adaptExcept_eq_ok hinst)⟩

/-! ## The configuration -/

/-- Nothing that happens to a host while guests run changes its configuration. -/
instance historyLaw_config : HistoryLaw (InvImage Eq Host.config) where
  notice _ _ _ := rfl
  effect heffect := by
    cases heffect with
    | wrote | removed | said | none => rfl
  turn hturns := hturns.config.symm

/-- An operation keeps the configuration. -/
theorem keepsConfig_exec (op : Op) : Moves (InvImage Eq Vm.config) op.exec := by
  cases op with
  | clearDebugMessages | changeBackend => exact fun _ => rfl
  | _ => exact history_exec (R := InvImage Eq Host.config) trivial

/-- The configuration that a machine was made with is the one that it has. -/
theorem config_run (vm : Vm) (ops : List Op) : (run vm ops).config = vm.config :=
  (related_run (R := InvImage Eq Vm.config) (fun op _ => keepsConfig_exec op) vm).symm

/-! ## Conservation -/

/-- Does an operation give the guest a budget if it succeeds, and is it this one? -/
def Op.Sets (limit budget : UInt64) : Op → Prop
  | .build _ => budget = limit
  | .setRemainingGas gas => budget = gas
  | _ => False

/-- Does an operation succeed on a machine? -/
def Op.succeeds (op : Op) (vm : Vm) : Bool :=
  match op.exec.run vm with
  | .ok _ _ => true
  | .error _ _ => false

/-- After an operation that set a budget the machine is ready, and its guest has all of it. -/
theorem ready_of_sets {op : Op} {budget : UInt64} (hsets : op.Sets vm.config.gasLimit budget)
    (hvm : vm.Consistent) (hok : op.succeeds vm) :
    (after vm op).phase = .ready ∧ ∃ i, (after vm op).instance? = some i ∧
      i.guest.meter = { points := budget } := by
  unfold Op.succeeds at hok
  unfold after
  cases hrun : op.exec.run vm with
  | error e vm' =>
    rw [hrun] at hok
    cases hok
  | ok _ vm' =>
    cases op with
    | build compiled =>
      rw [hsets]
      exact ready_of_build hrun
    | setRemainingGas gas =>
      have hrefill : (setRemainingGas gas).run vm = .ok () vm' := hrun
      cases hi : vm.instance? with
      | none =>
        rw [run_setRemainingGas_of_none hi] at hrefill
        cases hrefill
      | some i =>
        rw [run_setRemainingGas hi] at hrefill
        cases hrefill
        -- a refill does not change the phase, which holding a guest tells
        have hphase : vm.phase = .ready := hvm.mpr (Option.isSome_of_mem hi)
        rw [hsets]
        exact ⟨hphase, _, rfl, rfl⟩
    | _ => exact hsets.elim

/-- Since an operation of a run set a budget, be it a build or a refill, the points that were paid
and those that are left are the budget, whatever was done with the machine. What was paid at a time,
or could not be paid, is a charge in the code of a function of the guest; where that is code with
its charges, it is the price of a block of the instructions that the code was made of. The guest
could count on all of its budget at first; what it can count on never gets more, but for a refill,
after which it is just what was given. A host function asks for no points of its own. -/
theorem budget_of_run (config : Config) (backend : Backend) {before since : List Op} {op : Op}
    {budget : UInt64} (hsets : op.Sets config.gasLimit budget)
    (hok : op.succeeds (run (new config backend) before))
    (hsince : ∀ op ∈ since, ¬ op.Refills) :
    let start := after (run (new config backend) before) op
    let vm := run start since
    start.remainingGas = some budget ∧
    (∃ es i, vm.host.journal = es ++ start.host.journal ∧ vm.instance? = some i ∧
      es.spent + i.guest.meter.points.toNat = budget.toNat ∧
      (i.guest.meter.exhausted = true ↔ es.RanOut) ∧
      ∀ cost, .charged cost ∈ es ∨ .exhausted cost ∈ es →
        ∃ f ∈ i.linked.module.functions, f.body.Charges cost ∧
          ∀ is, Guest.Code.metered? is = some f.body → (∀ c, .charge c ∉ is) →
            ∃ block ∈ Guest.blocks [] is, Guest.price block = cost) ∧
    (∀ op, ¬ op.Refills → ∃ gas gas', vm.remainingGas = some gas ∧
      (after vm op).remainingGas = some gas' ∧ gas' ≤ gas) ∧
    (∀ gas, (after vm (.setRemainingGas gas)).remainingGas = some gas) ∧
    ∀ g, Guest.LawfulAccess Unmetered g → ∀ f args, Obeys Unmetered (Service.serve g f args) := by
  intro start vm
  -- a build counts out the limit that the machine was made with
  have hconfig : (run (new config backend) before).config = config := config_run _ before
  rw [← hconfig] at hsets
  obtain ⟨hphase, i, hi, hmeter⟩ :=
    ready_of_sets hsets (consistent_run (consistent_new config backend) before) hok
  -- what follows does not refill, so the guest's payments account for its meter
  obtain ⟨u, hvm, es, hes, haccounts, hstands⟩ := exists_world_run hphase hi hsince
  have hvm : vm = start.withWorld i u := hvm
  have hready : (start.withWorld i u).phase = .ready := hphase
  have hheld : (start.withWorld i u).instance? = some { i with guest := u.guest } := rfl
  rw [hmeter] at haccounts
  rw [hvm]
  refine ⟨?_, ⟨es, _, hes, rfl, haccounts.points, ?_, fun cost hcost => ?_⟩, fun op hop => ?_,
    fun gas => ?_, ?_⟩
  · rw [remainingGas, hi, Option.map_some, hmeter]
    rfl
  · rw [haccounts.exhausted]
    simp
  · obtain ⟨f, hf, hcharges⟩ := hstands cost hcost
    exact ⟨f, hf, hcharges, fun is hmetered his =>
      Guest.Code.exists_block_of_charges hmetered his hcharges⟩
  · obtain ⟨gas, hgas, hle⟩ := remainingGas_after_le hready rfl hop
    exact ⟨_, gas, rfl, hgas, hle⟩
  · rw [after, Op.exec, run_setRemainingGas hheld gas]
    rfl
  · exact fun g hg f args => Guest.unmetered_serve hg f args

/-! ## A guest that pays -/

/-- A function of a module whose code has its charges. -/
def meteredFunction (signature : Guest.Signature) (is : List Guest.Instr) : Guest.Function :=
  ⟨signature, [], (Guest.Code.metered? is).getD .done⟩

/-- A guest with a function for every way to pay: its allocator has a price, its queries write to
the database, executing asks for memory, migrating opens an iterator, and replying aborts. -/
def meteredModule : Module where
  imports := [HostFunction.dbWrite, .dbScan, .abort].map fun f =>
    ⟨HostFunction.moduleName, f.name, f.signature⟩
  functions := [
    meteredFunction Module.allocateSignature [.op (.localGet 0), .op .drop, .op (.i32Const 64)],
    meteredFunction Module.deallocateSignature [],
    meteredFunction ⟨[.i32, .i32], [.i32]⟩
      [.op (.i32Const 16), .op (.i32Const 16), .call 0, .op (.i32Const 64)],
    meteredFunction ⟨[.i32, .i32, .i32], [.i32]⟩ [.op (.i32Const 1), .op .memoryGrow],
    meteredFunction ⟨[.i32, .i32], [.i32]⟩
      [.op (.i32Const 0), .op (.i32Const 0), .op (.i32Const 1), .call 1],
    meteredFunction ⟨[.i32, .i32], [.i32]⟩ [.op (.i32Const 16), .call 2, .op (.i32Const 64)]]
  memory := some { pages := 1, addressable := Guest.addressable_one }
  exports := [(Module.memoryName, .memory), (Module.allocateName, .function 3),
    (Module.deallocateName, .function 4), (EntryPoint.query.name, .function 5),
    (EntryPoint.execute.name, .function 6), (EntryPoint.migrate.name, .function 7),
    (EntryPoint.reply.name, .function 8)]
  data := [
    (16, Guest.Region.descriptor { ptr := 16, offset := 48, capacity := 1, length := 1 }),
    (48, [0x61]),
    (64, Guest.Region.descriptor { ptr := 64, offset := 80, capacity := 1024 })]

/-- The call of an entry point with nothing in its arguments. -/
def blankCall (e : EntryPoint) : Op := .call e blankEnv blankInfo (some .null)

/-- The machine with that guest and a number of points. -/
def meteredVm (gas : UInt64) : Vm :=
  after (run (new {} {}) [.build (.ok meteredModule)]) (.setRemainingGas gas)

/-- Of 500 points six are paid for the arguments of a call that then asks for more than there are,
and fourteen for a query after that. -/
theorem budget_of_meteredVm :
    let vm := run (meteredVm 500) [blankCall .execute, blankCall .query]
    (meteredVm 500).remainingGas = some 500 ∧ vm.remainingGas = some 0 ∧
    ∃ es : Journal, vm.host.journal = es ++ (meteredVm 500).host.journal ∧ es.RanOut ∧
      es.spent = 20 := by
  have hsets : (Op.setRemainingGas 500).Sets ({} : Config).gasLimit 500 := rfl
  obtain ⟨hok, hmeter⟩ :
      (Op.setRemainingGas 500).succeeds (run (new {} {}) [.build (.ok meteredModule)]) ∧
      (run (meteredVm 500) [blankCall .execute, blankCall .query]).instance?.map
        (fun i => i.guest.meter) = some { points := 480, exhausted := true } := by
    decide +kernel
  have hsince : ∀ op ∈ [blankCall .execute, blankCall .query], ¬ op.Refills := by
    simp [blankCall, Op.Refills]
  obtain ⟨hstart, ⟨es, i, hes, hi, hpoints, hexhausted, -⟩, -⟩ :=
    budget_of_run {} {} hsets hok hsince
  have hi : (run (meteredVm 500) [blankCall .execute, blankCall .query]).instance? = some i := hi
  rw [hi, Option.map_some, Option.some_inj] at hmeter
  have hremaining : i.guest.meter.remaining = 0 := congrArg Meter.remaining hmeter
  have hout : es.RanOut := hexhausted.mp (congrArg Meter.exhausted hmeter)
  have hsum : es.spent + 480 = 500 := by
    have hleft : i.guest.meter.points.toNat = 480 := congrArg (fun m => m.points.toNat) hmeter
    rw [← hleft]
    exact hpoints
  have hleft : (run (meteredVm 500) [blankCall .execute, blankCall .query]).remainingGas =
      some 0 := by
    rw [remainingGas, hi, Option.map_some, hremaining]
  unfold meteredVm at hleft ⊢
  exact ⟨hstart, hleft, es, hes, hout, Nat.add_right_cancel hsum⟩

end ContractHost.Vm
