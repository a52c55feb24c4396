import ContractHost.Proofs.Vm.Exhaustion

/-!
# Exhausted gas behind the memory operations

An embedder can have the guest's allocator run without calling an entry point, to get a region or to
hand one back. If a check finds too few points then, the allocator's trap is told as what it is, the
failure of an attempt to allocate or to deallocate (`Guest.metered_attempt`); nothing looks at the
points that are left. The same work for an argument of an entry point is told as exhausted gas.

So what an embedder sees of a check that failed depends on where it failed (`exec_of_ranOut`), and a
memory operation never tells that the gas is exhausted.
-/

namespace ContractHost

open Guest (Linked RunM Trap)

namespace Guest

variable {l : Linked}

/-! ## Attempts -/

/-- A failure tells what was attempted, and behind that how the guest was trapped. -/
def TellsTrap (label : String) (e : HostFault) : Prop :=
  ∃ t : Trap, e = .runtime [s!"{label}: {t.message}"]

instance hostLaw_metered {told : HostFault → Prop} : HostLaw (Metered l told) where
  memory _ _ := .of_unmetered (.of_same_journal rfl rfl)
  fault _ _ := .of_unmetered (.of_same_journal rfl rfl)

/-- A check that fails in an attempt is told as a trap behind what was attempted. -/
theorem metered_attempt {α : Type} (label : String) {x : RunM α}
    (hx : Obeys (Metered l fun _ => True) x) :
    Obeys (Metered l (TellsTrap label)) (access.attempt label x) := by
  refine hx.adaptExcept ?_ ?_
  · intro w u h
    refine h.retold fun t ht _ => ?_
    cases ht
  · intro w t u h
    exact h.retold fun _ _ _ => ⟨_, rfl, t, rfl⟩

/-- A check that fails in the allocator is told as a failure to allocate. -/
theorem metered_allocate (l : Linked) :
    LawfulAccess (Metered l (TellsTrap "fail to allocate linear memory")) l.access where
  setMemory := rfl
  allocate size := by
    refine closed_exported hostClosed_obeys fun f _ => ?_
    refine (metered_attempt _ (conforms_run f _).metered).bind fun results => ?_
    split
    · exact Obeys.pure _
    · exact obeys_fault _

/-- A check that fails where a region is handed back is told as a failure to deallocate. -/
theorem metered_deallocate (l : Linked) (ptr : UInt32) :
    Obeys (Metered l (TellsTrap "fail to deallocate linear memory")) (l.access.deallocate ptr) :=
  closed_exported hostClosed_obeys fun f _ =>
    (metered_attempt _ (conforms_run f _).metered).bind fun _ => Obeys.pure _

end Guest

open Guest (TellsTrap)

namespace Entry

/-- The embedder's error for such a failure. -/
def ToldAttempt (label : String) (e : VmError) : Prop :=
  ∃ t : Trap, e = .runtime s!"{label}: {t.message}"

/-- The embedder is told a failure of the host in its own words. -/
theorem run_serve {α : Type} (x : ServiceM α) (w : World) :
    (serve x).run w = match x.run w with
      | .ok a u => .ok a u
      | .error e u => .error (.ofHostFault e) u := by
  simp only [EStateM.run, serve, EStateM.adaptExcept]
  cases x w with
  | ok a u => rfl
  | error e u => rfl

/-- The embedder is told of the attempt, and not of the exhausted gas. -/
theorem metered_serve {l : Linked} {α : Type} {label : String} {x : ServiceM α}
    (hx : Obeys (Metered l (TellsTrap label)) x) :
    Obeys (Metered l (ToldAttempt label)) (serve x) := by
  refine hx.adaptExcept ?_ ?_
  · intro w u h
    refine h.retold fun e he _ => ?_
    cases he
  · intro w e u h
    refine h.retold fun e' he htells => ?_
    obtain rfl := Option.some.inj he
    obtain ⟨t, rfl⟩ := htells
    exact ⟨_, rfl, t, rfl⟩

end Entry

namespace Vm

variable {vm : Vm} {i : Instance}

/-! ## Memory operations -/

/-- What a memory operation attempts if it has the guest's allocator run. -/
def Op.attempts? : Op → Option String
  | .allocate _ | .allocateBytes _ | .allocateText _ | .allocateJson _ | .allocateBase64 _ =>
    some "fail to allocate linear memory"
  | .deallocate _ => some "fail to deallocate linear memory"
  | _ => none

/-- The bytes that an operation copies into a new region. -/
def Op.content? : Op → Option Bytes
  | .allocateBytes data => some data
  | .allocateText text => some (Utf8.encode text.toList)
  | .allocateJson msg => msg.map Json.Value.bytes
  | .allocateBase64 text =>
    match Base64.decode (Utf8.encode text.toList) with
    | .ok data => some data
    | .error _ => none
  | _ => none

/-! ## From the guest to the machine -/

/-- What is answered may be forgotten. -/
theorem leaves_forget {α : Type} (x : VmM α) (vm : Vm) :
    leaves ((x >>= fun _ => pure ()).run vm) = leaves (x.run vm) := by
  rw [EStateM.run_bind]
  cases x.run vm with
  | ok a vm' => rfl
  | error e vm' => rfl

theorem fault?_forget {α : Type} (x : VmM α) (vm : Vm) :
    fault? ((x >>= fun _ => pure ()).run vm) = fault? (x.run vm) := by
  rw [EStateM.run_bind]
  cases x.run vm with
  | ok a vm' => rfl
  | error e vm' => rfl

/-- The payments of what was done with the guest behind a machine's operation, and their failure as
the operation answers it. -/
def MeteredOn (told : VmError → Prop) (vm : Vm) (i : Instance) {α : Type} (x : VmM α) : Prop :=
  ∃ u, leaves (x.run vm) = vm.withWorld i u ∧
    Metered i.linked told ⟨vm.host, i.guest⟩ (fault? (x.run vm)) u

namespace MeteredOn

variable {α : Type} {told : VmError → Prop}

theorem forget {x : VmM α} (h : MeteredOn told vm i x) :
    MeteredOn told vm i (x >>= fun _ => pure ()) := by
  unfold MeteredOn
  rw [leaves_forget, fault?_forget]
  exact h

/-- Work on a guest is metered on the machine that holds it. -/
theorem onReady (hi : vm.instance? = some i) {x : Linked → Entry.EmbedM α}
    (hx : Obeys (Metered i.linked told) (x i.linked)) : MeteredOn told vm i (onReady x) := by
  unfold MeteredOn
  rw [run_onReady hi]
  cases hrun : (x i.linked).run ⟨vm.host, i.guest⟩ with
  | ok a u => exact ⟨u, rfl, hx.of_ok hrun⟩
  | error e u => exact ⟨u, rfl, hx.of_error hrun⟩

/-- An operation that has nothing to work with does nothing. -/
theorem throw (hi : vm.instance? = some i) (e : VmError) :
    MeteredOn told vm i (throw e : VmM α) :=
  ⟨_, (withWorld_host hi vm.host).symm, .of_unmetered (.of_same_journal rfl rfl)⟩

end MeteredOn

/-- Bytes, texts and values are handed out as the bytes that they come to. -/
theorem exec_of_content {op : Op} {data : Bytes} (h : op.content? = some data) :
    op.exec = (allocateBytes data >>= fun _ => pure ()) := by
  cases op with
  | allocateBytes _ | allocateText _ =>
    obtain rfl := Option.some.inj h
    rfl
  | allocateJson msg =>
    obtain ⟨v, rfl, rfl⟩ := Option.map_eq_some_iff.mp h
    rfl
  | allocateBase64 text =>
    simp only [Op.content?] at h
    cases hdecode : Base64.decode (Utf8.encode text.toList) with
    | ok bs =>
      rw [hdecode] at h
      obtain rfl := Option.some.inj h
      rw [Op.exec, allocateBase64_eq, hdecode]
    | error e =>
      rw [hdecode] at h
      cases h
  | _ => cases h

/-- A shortage of points at such an operation is told as an attempt to allocate that failed. -/
theorem metered_allocateBytes (hi : vm.instance? = some i) (data : Bytes) :
    MeteredOn (Entry.ToldAttempt "fail to allocate linear memory") vm i (allocateBytes data) :=
  .onReady hi (x := fun l => Entry.serve (l.access.newBytes data))
    (Entry.metered_serve (Guest.obeys_newBytes (Guest.metered_allocate i.linked) data))

/-- Wherever a check fails in a memory operation, the operation tells what it attempted. -/
theorem metered_exec (hi : vm.instance? = some i) {op : Op} {label : String}
    (hop : op.attempts? = some label) : MeteredOn (Entry.ToldAttempt label) vm i op.exec := by
  cases op with
  | allocate size =>
    obtain rfl := Option.some.inj hop
    exact MeteredOn.forget (.onReady hi (x := fun l => Entry.serve (l.access.newRegion size))
      (Entry.metered_serve (Guest.obeys_newRegion (Guest.metered_allocate i.linked) size)))
  | deallocate ptr =>
    obtain rfl := Option.some.inj hop
    exact .onReady hi (x := fun l => Entry.serve (l.access.free ptr))
      (Entry.metered_serve (Guest.closed_free Obeys.compositional
        (Guest.metered_deallocate i.linked) ptr))
  | allocateBytes data =>
    obtain rfl := Option.some.inj hop
    exact (metered_allocateBytes hi data).forget
  | allocateText text =>
    obtain rfl := Option.some.inj hop
    exact (metered_allocateBytes hi _).forget
  | allocateJson msg =>
    obtain rfl := Option.some.inj hop
    -- without a text, nothing is asked of the guest
    cases msg with
    | none => exact .throw hi _
    | some msg => exact (metered_allocateBytes hi msg.bytes).forget
  | allocateBase64 text =>
    obtain rfl := Option.some.inj hop
    rw [Op.exec, allocateBase64_eq]
    split
    · exact (metered_allocateBytes hi _).forget
    · exact (MeteredOn.throw hi _).forget
  | _ => cases hop

/-- Where nothing remains, nothing remains until a refill. -/
theorem remainingGas_run_of_remaining_zero (hphase : vm.phase = .ready) {u : World}
    (hzero : u.guest.meter.remaining = 0) {ops : List Op} (hops : ∀ op ∈ ops, ¬ op.Refills) :
    (run (vm.withWorld i u) ops).remainingGas = some 0 := by
  have hready : (vm.withWorld i u).phase = .ready := hphase
  obtain ⟨v, hv, es, -, haccounts, -⟩ := exists_world_run hready rfl hops
  have hle : v.guest.meter.remaining ≤ u.guest.meter.remaining := haccounts.remaining_le
  rw [hzero] at hle
  rw [hv, remainingGas_withWorld, UInt64.le_zero_iff.mp hle]

/-- The same copy, made for the first argument of a call, fails as it does in an operation. Where
nothing remains then, the call tells it as exhausted gas. -/
theorem call_of_failed_copy (hi : vm.instance? = some i) {op : Op} {data : Bytes}
    (hcontent : op.content? = some data) {e : VmError} {u : World}
    (hrun : op.exec.run vm = .error e (vm.withWorld i u)) (hzero : u.guest.meter.remaining = 0)
    (name : String) (args : List Bytes) :
    (Entry.call i.linked name (data :: args)).run ⟨vm.host, i.guest⟩ =
      .error .gasExhausted u := by
  rw [exec_of_content hcontent] at hrun
  obtain hcopy | ⟨r, vm', -, hpure⟩ := run_bind_eq_error.mp hrun
  · rw [allocateBytes, run_onReady hi, Entry.run_serve] at hcopy
    cases hbytes : (i.linked.access.newBytes data).run ⟨vm.host, i.guest⟩ with
    | ok r w =>
      rw [hbytes] at hcopy
      cases hcopy
    | error f w =>
      rw [hbytes] at hcopy
      obtain ⟨-, hw⟩ := EStateM.Result.error.inj hcopy
      obtain rfl := withWorld_injective hw
      -- the copy is the placing of the first argument
      have hnone : (([] : List Bytes).mapM (Entry.place i.linked)).run ⟨vm.host, i.guest⟩ =
          .ok [] ⟨vm.host, i.guest⟩ := by
        rw [List.mapM_nil]
        rfl
      have hfaults : Entry.Faults i.linked name (data :: args) ⟨vm.host, i.guest⟩
          (.ofHostFault f) w := .placing (List.nil_append _).symm hnone hbytes
      rw [Entry.call_of_faults hfaults, Entry.told, if_pos hzero]
  · cases hpure

/-- If a check found too few points behind a memory operation on a machine that is ready, the
operation tells the failure of what it attempted, and how the allocator was trapped, but not that
gas is exhausted, though nothing remains until a refill. An entry-point call that copies the same
bytes in for an argument does tell so. -/
theorem exec_of_ranOut (hphase : vm.phase = .ready) (hi : vm.instance? = some i) {op : Op}
    {label : String} (hop : op.attempts? = some label) {es : Journal}
    (hjournal : (after vm op).host.journal = es ++ vm.host.journal) (hout : es.RanOut) :
    ∃ (t : Trap) (u : World),
      op.exec.run vm = .error (.runtime s!"{label}: {t.message}") (vm.withWorld i u) ∧
      (∀ ops, (∀ op ∈ ops, ¬ op.Refills) →
        (run (vm.withWorld i u) ops).remainingGas = some 0) ∧
      ∀ data, op.content? = some data → ∀ name args,
        (Entry.call i.linked name (data :: args)).run ⟨vm.host, i.guest⟩ =
          .error .gasExhausted u := by
  obtain ⟨u, hu, fs, hfs, haccounts, -, hran⟩ := metered_exec hi hop
  rw [after, hu] at hjournal
  -- the events behind the operation are the ones that were paid for, or not
  have heq : fs = es := List.append_cancel_right (hfs.symm.trans hjournal)
  subst heq
  obtain ⟨_, he, t, rfl⟩ := hran hout
  have hrun := eq_error_of_fault? he
  rw [hu] at hrun
  have hzero : u.guest.meter.remaining = 0 := haccounts.remaining_of_ranOut hout
  refine ⟨t, u, hrun, fun ops hops => remainingGas_run_of_remaining_zero hphase hzero hops, ?_⟩
  exact fun data hcontent name args => call_of_failed_copy hi hcontent hrun hzero name args

/-- With one point the guest's allocator asks for one too many. -/
theorem exec_of_ranOut_at_once :
    (meteredVm 1).phase = .ready ∧
    (after (meteredVm 1) (.allocateBytes [])).host.journal =
      [.exhausted 2] ++ (meteredVm 1).host.journal ∧
    ∃ i t u, (meteredVm 1).instance? = some i ∧
      (Op.allocateBytes []).exec.run (meteredVm 1) =
        .error (.runtime s!"fail to allocate linear memory: {Trap.message t}")
          ((meteredVm 1).withWorld i u) ∧
      (run ((meteredVm 1).withWorld i u) [blankCall .query]).remainingGas = some 0 ∧
      (Entry.call i.linked "query" [[], []]).run ⟨(meteredVm 1).host, i.guest⟩ =
        .error .gasExhausted u := by
  obtain ⟨hphase, hsome, hjournal⟩ : (meteredVm 1).phase = .ready ∧
      (meteredVm 1).instance?.isSome ∧
      (after (meteredVm 1) (.allocateBytes [])).host.journal =
        [.exhausted 2] ++ (meteredVm 1).host.journal := by decide +kernel
  obtain ⟨i, hi⟩ := Option.isSome_iff_exists.mp hsome
  have hop : (Op.allocateBytes []).attempts? = some "fail to allocate linear memory" := rfl
  obtain ⟨t, u, hrun, hstays, hcall⟩ :=
    exec_of_ranOut hphase hi hop hjournal ⟨2, List.mem_singleton_self _⟩
  have hops : ∀ op ∈ [blankCall .query], ¬ op.Refills := by simp [blankCall, Op.Refills]
  exact ⟨hphase, hjournal, i, t, u, hi, hrun, hstays _ hops, hcall [] rfl "query" [[]]⟩

/-- Asking for a region is not told to have exhausted the gas, where a query is. -/
theorem runtime_of_ranOut :
    (meteredVm 1).phase = .ready ∧
      (after (meteredVm 1) (.allocate 8)).host.journal =
        .exhausted 2 :: (meteredVm 1).host.journal ∧
      fault? ((Op.allocate 8).exec.run (meteredVm 1)) =
        some (.runtime "fail to allocate linear memory: RuntimeError: unreachable") ∧
      fault? ((blankCall .query).exec.run (meteredVm 1)) = some .gasExhausted := by
  decide +kernel

end Vm

end ContractHost
