import ContractHost.Proofs.Vm.Budget

/-!
# What an embedder sees of exhausted gas

An entry-point call tells a failure of the guest, or of the host's work on it, as exhausted gas if
nothing can be counted on afterwards. That is so after every check that found too few points, at
whatever depth (`Entry.metered_call`), and it stays so until a refill (`call_of_ranOut`).

It is also so if the points that were paid left nothing, without a check that failed. Then a call
that fails for any other reason is told as exhausted gas as well; in all other cases the failure is
told as it is (`call_eq_gasExhausted_iff`).
-/

namespace ContractHost

open Guest (Linked Trap)

namespace Entry

variable {l : Linked} {α : Type}

/-! ## Checks that fail -/

/-- A check that fails is a failure, which is told as exhausted gas, as it leaves nothing. -/
theorem metered_orExhausted {x : EmbedM α} (hx : Obeys (Metered l fun _ => True) x) :
    Obeys (Metered l (· = .gasExhausted)) (orExhausted x) := by
  refine obeys_orExhausted hx ?_ ?_
  · intro w u h
    refine h.retold fun e he _ => ?_
    cases he
  · intro w e u h
    obtain ⟨es, hes, haccounts, hstands, -⟩ := h
    refine ⟨es, hes, haccounts, hstands, fun hout => ⟨_, rfl, ?_⟩⟩
    exact if_pos (haccounts.remaining_of_ranOut hout)

/-- Accounts do not depend on the words in which failures are told. -/
theorem metered_adaptExcept {ε ε' : Type} {x : EStateM ε World α} {f : ε → ε'}
    (hx : Obeys (Metered l fun _ => True) x) :
    Obeys (Metered l fun _ => True) (EStateM.adaptExcept f x) := by
  refine hx.adaptExcept ?_ ?_
  · intro w u h
    refine h.retold fun e he _ => ?_
    cases he
  · intro w e u h
    exact h.retold fun _ _ _ => ⟨f e, rfl, trivial⟩

/-- An allocator that runs out of points at an argument is told as exhausted gas. -/
theorem metered_place (arg : Bytes) : Obeys (Metered l (· = .gasExhausted)) (place l arg) :=
  metered_orExhausted (metered_adaptExcept (conforms_placing arg).metered)

/-- Wherever a check fails in an entry-point call, the call tells it as exhausted gas. -/
theorem metered_call (name : String) (args : List Bytes) :
    Obeys (Metered l (· = .gasExhausted)) (call l name args) := by
  refine closed_call Obeys.compositional metered_place ?_ ?_ ?_ ?_ args
  · exact fun pointers w => .of_unmetered (.noting id)
  · exact fun f _ pointers =>
      metered_orExhausted (metered_adaptExcept (conforms_runOn f pointers).metered)
  · exact fun w => .of_unmetered (.of_same_journal rfl rfl)
  · exact fun t w => .of_unmetered (.of_same_journal rfl rfl)

/-! ## Failures and how they are told -/

/-- A failure of the guest, or of the host's work on it, in the call of an entry point, as an
embedder is told of it if points are left: at the placing of an argument, or in the run of the
function. -/
inductive Faults (l : Linked) (name : String) (args : List Bytes) (w : World) :
    VmError → World → Prop where
  | placing {before after : List Bytes} {arg : Bytes} {pointers : List UInt32} {v u : World}
    {e : HostFault} (hargs : args = before ++ arg :: after)
    (placed : (before.mapM (place l)).run w = .ok pointers v)
    (failed : (l.access.newBytes arg).run v = .error e u) : Faults l name args w (.ofHostFault e) u
  | running {pointers : List UInt32} {v u : World} {f : Nat} {t : Trap}
    (placed : (args.mapM (place l)).run w = .ok pointers v)
    (exported : l.module.exportedFunction? name = some f)
    (failed : (runOn l f pointers).run (v.noting (.calling name pointers)) = .error t u) :
    Faults l name args w (.ofTrap t) u

/-- How a failure is told, given the world that it leaves. -/
def told (e : VmError) (u : World) : VmError :=
  if u.guest.meter.remaining = 0 then .gasExhausted else e

/-- A failure is told by the meter that it leaves. -/
theorem run_orExhausted_adaptExcept {ε : Type} (f : ε → VmError) (x : EStateM ε World α)
    (w : World) :
    (orExhausted (EStateM.adaptExcept f x)).run w = match x.run w with
      | .ok a u => .ok a u
      | .error e u => .error (told (f e) u) u := by
  simp only [EStateM.run, orExhausted, EStateM.adaptExcept]
  cases x w with
  | ok a u => rfl
  | error e u => rfl

variable {name : String} {args : List Bytes} {w u : World}

/-- Placing an argument fails exactly if the guest does not hand out a region with its bytes. -/
theorem run_place_eq_error {arg : Bytes} {err : VmError} :
    (place l arg).run w = .error err u ↔
      ∃ e, (l.access.newBytes arg).run w = .error e u ∧ err = told (.ofHostFault e) u := by
  rw [place, serve, run_orExhausted_adaptExcept, EStateM.run_bind]
  cases (l.access.newBytes arg).run w with
  | ok r v =>
    constructor
    · intro h
      cases h
    · rintro ⟨_, h, -⟩
      cases h
  | error e v =>
    constructor
    · intro h
      cases h
      exact ⟨e, rfl, rfl⟩
    · rintro ⟨_, he, rfl⟩
      cases he
      rfl

/-- A failure is the end of the call, and is told. -/
theorem call_of_faults {e : VmError} (h : Faults l name args w e u) :
    (call l name args).run w = .error (told e u) u := by
  unfold call
  cases h with
  | placing hargs placed failed =>
    have hplace := run_place_eq_error.mpr ⟨_, failed, rfl⟩
    exact run_bind_eq_error.mpr (.inl
      (run_mapM_eq_error.mpr ⟨_, _, _, _, _, hargs, placed, hplace⟩))
  | running placed exported failed =>
    refine run_bind_eq_error.mpr (.inr ⟨_, _, placed, ?_⟩)
    rw [EStateM.run_bind, World.run_note]
    simp only [exported, EStateM.run_bind, run_orExhausted_adaptExcept, failed]

/-- No failure of the host is told as exhausted gas of itself. -/
theorem ofHostFault_ne_gasExhausted (e : HostFault) : VmError.ofHostFault e ≠ .gasExhausted := by
  cases e <;> exact nofun

theorem ofTrap_ne_gasExhausted (t : Trap) : VmError.ofTrap t ≠ .gasExhausted := by
  cases t with
  | host e => exact ofHostFault_ne_gasExhausted e
  | _ => exact nofun

/-- A failure of a call is never exhausted gas before it is looked at what it leaves. -/
theorem Faults.ne_gasExhausted {e : VmError} (h : Faults l name args w e u) :
    e ≠ .gasExhausted := by
  cases h with
  | placing => exact ofHostFault_ne_gasExhausted _
  | running => exact ofTrap_ne_gasExhausted _

/-- Only a failure is told as exhausted gas: a function that is missing, and an answer that is no
pointer, are not. -/
theorem faults_of_gasExhausted (h : (call l name args).run w = .error .gasExhausted u) :
    ∃ e, Faults l name args w e u ∧ .gasExhausted = told e u := by
  unfold call at h
  obtain hplace | ⟨pointers, v, placed, h⟩ := run_bind_eq_error.mp h
  · -- the arguments before the one that failed were placed
    obtain ⟨before, arg, after, bs, v, hargs, placed, hfailed⟩ := run_mapM_eq_error.mp hplace
    obtain ⟨e, failed, htold⟩ := run_place_eq_error.mp hfailed
    exact ⟨_, .placing hargs placed failed, htold⟩
  · rw [EStateM.run_bind, World.run_note] at h
    cases hexported : l.module.exportedFunction? name with
    | none =>
      rw [hexported] at h
      cases h
    | some f =>
      simp only [hexported] at h
      obtain hrun | ⟨results, v', -, hresult⟩ := run_bind_eq_error.mp h
      · rw [run_orExhausted_adaptExcept] at hrun
        cases hfailed : (runOn l f pointers).run (v.noting (.calling name pointers)) with
        | ok results v' =>
          rw [hfailed] at hrun
          cases hrun
        | error t v' =>
          rw [hfailed] at hrun
          obtain ⟨htold, rfl⟩ := EStateM.Result.error.inj hrun
          exact ⟨_, .running placed hexported hfailed, htold.symm⟩
      · -- the function succeeded, and what it answered is no pointer
        unfold result at hresult
        split at hresult
        · cases hresult
        · cases hresult

/-- A call is told to have exhausted the gas exactly if it failed and nothing can be counted on. -/
theorem call_eq_gasExhausted_iff : (call l name args).run w = .error .gasExhausted u ↔
    (∃ e, Faults l name args w e u) ∧ u.guest.meter.remaining = 0 := by
  constructor
  · intro h
    obtain ⟨e, he, htold⟩ := faults_of_gasExhausted h
    refine ⟨⟨e, he⟩, ?_⟩
    rw [told] at htold
    split at htold
    · assumption
    · exact absurd htold.symm he.ne_gasExhausted
  · intro ⟨⟨e, he⟩, hzero⟩
    rw [call_of_faults he, told, if_pos hzero]

end Entry

namespace Vm

variable {vm : Vm} {i : Instance}

/-- What was entered into the journal by a call. -/
theorem exists_world_call (hi : vm.instance? = some i) (entry : EntryPoint) (env : Env)
    (info : MessageInfo) (msg : Json.Value) :
    ∃ u : World, leaves ((call entry env info msg).run vm) = vm.withWorld i u ∧
      ∃ es : Journal, u.host.journal = es ++ vm.host.journal ∧
        es.Accounts i.guest.meter u.guest.meter ∧
        (es.RanOut →
          (call entry env info msg).run vm = .error .gasExhausted (vm.withWorld i u)) := by
  obtain ⟨u, hu, es, hes, haccounts, -, hout⟩ :=
    world_of_obeys_call hi (Entry.metered_call entry.name (entry.arguments env info msg))
  refine ⟨u, hu, es, hes, haccounts, fun hran => ?_⟩
  obtain ⟨e, he, rfl⟩ := hout hran
  rw [← hu]
  exact eq_error_of_fault? he

/-- If a check found too few points behind the call of an entry point on a machine that is ready, be
it in the entry point, in the allocator at the placing of an argument, or in an allocator that a
host function had run, the call answers that gas is exhausted, and nothing remains until a
refill. -/
theorem call_of_ranOut (hphase : vm.phase = .ready) (hi : vm.instance? = some i)
    {entry : EntryPoint} {env : Env} {info : MessageInfo} {msg : Json.Value} {es : Journal}
    (hjournal : (after vm (.call entry env info (some msg))).host.journal = es ++ vm.host.journal)
    (hout : es.RanOut) :
    ∃ vm', (call entry env info msg).run vm = .error .gasExhausted vm' ∧
      ∀ ops, (∀ op ∈ ops, ¬ op.Refills) → (run vm' ops).remainingGas = some 0 := by
  obtain ⟨u, hu, fs, hfs, haccounts, hran⟩ := exists_world_call hi entry env info msg
  rw [after_call, hu] at hjournal
  have heq : fs = es := List.append_cancel_right (hfs.symm.trans hjournal)
  subst heq
  refine ⟨vm.withWorld i u, hran hout, fun ops hops => ?_⟩
  have hready : (vm.withWorld i u).phase = .ready := hphase
  obtain ⟨v, hv, gs, -, haccounts', -⟩ := exists_world_run hready rfl hops
  have hzero : u.guest.meter.remaining = 0 := haccounts.remaining_of_ranOut hout
  have hle : v.guest.meter.remaining ≤ u.guest.meter.remaining := haccounts'.remaining_le
  rw [hzero] at hle
  rw [hv, remainingGas_withWorld, UInt64.le_zero_iff.mp hle]

/-- Migrating with fifteen points asks for too many in the allocator, which a scan had run. -/
theorem call_of_ranOut_in_scan :
    (meteredVm 15).phase = .ready ∧ (meteredVm 15).instance?.isSome ∧
    (after (meteredVm 15) (.call .migrate blankEnv blankInfo (some .null))).host.journal =
      [.failed .dbScan (.runtime ["fail to allocate linear memory: RuntimeError: unreachable"]),
        .exhausted 2, .entered .dbScan, .charged 10, .calling "migrate" [64, 64], .charged 2,
        .charged 2] ++ (meteredVm 15).host.journal ∧
    ∃ vm', (call .migrate blankEnv blankInfo .null).run (meteredVm 15) =
        .error .gasExhausted vm' ∧
      (run vm' [blankCall .query, .allocate 8]).remainingGas = some 0 := by
  obtain ⟨hphase, hsome, hjournal⟩ :
      (meteredVm 15).phase = .ready ∧ (meteredVm 15).instance?.isSome ∧
      (after (meteredVm 15) (.call .migrate blankEnv blankInfo (some .null))).host.journal =
        [.failed .dbScan (.runtime ["fail to allocate linear memory: RuntimeError: unreachable"]),
          .exhausted 2, .entered .dbScan, .charged 10, .calling "migrate" [64, 64], .charged 2,
          .charged 2] ++ (meteredVm 15).host.journal := by decide +kernel
  have hops : ∀ op ∈ [blankCall .query, .allocate 8], ¬ op.Refills := by
    simp [blankCall, Op.Refills]
  obtain ⟨i, hi⟩ := Option.isSome_iff_exists.mp hsome
  obtain ⟨vm', hrun, hstays⟩ := call_of_ranOut hphase hi hjournal ⟨2, by decide⟩
  exact ⟨hphase, hsome, hjournal, vm', hrun, hstays _ hops⟩

/-! ## False alarms -/

/-- What a failure says of the meter that it leaves, if the meter was not exhausted before. -/
theorem remaining_of_faults {name : String} {args : List Bytes} {e : VmError} {w u : World}
    (hfresh : w.guest.meter.exhausted = false) (h : Entry.Faults i.linked name args w e u) :
    u.guest.meter.remaining = 0 ↔
      (∃ es : Journal, u.host.journal = es ++ w.host.journal ∧ es.RanOut) ∨
        u.guest.meter.points = 0 := by
  obtain ⟨es, hes, haccounts, -⟩ :=
    (Entry.metered_call name args).of_error (Entry.call_of_faults h)
  have hout : (∃ fs : Journal, u.host.journal = fs ++ w.host.journal ∧ fs.RanOut) ↔ es.RanOut := by
    constructor
    · intro ⟨fs, hfs, hran⟩
      have heq : fs = es := List.append_cancel_right (hfs.symm.trans hes)
      rwa [heq] at hran
    · exact fun hran => ⟨es, hes, hran⟩
  rw [hout, haccounts.remaining_eq_zero_iff hfresh]

/-- On a machine whose meter is not exhausted, the call of an entry point is told to have exhausted
the gas exactly if it failed, in the guest or in the host's work on it, and a check found too few
points or there just are none left. Any other such failure is told as it is. -/
theorem run_call_eq_gasExhausted_iff (hi : vm.instance? = some i)
    (hfresh : i.guest.meter.exhausted = false) (entry : EntryPoint) (env : Env) (info : MessageInfo)
    (msg : Json.Value) (u : World) :
    ((call entry env info msg).run vm = .error .gasExhausted (vm.withWorld i u) ↔
      (∃ e, Entry.Faults i.linked entry.name (entry.arguments env info msg)
        ⟨vm.host, i.guest⟩ e u) ∧
      ((∃ es : Journal, u.host.journal = es ++ vm.host.journal ∧ es.RanOut) ∨
        u.guest.meter.points = 0)) ∧
    ∀ e, Entry.Faults i.linked entry.name (entry.arguments env info msg) ⟨vm.host, i.guest⟩ e u →
      (∀ es : Journal, u.host.journal = es ++ vm.host.journal → ¬ es.RanOut) →
      u.guest.meter.points ≠ 0 →
      (call entry env info msg).run vm = .error e (vm.withWorld i u) := by
  rw [run_call_eq_error hi, Entry.call_eq_gasExhausted_iff]
  constructor
  -- a failed call is told as exhausted gas exactly if nothing can be counted on
  · refine and_congr_right fun h => ?_
    obtain ⟨e, he⟩ := h
    exact remaining_of_faults hfresh he
  · intro e he hran hpoints
    have hsome : u.guest.meter.remaining ≠ 0 := by
      intro hzero
      obtain ⟨es, hes, hout⟩ | hzero := (remaining_of_faults hfresh he).mp hzero
      · exact hran es hes hout
      · exact hpoints hzero
    rw [run_call_eq_error hi, Entry.call_of_faults he, Entry.told, if_neg hsome]

/-- The one failure behind a migration with fifteen points is a check that found too few of them. -/
theorem run_call_eq_gasExhausted_in_scan :
    ∃ i u, (meteredVm 15).instance? = some i ∧ i.guest.meter.exhausted = false ∧
      (call .migrate blankEnv blankInfo .null).run (meteredVm 15) =
        .error .gasExhausted ((meteredVm 15).withWorld i u) ∧
      (∃ e, Entry.Faults i.linked "migrate" (EntryPoint.migrate.arguments blankEnv blankInfo .null)
        ⟨(meteredVm 15).host, i.guest⟩ e u) ∧
      ∃ es : Journal, u.host.journal = es ++ (meteredVm 15).host.journal ∧ es.RanOut := by
  obtain ⟨hmeter, hfault, hpoints⟩ :
      (meteredVm 15).instance?.map (fun i => i.guest.meter) = some { points := 15 } ∧
      fault? ((call .migrate blankEnv blankInfo .null).run (meteredVm 15)) =
        some .gasExhausted ∧
      (leaves ((call .migrate blankEnv blankInfo .null).run (meteredVm 15))).instance?.map
        (fun i => i.guest.meter.points) = some 1 := by decide +kernel
  obtain ⟨i, hi, hmeter⟩ := Option.map_eq_some_iff.mp hmeter
  have hfresh : i.guest.meter.exhausted = false := congrArg Guest.Meter.exhausted hmeter
  obtain ⟨u, hu, -⟩ := exists_world_call hi .migrate blankEnv blankInfo .null
  have hrun := eq_error_of_fault? hfault
  rw [hu] at hrun hpoints
  obtain ⟨hfaults, hout | hzero⟩ :=
    (run_call_eq_gasExhausted_iff hi hfresh .migrate blankEnv blankInfo .null u).1.mp hrun
  · exact ⟨i, u, hi, hfresh, hrun, hfaults, hout⟩
  · have hone : u.guest.meter.points = 1 := Option.some.inj hpoints
    rw [hone] at hzero
    cases hzero

/-- A reply that aborts once its last point is paid is told to have exhausted the gas, though no
check failed. -/
theorem gasExhausted_of_abort :
    (meteredVm 14).instance?.map (fun i => i.guest.meter) = some { points := 14 } ∧
    ∃ (vm' : Vm) (es : Journal),
      (call .reply blankEnv blankInfo .null).run (meteredVm 14) = .error .gasExhausted vm' ∧
      vm'.host.journal = es ++ (meteredVm 14).host.journal ∧
      .failed .abort (.aborted "a") ∈ es ∧ ¬ es.RanOut := by
  obtain ⟨hmeter, hfault, hjournal⟩ :
      (meteredVm 14).instance?.map (fun i => i.guest.meter) = some { points := 14 } ∧
      fault? ((call .reply blankEnv blankInfo .null).run (meteredVm 14)) =
        some .gasExhausted ∧
      (leaves ((call .reply blankEnv blankInfo .null).run (meteredVm 14))).host.journal =
        [.failed .abort (.aborted "a"), .aborting "a", .entered .abort, .charged 10,
          .calling "reply" [64, 64], .charged 2, .charged 2] ++ (meteredVm 14).host.journal := by
    decide +kernel
  refine ⟨hmeter, _, _, eq_error_of_fault? hfault, hjournal, List.mem_cons_self, ?_⟩
  simp [Journal.RanOut]

end Vm

end ContractHost
