import ContractHost.Proofs.Guest.Tolls
import ContractHost.Proofs.Vm.Exhaustion

/-!
# What an exhausted guest can still pay for

A check that finds too few points leaves them in the counter, and later checks look at the counter
alone. So a guest of which it is said that nothing remains may have points left, and they still pay
for what costs no more (`exhausted_query_writes`). But they are not topped up: until a refill all
that is run pays together no more than the counter holds, and a call that comes to a check which
asks for more has exhausted the gas (`leftovers_of_run`). A guest that has not the price of a call
left calls no host function (`Entry.idle_call`).
-/

namespace ContractHost

open Guest (Linked Module Idle)

namespace Entry

variable {l : Linked} {name : String}

/-- How a failure is told is no matter. -/
theorem idle_orExhausted {α : Type} {x : EmbedM α} (hx : Obeys Idle x) :
    Obeys Idle (orExhausted x) := obeys_orExhausted hx id id

/-- Below the price of a call an argument is placed without any host function, if the allocator is
the module's own. -/
theorem idle_place (hl : l.module.Metered) (howns : l.Owns Module.allocateName) (arg : Bytes) :
    Obeys Idle (place l arg) := by
  have haccess := Guest.lawfulAccess_idle hl howns
  have hplacing : Obeys Idle (do return (← l.access.newBytes arg).ptr : ServiceM UInt32) :=
    (Guest.obeys_newBytes haccess arg).bind fun _ => Obeys.pure _
  exact idle_orExhausted (hplacing.adaptExcept id id)

/-- Below the price of a call, a guest whose code has its charges, and whose allocator and entry
point are its own, calls no host function. -/
theorem idle_call (hl : l.module.Metered) (hallocator : l.Owns Module.allocateName)
    (hentry : l.Owns name) (args : List Bytes) : Obeys Idle (call l name args) := by
  refine closed_call Obeys.compositional (idle_place hl hallocator) ?_ ?_ ?_ ?_ args
  · exact fun pointers w => .noting rfl id (Nat.le_refl _)
  · intro f hf pointers
    have hrun : Obeys Idle (runOn l f pointers) :=
      closed_runOn Guest.guestClosed_obeys (Guest.idle_run hl (hentry f hf)) pointers
    exact idle_orExhausted (hrun.adaptExcept id id)
  · exact fun w => .of_same_host rfl rfl
  · exact fun t w => .of_same_host rfl rfl

end Entry

namespace Vm

variable {vm : Vm} {i : Instance}

/-- What the call of an entry point on a machine that holds a guest can do with the points in the
counter, whatever is told of them. It leaves a world, and events in the journal. -/
structure CallWithin (vm : Vm) (i : Instance) (entry : EntryPoint) (env : Env) (info : MessageInfo)
    (msg : Json.Value) (v : World) (es : Journal) : Prop where
  leaves_eq : leaves ((call entry env info msg).run vm) = vm.withWorld i v
  journal : v.host.journal = es ++ vm.host.journal
  /-- No check passes that asks for more than the counter holds. -/
  passed : ∀ cost, .charged cost ∈ es → cost ≤ i.guest.meter.points.toNat
  /-- A call that comes to a check that asks for more answers that gas is exhausted. -/
  exhausts : ∀ cost, i.guest.meter.points.toNat < cost →
    .charged cost ∈ es ∨ .exhausted cost ∈ es →
    (call entry env info msg).run vm = .error .gasExhausted (vm.withWorld i v)
  /-- If the counter holds less than the price of a call, and the code of the guest has its charges,
  and its allocator and the entry point are its own, then it calls no host function, and nothing
  happens to the host but that its journal grows. -/
  idle : i.guest.meter.points.toNat < Gas.callCost → i.linked.module.Metered →
    i.linked.Owns Module.allocateName → i.linked.Owns entry.name →
    v.host = { vm.host with journal := es ++ vm.host.journal } ∧ ∀ e ∈ es, ¬ e.Enters

/-- Every call stays within the points in the counter. -/
theorem exists_callWithin (hi : vm.instance? = some i) (entry : EntryPoint) (env : Env)
    (info : MessageInfo) (msg : Json.Value) :
    ∃ v es, CallWithin vm i entry env info msg v es := by
  obtain ⟨v, hv, es, hes, haccounts, hout⟩ := exists_world_call hi entry env info msg
  have hpassed : ∀ cost, .charged cost ∈ es → cost ≤ i.guest.meter.points.toNat := by
    intro cost hcost
    have hle := Journal.le_spent_of_mem hcost
    have hpoints := haccounts.points
    omega
  refine ⟨v, es, hv, hes, hpassed, ?_, ?_⟩
  · intro cost hfew hcheck
    obtain hcharged | hexhausted := hcheck
    · exact absurd (hpassed cost hcharged) (Nat.not_le_of_lt hfew)
    · exact hout ⟨cost, hexhausted⟩
  · intro hfew hl hallocator hentry
    obtain ⟨u, hu, hidle⟩ := world_of_obeys_call hi
      (Entry.idle_call hl hallocator hentry (entry.arguments env info msg))
    rw [withWorld_injective (hu.symm.trans hv)] at hidle
    obtain ⟨-, fs, hfs, henter⟩ := hidle hfew
    have hjournal : v.host.journal = fs ++ vm.host.journal := congrArg Host.journal hfs
    -- the journal grew by one list of events, seen from the meter and from the host
    have heq : fs = es := List.append_cancel_right (hjournal.symm.trans hes)
    rw [heq] at hfs henter
    exact ⟨hfs, henter⟩

/-- Once it is said of a machine that is ready that nothing remains, nothing remains until a refill.
All that is run until then pays together no more than the counter still holds, and so does every
single call. -/
theorem leftovers_of_run (hphase : vm.phase = .ready) (hi : vm.instance? = some i)
    (hzero : vm.remainingGas = some 0) {ops : List Op} (hops : ∀ op ∈ ops, ¬ op.Refills) :
    ∃ (j : Instance) (es : Journal), (run vm ops).instance? = some j ∧ j.linked = i.linked ∧
      (run vm ops).remainingGas = some 0 ∧
      (run vm ops).host.journal = es ++ vm.host.journal ∧
      es.spent + j.guest.meter.points.toNat = i.guest.meter.points.toNat ∧
      ∀ entry env info msg, ∃ v es, CallWithin (run vm ops) j entry env info msg v es := by
  obtain ⟨u, hu, es, hes, haccounts, -⟩ := exists_world_run hphase hi hops
  have hnothing : i.guest.meter.remaining = 0 := by
    rw [remainingGas, hi] at hzero
    exact Option.some.inj hzero
  have hle : u.guest.meter.remaining ≤ i.guest.meter.remaining := haccounts.remaining_le
  rw [hnothing] at hle
  have hstays : (vm.withWorld i u).remainingGas = some 0 := by
    rw [remainingGas_withWorld, UInt64.le_zero_iff.mp hle]
  have hheld : (vm.withWorld i u).instance? = some { i with guest := u.guest } := rfl
  rw [hu]
  exact ⟨_, es, hheld, rfl, hstays, hes, haccounts.points, exists_callWithin hheld⟩

/-! ## Two guests of which it is said that nothing remains -/

theorem metered_meteredFunction {is : List Guest.Instr} (his : (Guest.Code.metered? is).isSome)
    (signature : Guest.Signature) :
    Guest.Code.metered? is = some (meteredFunction signature is).body := by
  obtain ⟨c, hc⟩ := Option.isSome_iff_exists.mp his
  rw [meteredFunction, hc, Option.getD_some]

theorem metered_meteredModule : meteredModule.Metered := by
  intro f hf
  simp only [meteredModule, List.mem_cons, List.not_mem_nil, or_false] at hf
  obtain rfl | rfl | rfl | rfl | rfl | rfl := hf <;>
    exact ⟨_, metered_meteredFunction (by decide) _⟩

/-- A machine that had thirteen points when a call asked for a thousand. Seven are left. -/
def stoppedVm : Vm := after (meteredVm 13) (blankCall .execute)

/-- After an allocation five of them are left. Then a query is refused before it writes. -/
theorem leftovers_of_stoppedVm :
    stoppedVm.phase = .ready ∧ stoppedVm.instance?.isSome ∧ stoppedVm.remainingGas = some 0 ∧
    ∃ vm', (call .query blankEnv blankInfo .null).run (run stoppedVm [.allocate 8]) =
        .error .gasExhausted vm' ∧
      vm'.host.backend = (run stoppedVm [.allocate 8]).host.backend := by
  obtain ⟨hphase, hzero, hlinked, hpoints, hevents⟩ :
      stoppedVm.phase = .ready ∧ stoppedVm.remainingGas = some 0 ∧
      stoppedVm.instance?.map Instance.linked =
        some ⟨meteredModule, [.dbWrite, .dbScan, .abort]⟩ ∧
      (run stoppedVm [.allocate 8]).instance?.map (fun i => i.guest.meter.points) = some 5 ∧
      (leaves ((call .query blankEnv blankInfo .null).run
          (run stoppedVm [.allocate 8]))).host.journal =
        [.exhausted 10, .calling "query" [64, 64], .charged 2, .charged 2] ++
          (run stoppedVm [.allocate 8]).host.journal := by decide +kernel
  have hops : ∀ op ∈ [Op.allocate 8], ¬ op.Refills := List.forall_mem_singleton.mpr id
  obtain ⟨i, hi, hlinked⟩ := Option.map_eq_some_iff.mp hlinked
  obtain ⟨j, es, hj, hjlinked, -, -, -, hcalls⟩ := leftovers_of_run hphase hi hzero hops
  obtain ⟨v, fs, hcall⟩ := hcalls .query blankEnv blankInfo .null
  rw [hj, Option.map_some, Option.some_inj] at hpoints
  rw [hcall.leaves_eq] at hevents
  -- the events tell that the check in front of the write failed
  have hfs : fs = [.exhausted 10, .calling "query" [64, 64], .charged 2, .charged 2] :=
    List.append_cancel_right (hcall.journal.symm.trans hevents)
  have hfew : j.guest.meter.points.toNat < 10 := by
    rw [hpoints]
    decide
  have hrun := hcall.exhausts 10 hfew (.inr (hfs ▸ List.mem_cons_self))
  -- allocator and query are the guest's own functions, behind its three imports
  have howns (name : String) (f : Nat) (hf : meteredModule.exportedFunction? name = some f)
      (hle : 3 ≤ f) : j.linked.Owns name := by
    intro f' hf'
    rw [hjlinked, hlinked] at hf' ⊢
    cases hf.symm.trans hf'
    exact hle
  have hmetered : j.linked.module.Metered := by
    rw [hjlinked, hlinked]
    exact metered_meteredModule
  obtain ⟨hhost, -⟩ := hcall.idle hfew hmetered
    (howns _ 3 (by decide) (by decide)) (howns _ 5 (by decide) (by decide))
  have hbackend {h h' : Host} {journal : Journal} (hh : h = { h' with journal }) :
      h.backend = h'.backend := by rw [hh]
  exact ⟨hphase, Option.isSome_of_mem hi, hzero, _, hrun, hbackend hhost⟩

/-- A machine that had five hundred points when a call asked for a thousand still pays for a query,
which writes to the database and succeeds, though nothing is said to remain. -/
theorem exhausted_query_writes :
    (after (meteredVm 500) (blankCall .execute)).phase = .ready ∧
    (after (meteredVm 500) (blankCall .execute)).remainingGas = some 0 ∧
    (after (meteredVm 500) (blankCall .execute)).host.store.get? [0x61] = none ∧
    fault? ((call .query blankEnv blankInfo .null).run
      (after (meteredVm 500) (blankCall .execute))) = none ∧
    (run (meteredVm 500) [blankCall .execute, blankCall .query]).host.store.get? [0x61] =
      some [0x61] := by
  decide +kernel

end Vm

end ContractHost
