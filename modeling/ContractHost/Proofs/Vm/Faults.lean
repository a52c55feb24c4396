import Mathlib.Data.List.Basic
import ContractHost.Proofs.Guest.Unwinding
import ContractHost.Proofs.Vm.Operations

/-!
# What an embedder sees of a failed host function

An entry-point call places its arguments, notes that it calls, and has the guest run
(`Entry.call_cases`). If a host function fails that the guest's own code called, the run is over
with that failure, so the call is over too: it leaves the world as the host function did, and it
answers the failure in the embedder's words, or that gas is exhausted if no points are left
(`call_of_failed`). The machine stays ready.
-/

namespace ContractHost

open Guest (Linked Runs Value)

/-! ## Kinds of failures -/

/-- All failures of a computation are of a kind. -/
def FailsOnly {ε σ α : Type} (P : ε → Prop) (x : EStateM ε σ α) : Prop :=
  ∀ (s : σ) (e : ε) (t : σ), x.run s = .error e t → P e

namespace FailsOnly

variable {ε ε' σ α β : Type} {P : ε → Prop}

protected theorem pure (a : α) : FailsOnly P (pure a : EStateM ε σ α) := by
  intro s e t h
  cases h

protected theorem throw {e : ε} (he : P e) : FailsOnly P (throw e : EStateM ε σ α) := by
  intro s e' t h
  cases h
  exact he

protected theorem bind {x : EStateM ε σ α} {f : α → EStateM ε σ β} (hx : FailsOnly P x)
    (hf : ∀ a, FailsOnly P (f a)) : FailsOnly P (x >>= f) := by
  intro s e t h
  rw [EStateM.run_bind] at h
  cases hrun : x.run s with
  | ok a t' =>
    rw [hrun] at h
    exact hf a t' e t h
  | error e' t' =>
    rw [hrun] at h
    cases h
    exact hx s e t hrun

/-- Failures on a list are those on its elements. -/
protected theorem mapM {f : α → EStateM ε σ β} (hf : ∀ a, FailsOnly P (f a)) (as : List α) :
    FailsOnly P (as.mapM f) := by
  induction as with
  | nil =>
    rw [List.mapM_nil]
    exact FailsOnly.pure []
  | cons a as ih =>
    rw [List.mapM_cons]
    exact (hf a).bind fun b => ih.bind fun bs => FailsOnly.pure (b :: bs)

/-- Failures are of a kind if they are told so. -/
theorem adaptExcept {f : ε' → ε} (hf : ∀ e, P (f e)) (x : EStateM ε' σ α) :
    FailsOnly P (EStateM.adaptExcept f x) := by
  intro s e t h
  simp only [EStateM.run, EStateM.adaptExcept] at h
  cases hrun : x s with
  | ok a t' =>
    rw [hrun] at h
    cases h
  | error e' t' =>
    rw [hrun] at h
    cases h
    exact hf e'

end FailsOnly

namespace Entry

/-- Exhausted gas is the one failure that comes on top. -/
theorem failsOnly_orExhausted {α : Type} {P : VmError → Prop} (hgas : P .gasExhausted)
    {x : EmbedM α} (hx : FailsOnly P x) : FailsOnly P (orExhausted x) := by
  intro s e t h
  simp only [EStateM.run, orExhausted] at h
  cases hrun : x s with
  | ok a t' =>
    rw [hrun] at h
    cases h
  | error e' t' =>
    rw [hrun] at h
    cases h
    split
    · exact hgas
    · exact hx s e' t hrun

/-- The call of an entry point never says that the machine is not ready. -/
theorem call_ne_notReady (l : Linked) (name : String) (args : List Bytes) :
    FailsOnly (· ≠ .notReady) (call l name args) := by
  have hgas : VmError.gasExhausted ≠ .notReady := nofun
  have hfault : ∀ e, VmError.ofHostFault e ≠ .notReady := by
    intro e
    cases e <;> exact nofun
  have htrap : ∀ t, VmError.ofTrap t ≠ .notReady := by
    intro t
    cases t with
    | host e => exact hfault e
    | _ => exact nofun
  have hplace (arg : Bytes) : FailsOnly (· ≠ .notReady) (place l arg) := by
    refine failsOnly_orExhausted hgas (FailsOnly.adaptExcept ?_ _)
    exact hfault
  -- the parts of a call in their order: the arguments, the note, the function, its result
  refine (FailsOnly.mapM hplace args).bind fun pointers => ?_
  have hnote : FailsOnly (· ≠ .notReady) (World.note (.calling name pointers) : EmbedM Unit) := by
    intro s e t h
    cases h
  refine hnote.bind fun _ => ?_
  split
  · exact FailsOnly.throw nofun
  · refine (failsOnly_orExhausted hgas (FailsOnly.adaptExcept ?_ _)).bind fun results => ?_
    · exact htrap
    · unfold result
      split
      · exact FailsOnly.pure _
      · exact FailsOnly.throw (htrap _)

/-! ## Calls -/

/-- How the run of an entry point's function is answered. -/
theorem run_orExhausted_ofTrap {α : Type} (x : Guest.RunM α) (w : World) :
    (orExhausted (EStateM.adaptExcept VmError.ofTrap x)).run w = match x.run w with
      | .ok a u => .ok a u
      | .error t u =>
        .error (if u.guest.meter.remaining = 0 then .gasExhausted else .ofTrap t) u := by
  simp only [EStateM.run, orExhausted, EStateM.adaptExcept]
  cases x w with
  | ok a u => rfl
  | error t u => rfl

/-- A result is told to be no pointer without the world being touched. -/
theorem result_cases (name : String) (results : List Value) (w : World) :
    (∃ a, (result name results).run w = .ok a w) ∨
      ∃ e, (result name results).run w = .error e w := by
  unfold result
  split
  · exact .inl ⟨_, rfl⟩
  · exact .inr ⟨_, rfl⟩

/-- No entry point is called while arguments are placed. -/
theorem moves_placing (l : Linked) (args : List Bytes) :
    Moves (InvImage Host.Nests World.host) (args.mapM (place l)) := by
  refine Moves.compositional.mapM (moves_place fun hruns => ?_) args
  obtain ⟨es, hes, hnested, -⟩ := hruns.exists_events
  exact ⟨es, hes, hnested⟩

/-- What an entry-point call does. Placing its arguments may fail; otherwise it notes the call and
the guest runs, and a run that a host function's failure ended is answered with that failure. -/
theorem call_cases (l : Linked) (name : String) (args : List Bytes) (w : World) :
    (∃ e, ∃ v : World, (call l name args).run w = .error e v ∧ w.host.Nests v.host) ∨
    ∃ (pointers : List UInt32) (v : World) (o : Option Guest.Trap) (u : World),
      w.host.Nests v.host ∧
      Runs l true .guest (v.noting (.calling name pointers)) o u ∧
      ((∃ a, (call l name args).run w = .ok a u) ∨ ∃ e, (call l name args).run w = .error e u) ∧
      ∀ e, o = some (.host e) → (call l name args).run w =
        .error (if u.guest.meter.remaining = 0 then .gasExhausted else .ofHostFault e) u := by
  unfold call
  simp only [EStateM.run_bind]
  -- until the arguments are placed only the guest's allocator has run
  cases hplaced : (args.mapM (place l)).run w with
  | error e v => exact .inl ⟨e, v, rfl, (moves_placing l args).of_error hplaced⟩
  | ok pointers v =>
    refine .inr ⟨pointers, v, ?_⟩
    have hnests : w.host.Nests v.host := (moves_placing l args).of_ok hplaced
    simp only [World.run_note]
    cases l.module.exportedFunction? name with
    | none => exact ⟨none, _, hnests, .done, .inr ⟨_, rfl⟩, nofun⟩
    | some f =>
      have hconforms := conforms_runOn (l := l) f pointers
      simp only [EStateM.run_bind, run_orExhausted_ofTrap]
      cases hrun : (runOn l f pointers).run (v.noting (.calling name pointers)) with
      | ok results u =>
        exact ⟨none, u, hnests, hconforms.of_ok hrun, result_cases name results u, nofun⟩
      | error t u =>
        refine ⟨some t, u, hnests, hconforms.of_error hrun, .inr ⟨_, rfl⟩, ?_⟩
        intro e he
        cases he
        rfl

end Entry

namespace Vm

/-- The error in which an embedder is told of a host function's failure. -/
inductive Carries : HostFault → VmError → Prop where
  | validation (e : ValidationFault) : Carries (.validation e) (.validation e)
  | aborted (text : String) : Carries (.aborted text) (.guestAbort text)
  | backend (e : BackendError) : Carries (.backend e) (.backend e)
  | memory (e : Guest.MemoryFault) : Carries (.memory e) (.memory e)
  | runtime (causes : List String) :
    Carries (.runtime causes) (.runtime (": ".intercalate causes))

/-- A failure of the host is told with all that it says. -/
theorem carries_ofHostFault (e : HostFault) : Carries e (.ofHostFault e) := by
  cases e with
  | validation e => exact .validation e
  | aborted text => exact .aborted text
  | backend e => exact .backend e
  | memory e => exact .memory e
  | runtime causes => exact .runtime causes

variable {vm : Vm} {i : Instance}

/-- A machine that is ready serves entry-point calls. -/
theorem call_ne_notReady_of_ready (hvm : vm.Consistent) (hphase : vm.phase = .ready)
    (e : EntryPoint) (env : Env) (info : MessageInfo) (msg : Json.Value) (vm' : Vm) :
    (call e env info msg).run vm ≠ .error .notReady vm' := by
  obtain ⟨i, hi⟩ := Option.isSome_iff_exists.mp (hvm.mp hphase)
  rw [run_call hi]
  intro h
  cases hrun : (Entry.call i.linked e.name (e.arguments env info msg)).run ⟨vm.host, i.guest⟩ with
  | ok ptr w =>
    rw [hrun] at h
    cases h
  | error err w =>
    rw [hrun] at h
    cases h
    exact Entry.call_ne_notReady _ _ _ _ _ _ hrun rfl

/-- If a host function that the guest's own code called failed behind the call of an entry point,
nothing was done behind that, and the call answered that failure. -/
theorem run_call_of_failed (hi : vm.instance? = some i) {entry : EntryPoint} {env : Env}
    {info : MessageInfo} {msg : Json.Value} {later since before : Journal}
    {pointers : List UInt32} {f : HostFunction} {e : HostFault}
    (hjournal : (leaves ((call entry env info msg).run vm)).host.journal =
      later ++ .failed f e ::
        (since ++ .calling entry.name pointers :: (before ++ vm.host.journal)))
    (hcaller : since.atWork 0 = 1) :
    later = [] ∧ ∃ u : World,
      (call entry env info msg).run vm =
        .error (if u.guest.meter.remaining = 0 then .gasExhausted else .ofHostFault e)
          (vm.withWorld i u) ∧
      ∃ fuel args w, (Service.serve (Guest.access i.linked true (Guest.invoke i.linked true fuel))
        f args).run w = .error e u := by
  rw [run_call hi] at hjournal ⊢
  obtain ⟨err, v, hrun, es, hes, hnested⟩ |
      ⟨ptrs, v, o, u, ⟨bs, hbs, hplaced⟩, hruns, hleaves, hend⟩ :=
    Entry.call_cases i.linked entry.name (entry.arguments env info msg) ⟨vm.host, i.guest⟩
  · -- the arguments were not placed, so no call was noted
    rw [hrun] at hjournal
    have heq : es = later ++ .failed f e :: (since ++ .calling entry.name pointers :: before) := by
      refine (List.append_left_inj vm.host.journal).mp (hes.symm.trans (hjournal.trans ?_))
      simp only [List.append_assoc, List.cons_append]
    have hcalling : .calling entry.name pointers ∈ es := by
      rw [heq]
      exact List.mem_append_right _ (List.mem_cons_of_mem _ (List.mem_append_right _
        List.mem_cons_self))
    exact absurd hcalling hnested.notCalling
  · obtain ⟨es, hes, hnested, hunwinds⟩ := hruns.exists_events
    have hu : u.host.journal = later ++ .failed f e ::
        (since ++ .calling entry.name pointers :: (before ++ vm.host.journal)) := by
      obtain ⟨a, hrun⟩ | ⟨err, hrun⟩ := hleaves
      · rw [hrun] at hjournal
        exact hjournal
      · rw [hrun] at hjournal
        exact hjournal
    -- the call is noted once, so what stands behind it are the events of the run
    have heq : es ++ .calling entry.name ptrs :: bs =
        (later ++ .failed f e :: since) ++ .calling entry.name pointers :: before := by
      refine (List.append_left_inj vm.host.journal).mp ?_
      calc es ++ .calling entry.name ptrs :: bs ++ vm.host.journal
        _ = u.host.journal := by
          rw [hes, World.noting, Host.noting, hbs]
          simp only [List.append_assoc, List.cons_append]
        _ = _ := by
          rw [hu]
          simp only [List.append_assoc, List.cons_append]
    obtain ⟨rfl, -, -⟩ :=
      (List.append_cons_inj_of_notMem hnested.notCalling hplaced.notCalling).mp heq
    obtain ⟨hlast, rfl, hserved⟩ := hunwinds rfl f e since (List.suffix_append later _) hcaller
    have hlater : later = [] := List.append_left_eq_self.mp hlast
    refine ⟨hlater, u, ?_, hserved⟩
    rw [hend e rfl]

/-- A host function `f` failed with `e` behind the call of an entry point, as the only host function
at work: the guest's own code had called it. Then nothing was done behind it, so the world after the
call is the one that `f` left. The call answers the failure in the embedder's words, or that gas is
exhausted if no points remain. The machine is ready afterwards, and whatever is done with it then,
it goes on serving entry-point calls. -/
theorem call_of_failed (hphase : vm.phase = .ready) (hi : vm.instance? = some i)
    {entry : EntryPoint} {env : Env} {info : MessageInfo} {msg : Json.Value}
    {later since before : Journal} {pointers : List UInt32} {f : HostFunction} {e : HostFault}
    (hjournal : (after vm (.call entry env info (some msg))).host.journal =
      later ++ .failed f e ::
        (since ++ .calling entry.name pointers :: (before ++ vm.host.journal)))
    (hcaller : since.atWork 0 = 1) :
    later = [] ∧ ∃ (u : World) (err : VmError),
      (call entry env info msg).run vm = .error err (vm.withWorld i u) ∧
      (∃ fuel args w, (Service.serve (Guest.access i.linked true (Guest.invoke i.linked true fuel))
        f args).run w = .error e u) ∧
      ((vm.withWorld i u).remainingGas = some 0 → err = .gasExhausted) ∧
      ((vm.withWorld i u).remainingGas ≠ some 0 → Carries e err) ∧
      ∀ ops, (run (vm.withWorld i u) ops).phase = .ready ∧ ∀ entry env info msg vm',
        (call entry env info msg).run (run (vm.withWorld i u) ops) ≠ .error .notReady vm' := by
  rw [after_call] at hjournal
  obtain ⟨hlater, u, hrun, hserved⟩ := run_call_of_failed hi hjournal hcaller
  have hready : (vm.withWorld i u).phase = .ready := hphase
  have hconsistent : (vm.withWorld i u).Consistent := iff_of_true hready rfl
  -- what the embedder reads as remaining is the guest's own meter
  have hgas : (vm.withWorld i u).remainingGas = some 0 ↔ u.guest.meter.remaining = 0 :=
    Option.some_inj
  refine ⟨hlater, u, _, hrun, hserved, fun hnone => ?_, fun hsome => ?_, fun ops => ?_⟩
  · rw [if_pos (hgas.mp hnone)]
  · rw [if_neg (mt hgas.mpr hsome)]
    exact carries_ofHostFault e
  · have hready' := phase_run_of_ready hconsistent hready ops
    exact ⟨hready', call_ne_notReady_of_ready (consistent_run hconsistent ops) hready'⟩

/-- A machine whose guest aborts every query. -/
def abortingVm : Vm := run (new {} {}) [.build (.ok abortingModule)]

/-- A query is aborted, the abort being the second call of a host function. -/
theorem call_of_failed_abort :
    abortingVm.phase = .ready ∧ abortingVm.instance?.isSome ∧
    (after abortingVm (.call .query blankEnv blankInfo (some .null))).host.journal =
      [] ++ .failed .abort (.aborted "ab") :: ([.aborting "ab", .entered .abort, .returned .dbWrite,
        .wrote [0x61] [0x61, 0x62], .entered .dbWrite] ++
          .calling "query" [64, 64] :: ([] ++ abortingVm.host.journal)) ∧
    ∃ vm', (call .query blankEnv blankInfo .null).run abortingVm =
        .error (.guestAbort "ab") vm' ∧
      ∀ ops, (run vm' ops).phase = .ready := by
  have hphase : abortingVm.phase = .ready := by decide +kernel
  have hsome : abortingVm.instance?.isSome := by decide +kernel
  have hjournal : (after abortingVm (.call .query blankEnv blankInfo (some .null))).host.journal =
      [] ++ .failed .abort (.aborted "ab") :: ([.aborting "ab", .entered .abort, .returned .dbWrite,
        .wrote [0x61] [0x61, 0x62], .entered .dbWrite] ++
          .calling "query" [64, 64] :: ([] ++ abortingVm.host.journal)) := by decide +kernel
  have hgas : (leaves ((call .query blankEnv blankInfo .null).run abortingVm)).remainingGas ≠
      some 0 := by decide +kernel
  obtain ⟨i, hi⟩ := Option.isSome_iff_exists.mp hsome
  obtain ⟨-, u, err, hrun, -, -, hcarries, hready⟩ := call_of_failed hphase hi hjournal rfl
  rw [hrun] at hgas
  cases hcarries hgas
  exact ⟨hphase, hsome, hjournal, _, hrun, fun ops => (hready ops).1⟩

end Vm

end ContractHost
