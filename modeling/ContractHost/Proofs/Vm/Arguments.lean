import Mathlib.Data.List.Forall2
import ContractHost.Proofs.Host.Access
import ContractHost.Proofs.Vm.Exhaustion
import ContractHost.Proofs.Vm.Faults

/-!
# The arguments of an entry point

Every argument is copied into a region of its own: the guest's allocator runs, and the host writes
the bytes into the buffer and their number into the descriptor. Either of these steps could damage
the arguments that are in place by then. None does if the allocator is careful, which is asked of it
argument by argument, along the run that there is (`Careful`): it hands out a region that is apart
from those before and leaves those alone (`Allots`).

One argument is placed by `exists_place`, and all of them by `exists_placed`. So the function of the
entry point finds behind its pointers what it was called with (`call_delivers`).
-/

namespace ContractHost

open Guest (Linked Memory Module Region Span Trap Value ValueType)
open Guest.Region (Holds)

/-- An entry point takes a pointer for each of its arguments. -/
def EntryPoint.params (e : EntryPoint) : List ValueType :=
  if e.takesInfo then [.i32, .i32, .i32] else [.i32, .i32]

/-- An entry point takes a pointer for every argument. -/
theorem EntryPoint.params_eq (e : EntryPoint) (env : Env) (info : MessageInfo) (msg : Json.Value) :
    e.params = (e.arguments env info msg).map fun _ => .i32 := by
  cases e <;> rfl

namespace Entry

/-! ## Careful allocators -/

/-- An allocator that was asked for a size while some regions were `held` made memory `m` into
`m'` and handed out a region: it has the room that was asked for, lies inside the memory, and shares
no address with those regions, which were left alone. -/
structure Allots (held : List Region) (size : Nat) (m m' : Memory) (r : Region) : Prop where
  room : size ≤ r.capacity.toNat
  inside : m'.covers r.offset.toNat r.capacity.toNat = true
  clear : r.descriptorSpan.Apart r.bufferSpan
  apart : ∀ h ∈ held, h.Apart r
  kept : ∀ h ∈ held, h.Kept m m'

instance decidableAllots (held : List Region) (size : Nat) (m m' : Memory) (r : Region) :
    Decidable (Allots held size m m' r) :=
  decidable_of_iff ((size ≤ r.capacity.toNat ∧
      m'.covers r.offset.toNat r.capacity.toNat = true ∧ r.descriptorSpan.Apart r.bufferSpan) ∧
      (∀ h ∈ held, h.Apart r) ∧ ∀ h ∈ held, h.Kept m m') (by
    constructor
    · intro ⟨⟨room, inside, clear⟩, apart, kept⟩
      exact ⟨room, inside, clear, apart, kept⟩
    · intro h
      exact ⟨⟨h.room, h.inside, h.clear⟩, h.apart, h.kept⟩)

/-- While arguments are placed one after the other, the guest always hands out a region, and never
at the cost of those that are `held`, to which it is added. -/
def Careful (l : Linked) (held : List Region) : List Bytes → World → Prop
  | [], _ => True
  | arg :: args, w => ∃ r v, (l.access.newRegion arg.length).run w = .ok r v ∧
      Allots held arg.length w.guest.memory v.guest.memory r ∧
      ∀ r' u, (l.access.write r arg).run v = .ok r' u → Careful l (r' :: held) args u

variable {l : Linked} {held : List Region} {args : List Bytes} {arg : Bytes} {w v u : World}

instance decidableCareful (l : Linked) (held : List Region) :
    (args : List Bytes) → (w : World) → Decidable (Careful l held args w)
  | [], _ => .isTrue trivial
  | arg :: args, w =>
    match hnew : (l.access.newRegion arg.length).run w with
    | .error _ _ => .isFalse (by
        rintro ⟨_, _, hok, -⟩
        cases hnew.symm.trans hok)
    | .ok r v =>
      match hwrite : (l.access.write r arg).run v with
      | .error _ _ =>
        decidable_of_iff (Allots held arg.length w.guest.memory v.guest.memory r) (by
          constructor
          · intro h
            refine ⟨r, v, hnew, h, fun _ _ hok => ?_⟩
            cases hwrite.symm.trans hok
          · rintro ⟨_, _, hok, h, -⟩
            cases hnew.symm.trans hok
            exact h)
      | .ok r' u =>
        have := decidableCareful l (r' :: held) args u
        decidable_of_iff (Allots held arg.length w.guest.memory v.guest.memory r ∧
            Careful l (r' :: held) args u) (by
          constructor
          · intro ⟨h, hrest⟩
            refine ⟨r, v, hnew, h, fun _ _ hok => ?_⟩
            cases hwrite.symm.trans hok
            exact hrest
          · rintro ⟨_, _, hok, h, hrest⟩
            cases hnew.symm.trans hok
            exact ⟨h, hrest _ _ hwrite⟩)

/-! ## Placing arguments -/

/-- An argument is placed where the region is that was handed out for it. -/
theorem run_place_of_ok {r : Region} (h : (l.access.newBytes arg).run w = .ok r u) :
    (place l arg).run w = .ok r.ptr u := by
  rw [place, serve, run_orExhausted_adaptExcept, run_bind_of_ok h]
  rfl

/-- An argument that is placed into a region handed out with care is in that region then, and what
was held is still. -/
theorem exists_place {r : Region} (hnew : (l.access.newRegion arg.length).run w = .ok r v)
    (hallots : Allots held arg.length w.guest.memory v.guest.memory r) :
    ∃ r' u, (l.access.write r arg).run v = .ok r' u ∧ (place l arg).run w = .ok r'.ptr u ∧
      Holds u.guest.memory r' arg ∧
      ∀ h ∈ held, ∀ data, Holds w.guest.memory h data → Holds u.guest.memory h data := by
  obtain ⟨-, -, m, hm, hload⟩ := Access.run_newRegion_eq_ok.mp hnew
  obtain rfl : v.guest.memory = m := Except.ok.inj hm
  obtain ⟨m', hwrite⟩ := Region.exists_write hload hallots.room
    (Memory.covers_of_le hallots.inside hallots.room)
  have hrun : (l.access.write r arg).run v =
      .ok { r with length := UInt32.ofNat arg.length } (v.setMemory m') :=
    Access.run_write_eq_ok.mpr ⟨_, m', rfl, hwrite, rfl⟩
  refine ⟨_, _, hrun, ?_, ?_, ?_⟩
  · exact run_place_of_ok (Access.run_newBytes_eq_ok.mpr ⟨r, v, hnew, hrun⟩)
  · -- the bytes do not go over the region's own descriptor
    have hdata : Span.Within ⟨r.offset.toNat, arg.length⟩ r.bufferSpan :=
      ⟨Nat.le_refl _, Nat.add_le_add_left hallots.room _⟩
    exact Region.holds_of_write hload hwrite (hallots.clear.mono (.refl _) hdata)
  · -- neither the allocator nor the write went over what was held
    intro h hh data hholds
    obtain ⟨-, bs, -, -, hcheck⟩ := Region.load_eq_ok.mp hholds.load
    have hlength : h.length ≤ h.capacity := (Region.check_eq_ok.mp hcheck).2.1
    have hkept := Region.kept_of_write hwrite (hallots.apart h hh) hlength
    exact (hholds.of_kept (hallots.kept h hh)).of_kept hkept

/-- All arguments are placed, and in the end each can be read behind its pointer. The induction is
over the arguments, with what is held as the invariant. -/
theorem exists_placed (hcareful : Careful l held args w) :
    ∃ pointers v, (args.mapM (place l)).run w = .ok pointers v ∧
      List.Forall₂ (fun ptr arg => ∃ r : Region, r.ptr = ptr ∧ Holds v.guest.memory r arg)
        pointers args ∧
      ∀ h ∈ held, ∀ data, Holds w.guest.memory h data → Holds v.guest.memory h data := by
  induction args generalizing held w with
  | nil => exact ⟨[], w, rfl, .nil, fun _ _ _ hholds => hholds⟩
  | cons arg args ih =>
    obtain ⟨r, v, hnew, hallots, hrest⟩ := hcareful
    obtain ⟨r', u, hwrite, hplace, hholds, hheld⟩ := exists_place hnew hallots
    obtain ⟨pointers, t, hplaced, hreads, hstill⟩ := ih (hrest r' u hwrite)
    have hfirst : Holds t.guest.memory r' arg := hstill r' List.mem_cons_self arg hholds
    refine ⟨r'.ptr :: pointers, t, ?_, .cons ⟨r', rfl, hfirst⟩ hreads, ?_⟩
    · rw [List.mapM_cons, run_bind_of_ok hplace, run_bind_of_ok hplaced]
      rfl
    · intro h hh data hdata
      exact hstill h (List.mem_cons_of_mem r' hh) data (hheld h hh data hdata)

/-! ## The call behind them -/

/-- What the call of an entry point comes to, given how its function ends. -/
def answer (name : String) :
    EStateM.Result Trap World (List Value) → EStateM.Result VmError World UInt32
  | .ok results u => (result name results).run u
  | .error t u => .error (told (.ofTrap t) u) u

/-- Once the arguments are placed, the call is one run of the function on their pointers. -/
theorem run_call_of_placed (name : String) {f : Nat} {pointers : List UInt32}
    (hplaced : (args.mapM (place l)).run w = .ok pointers v)
    (hexported : l.module.exportedFunction? name = some f)
    (hparams : (l.module.signature? f).map (·.params) = some (pointers.map fun _ => .i32)) :
    (call l name args).run w = answer name
      ((Guest.run l true f (pointers.map .i32)).run (v.noting (.calling name pointers))) := by
  obtain ⟨signature, hsignature, hfits⟩ := Option.map_eq_some_iff.mp hparams
  have hrunOn : runOn l f pointers = Guest.run l true f (pointers.map .i32) := by
    simp only [runOn, hsignature, if_pos hfits]
  unfold call
  rw [run_bind_of_ok hplaced, run_bind_of_ok (World.run_note _ _)]
  simp only [hexported, hrunOn, EStateM.run_bind, run_orExhausted_adaptExcept]
  cases (Guest.run l true f (pointers.map .i32)).run (v.noting (.calling name pointers)) with
  | ok results u => rfl
  | error t u => rfl

/-- The answer of a function that ran is looked at, and nothing else is done. -/
theorem left_answer (name : String) (r : EStateM.Result Trap World (List Value)) :
    left (answer name r) = left r := by
  cases r with
  | error t u => rfl
  | ok results u =>
    rcases result_cases name results u with ⟨ptr, h⟩ | ⟨e, h⟩
    · rw [answer, h]
      rfl
    · rw [answer, h]
      rfl

end Entry

namespace Vm

variable {vm : Vm} {i : Instance} {name : String} {args : List Bytes} {f : Nat}

/-- What a machine makes of the call of an entry point on its guest. -/
def receive (vm : Vm) (i : Instance) :
    EStateM.Result VmError World UInt32 → EStateM.Result VmError Vm Region
  | .ok ptr u => .ok { ptr } (vm.withWorld i u)
  | .error e u => .error e (vm.withWorld i u)

theorem leaves_receive (r : EStateM.Result VmError World UInt32) :
    leaves (receive vm i r) = vm.withWorld i (left r) := by
  cases r with
  | ok ptr u => rfl
  | error e u => rfl

/-- No entry point is called among events. -/
def NoCalls (es : Journal) : Prop := ∀ name pointers, .calling name pointers ∉ es

/-- The call of an entry point ran its function `f` exactly once, on one pointer for each of its
arguments, from a world `b` in which every argument could be read behind its pointer; and it
answered what the function came to. -/
structure Delivers (vm : Vm) (i : Instance) (name : String) (args : List Bytes) (f : Nat)
    (pointers : List UInt32) (b : World) (r : EStateM.Result VmError Vm Region) : Prop where
  placed : ∃ v, (args.mapM (Entry.place i.linked)).run ⟨vm.host, i.guest⟩ = .ok pointers v ∧
    v.noting (.calling name pointers) = b
  reads : List.Forall₂ (fun ptr arg => (Service.bytesAt i.linked.access ptr).run b = .ok arg b)
    pointers args
  answers : r = receive vm i
    (Entry.answer name ((Guest.run i.linked true f (pointers.map .i32)).run b))
  once : ∃ es fs, (leaves r).host.journal =
    fs ++ .calling name pointers :: (es ++ vm.host.journal) ∧ NoCalls es ∧ NoCalls fs

/-- The guest's own run enters no call of an entry point. -/
theorem moves_run (l : Linked) (f : Nat) (args : List Value) :
    Moves (InvImage Host.Nests World.host) (Guest.run l true f args) := by
  refine (Guest.conforms_run f args).moves fun hruns => ?_
  obtain ⟨es, hes, hnested, -⟩ := hruns.exists_events
  exact ⟨es, hes, hnested⟩

/-- A guest whose allocator hands out regions apart from one another gets all arguments. -/
theorem delivers_of_careful (hexported : i.linked.module.exportedFunction? name = some f)
    (hparams : (i.linked.module.signature? f).map (·.params) = some (args.map fun _ => .i32))
    (hcareful : Entry.Careful i.linked [] args ⟨vm.host, i.guest⟩) :
    ∃ pointers b, Delivers vm i name args f pointers b
      (receive vm i ((Entry.call i.linked name args).run ⟨vm.host, i.guest⟩)) := by
  obtain ⟨pointers, v, hplaced, hreads, -⟩ := Entry.exists_placed hcareful
  -- there are as many pointers as arguments, so the function takes them
  have hlength : args.map (fun _ => ValueType.i32) = pointers.map fun _ => .i32 := by
    rw [List.map_const', List.map_const', hreads.length_eq]
  rw [hlength] at hparams
  have hcall := Entry.run_call_of_placed name hplaced hexported hparams
  refine ⟨pointers, _, ⟨v, hplaced, rfl⟩, ?_, by rw [hcall], ?_⟩
  · refine hreads.imp fun ptr arg hholds => ?_
    obtain ⟨r, hptr, hholds⟩ := hholds
    exact Service.run_bytesAt_eq_ok.mpr ⟨⟨_, r, rfl, hptr, hholds⟩, rfl⟩
  · obtain ⟨es, hes, hplacing⟩ := (Entry.moves_placing i.linked args).of_ok hplaced
    obtain ⟨fs, hfs, hrun⟩ := left_of_moves (moves_run i.linked f (pointers.map .i32))
      (v.noting (.calling name pointers))
    refine ⟨es, fs, ?_, fun _ _ => hplacing.notCalling, fun _ _ => hrun.notCalling⟩
    rw [hcall, leaves_receive, Entry.left_answer]
    refine hfs.trans ?_
    rw [World.noting, Host.noting, hes]

/-- A guest whose allocator hands out regions one behind the other, each with its buffer right
behind its descriptor. Executing answers the second of the arguments. -/
def bumpingModule : Module where
  functions := [
    ⟨Module.allocateSignature, [.i32],
      .op (.globalGet 0) (.op (.localSet 1)
      -- the offset of the buffer, its capacity and its length
      (.op (.localGet 1) (.op (.localGet 1) (.op (.i32Const 12) (.op .i32Add (.op (.i32Store 0)
      (.op (.localGet 1) (.op (.localGet 0) (.op (.i32Store 4)
      (.op (.localGet 1) (.op (.i32Const 0) (.op (.i32Store 8)
      -- the next region
      (.op (.localGet 1) (.op (.i32Const 12) (.op .i32Add (.op (.localGet 0) (.op .i32Add
      (.op (.globalSet 0) (.op (.localGet 1) .done)))))))))))))))))))⟩,
    ⟨Module.deallocateSignature, [], .done⟩,
    ⟨⟨[.i32, .i32, .i32], [.i32]⟩, [], .op (.localGet 1) .done⟩]
  memory := some { pages := 1, addressable := Guest.addressable_one }
  globals := [.i32 64]
  exports := [(Module.memoryName, .memory), (Module.allocateName, .function 0),
    (Module.deallocateName, .function 1), (EntryPoint.execute.name, .function 2)]

/-- A machine with that guest. -/
def bumpingVm : Vm := run (new {} {}) [.build (.ok bumpingModule)]

end Vm

end ContractHost
