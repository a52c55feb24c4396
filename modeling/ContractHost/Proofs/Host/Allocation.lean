import ContractHost.Proofs.Host.Regions

/-!
# Bytes in regions that a guest hands out

The host asks the guest for a region and believes nothing of the answer: it loads what is behind the
pointer and writes only what fits and goes inside the memory. `HasRoom` says of the words behind a
pointer when that is so, and `run_put_cases` that then the bytes are in place, and that nothing was
touched otherwise.

`requested?` is what the guest's allocator does when it is asked. It is any function of the guest,
so it may trap, answer anything, and leave any memory behind. `NewBytes` tells the four things that
may come of it, and `newBytes_of_any_allocator` what the host has then.
-/

namespace ContractHost

open Guest (Memory Region)

/-! ## Room behind a pointer -/

namespace Guest.Region

variable {m m' : Memory} {ptr : UInt32} {r r' : Region} {size : Nat} {data : Bytes}

/-- The words behind a pointer tell a region with room for so many bytes inside the memory. -/
structure HasRoom (m : Memory) (ptr : UInt32) (size : Nat) : Prop where
  pointer : ptr ≠ 0
  descriptor : ptr.toNat + 12 ≤ m.size
  offset : m.word ptr.toNat ≠ 0
  length : m.word (ptr.toNat + 8) ≤ m.word (ptr.toNat + 4)
  addresses : m.word ptr.toNat + m.word (ptr.toNat + 4) < UInt32.size
  capacity : size ≤ m.word (ptr.toNat + 4)
  inside : size = 0 ∨ m.word ptr.toNat + size ≤ m.size

/-- There is room if the region is loaded, has the capacity, and its bytes go inside the memory. -/
theorem hasRoom_iff : HasRoom m ptr size ↔ load m ptr = .ok (described m ptr) ∧
    size ≤ (described m ptr).capacity.toNat ∧
      (size = 0 ∨ (described m ptr).offset.toNat + size ≤ m.size) := by
  have hcapacity : (described m ptr).capacity.toNat = m.word (ptr.toNat + 4) :=
    m.toNat_ofNat_word _
  have hoffset : (described m ptr).offset.toNat = m.word ptr.toNat := m.toNat_ofNat_word _
  rw [hcapacity, hoffset, load_eq_ok_iff_described]
  constructor
  · intro h
    have hcheck : (described m ptr).check = .ok () :=
      check_described.mpr ⟨h.offset, h.length, h.addresses⟩
    exact ⟨⟨⟨h.pointer, h.descriptor⟩, rfl, hcheck⟩, h.capacity, h.inside⟩
  · rintro ⟨⟨⟨hptr, hdescriptor⟩, -, hcheck⟩, hfits, hinside⟩
    obtain ⟨hoffset, hlength, haddresses⟩ := check_described.mp hcheck
    exact ⟨hptr, hdescriptor, hoffset, hlength, haddresses, hfits, hinside⟩

/-- A region as the host answers it after bytes were put into it. -/
structure Carries (m : Memory) (r : Region) (data : Bytes) : Prop where
  pointer : r.ptr ≠ 0
  offset : r.offset ≠ 0
  addresses : r.offset.toNat + r.capacity.toNat < UInt32.size
  capacity : r.length ≤ r.capacity
  length : r.length.toNat = data.length
  inside : data ≠ [] → r.offset.toNat + data.length ≤ m.size

/-- Bytes that were written where there is room are carried. -/
theorem HasRoom.carries (h : HasRoom m ptr data.length)
    (hwrite : ((described m ptr).write data).run m = .ok r m') : Carries m' r data := by
  obtain ⟨hload, hfits, hinside⟩ := hasRoom_iff.mp h
  obtain ⟨hptr, -, -, -, hcheck⟩ := load_eq_ok.mp hload
  obtain ⟨hoffset, -, haddresses⟩ := check_eq_ok.mp hcheck
  obtain ⟨rfl, hlength, hmemory⟩ := written_of_write hwrite
  refine ⟨hptr, hoffset, haddresses, ?_, hlength, fun hdata => ?_⟩
  · rw [UInt32.le_iff_toNat_le, hlength]
    exact hfits
  · rw [hmemory.size]
    exact hinside.resolve_left fun hzero => hdata (List.length_eq_zero_iff.mp hzero)

/-- Nothing changes but the bytes and the word that tells their length. -/
theorem changesOnly_of_put (hwrite : ((described m ptr).write data).run m = .ok r m') :
    m.ChangesOnly (fun a => Span.Has ⟨r.offset.toNat, data.length⟩ a ∨
      Span.Has ⟨r.ptr.toNat + lengthOffset, 4⟩ a) m' := by
  obtain ⟨rfl, -, hmemory⟩ := written_of_write hwrite
  exact hmemory

/-- Bytes that were written where there is room, and not over the descriptor, are held. -/
theorem HasRoom.holds (h : HasRoom m ptr data.length)
    (hwrite : ((described m ptr).write data).run m = .ok r m')
    (hapart : r.descriptorSpan.Apart ⟨r.offset.toNat, data.length⟩) : Holds m' r data := by
  obtain ⟨hload, -⟩ := hasRoom_iff.mp h
  obtain ⟨rfl, -⟩ := written_of_write hwrite
  exact holds_of_write hload hwrite hapart

end Guest.Region

namespace Access

variable {σ : Type} {g : Access σ} {s : σ} {m : Memory}

/-- Bytes are put behind a pointer as a whole if there is room for them. Otherwise the failure is a
memory fault, and nothing has changed. -/
theorem run_put_cases (hg : g.Faithful) (hm : g.memory s = .ok m) (ptr : UInt32) (data : Bytes) :
    (Region.HasRoom m ptr data.length ∧
      ∃ r m', ((Region.described m ptr).write data).run m = .ok r m' ∧
        (g.region ptr >>= fun r => g.write r data).run s = .ok r (g.setMemory m' s)) ∨
    (¬ Region.HasRoom m ptr data.length ∧
      ∃ fault, (g.region ptr >>= fun r => g.write r data).run s = .error (.memory fault) s) := by
  rw [Region.hasRoom_iff, EStateM.run_bind, run_region hm]
  cases hload : Region.load m ptr with
  | error fault => exact .inr ⟨fun h => (nomatch h.1), fault, rfl⟩
  | ok r =>
    obtain ⟨-, rfl, -⟩ := Region.load_eq_ok_iff_described.mp hload
    rw [and_iff_right rfl, List.length_eq_zero_iff]
    show _ ∧ (∃ r m', _ ∧ (g.write (Region.described m ptr) data).run s = _) ∨
      _ ∧ ∃ fault, (g.write (Region.described m ptr) data).run s = _
    obtain ⟨hroom, r', m', hwrite, hrun⟩ | hnot := run_write_cases
      (r := Region.described m ptr) hg hm hload data
    · exact .inl ⟨hroom, r', m', hrun, hwrite⟩
    · exact .inr hnot

/-- A number of bytes that 32 bits hold is asked for, and the bytes are put behind the pointer that
comes back. -/
theorem run_newBytes {data : Bytes} (hsize : data.length < UInt32.size) :
    (g.newBytes data).run s = (g.allocate (UInt32.ofNat data.length) >>= fun ptr =>
      g.region ptr >>= fun r => g.write r data).run s := by
  rw [newBytes, newRegion, if_neg (Nat.not_le.mpr hsize), ← bind_assoc]

end Access

/-! ## Asking a guest -/

namespace Guest

/-- The function of the allocator's type that a guest exports under its name. -/
def Linked.allocator? (l : Linked) : Option Nat :=
  (l.module.exportedFunction? Module.allocateName).filter fun f =>
    l.module.signature? f = some Module.allocateSignature

/-- The allocator is looked up by its name and has to have its type. -/
theorem exported_allocator (l : Linked) :
    access.exported l Module.allocateName Module.allocateSignature =
      l.allocator?.elim (throw (.memory .incompatibleExport)) pure := by
  unfold access.exported Linked.allocator?
  cases l.module.exportedFunction? Module.allocateName with
  | none => rfl
  | some f =>
    rw [Option.filter_some]
    dsimp only
    by_cases hf : l.module.signature? f = some Module.allocateSignature
    · rw [if_pos hf, if_pos (decide_eq_true hf)]
      rfl
    · rw [if_neg hf, if_neg fun h => hf (of_decide_eq_true h)]
      rfl

variable (l : Linked) (attached : Bool) (call : Caller)

/-- What the guest's allocator does when it is asked for a region. It is not asked if the guest is
still starting, if 32 bits do not hold the size, or if the guest exports none. -/
def requested? (size : Nat) (w : World) : Option (EStateM.Result Trap World (List Value)) :=
  if attached = true ∧ size < UInt32.size then
    l.allocator?.map fun f => (call f [.i32 (UInt32.ofNat size)]).run w
  else none

/-- The pointer that an allocator answers, if it is all that it answers. -/
def pointer? : List Value → Option UInt32
  | [.i32 ptr] => some ptr
  | _ => none

/-- An allocator answers one pointer, and nothing besides. -/
theorem pointer?_eq_some {results : List Value} {ptr : UInt32} :
    pointer? results = some ptr ↔ results = [.i32 ptr] := by
  constructor
  · intro h
    unfold pointer? at h
    split at h
    · rw [Option.some.inj h]
    · cases h
  · intro h
    rw [h, pointer?]

/-- What may come of having the guest hand out a region for bytes. -/
inductive NewBytes (data : Bytes) (w : World) : EStateM.Result HostFault World Region → Prop
  | unasked (fault : MemoryFault) (h : requested? l attached call data.length w = none) :
    NewBytes data w (.error (.memory fault) w)
  | trapped {t : Trap} {v : World}
    (h : requested? l attached call data.length w = some (.error t v)) :
    NewBytes data w (.error (.runtime [s!"fail to allocate linear memory: {t.message}"]) v)
  | unusable {results : List Value} {v : World} (fault : MemoryFault)
    (h : requested? l attached call data.length w = some (.ok results v))
    (hnot : ∀ ptr, results = [.i32 ptr] → ¬ Region.HasRoom v.guest.memory ptr data.length) :
    NewBytes data w (.error (.memory fault) v)
  | placed {ptr : UInt32} {v : World} {r : Region} {m' : Memory}
    (h : requested? l attached call data.length w = some (.ok [.i32 ptr] v))
    (hroom : Region.HasRoom v.guest.memory ptr data.length)
    (hwrite : ((Region.described v.guest.memory ptr).write data).run v.guest.memory = .ok r m') :
    NewBytes data w (.ok r (World.setMemory m' v))

variable {l attached call} {data : Bytes} {w : World}

/-- A guest that was asked can be reached. -/
theorem attached_of_requested? {size : Nat} {result : EStateM.Result Trap World (List Value)}
    (h : requested? l attached call size w = some result) : attached = true := by
  unfold requested? at h
  split at h
  · rename_i hasked
    exact hasked.1
  · cases h

theorem memory_of_attached (h : attached = true) :
    (access l attached call).memory w = .ok w.guest.memory := if_pos h

/-- A pointer is what an allocator that can be asked answers, unless it traps. -/
theorem run_allocate {size : Nat} (hsize : size < UInt32.size) :
    ((access l attached call).allocate (UInt32.ofNat size)).run w =
      match requested? l attached call size w with
      | none => .error (.memory (if attached then .incompatibleExport else .allocatorNotReady)) w
      | some (.error t v) => .error (.runtime [s!"fail to allocate linear memory: {t.message}"]) v
      | some (.ok results v) =>
        (pointer? results).elim (.error (.memory .incompatibleExport) v) (.ok · v) := by
  cases attached with
  | false => rfl
  | true =>
    -- attached and small enough, the allocator is looked up and called
    rw [requested?, if_pos ⟨rfl, hsize⟩]
    unfold access
    show (access.exported l Module.allocateName Module.allocateSignature >>= _).run w = _
    rw [exported_allocator]
    cases l.allocator? with
    | none => rfl
    | some f =>
      show (access.attempt _ (call f [.i32 (UInt32.ofNat size)]) >>= _).run w = _
      rw [EStateM.run_bind, access.attempt, Option.map_some]
      simp only [EStateM.run, EStateM.adaptExcept]
      cases call f [.i32 (UInt32.ofNat size)] w with
      | error t v => rfl
      | ok results v =>
        dsimp only
        split
        · rfl
        · rename_i hnot
          have hnone : pointer? results = none :=
            Option.eq_none_iff_forall_ne_some.mpr fun ptr h => hnot ptr (pointer?_eq_some.mp h)
          rw [hnone]
          rfl

/-- Whatever a guest does when it is asked, one of the four comes of it. -/
theorem newBytes_of_run {result : EStateM.Result HostFault World Region}
    (h : ((access l attached call).newBytes data).run w = result) :
    NewBytes l attached call data w result := by
  rw [← h]
  by_cases hsize : data.length < UInt32.size
  · rw [Access.run_newBytes hsize, EStateM.run_bind, run_allocate hsize]
    cases hrequested : requested? l attached call data.length w with
    | none => exact .unasked _ hrequested
    | some result =>
      cases result with
      | error t v => exact .trapped hrequested
      | ok results v =>
        dsimp only
        cases hptr : pointer? results with
        | none =>
          refine .unusable _ hrequested fun ptr hresults => ?_
          rw [pointer?_eq_some.mpr hresults] at hptr
          cases hptr
        | some ptr =>
          obtain rfl := pointer?_eq_some.mp hptr
          have hm : (access l attached call).memory v = .ok v.guest.memory :=
            memory_of_attached (attached_of_requested? hrequested)
          -- the memory is the one that the allocator left
          show NewBytes l attached call data w
            (((access l attached call).region ptr >>= fun r =>
              (access l attached call).write r data).run v)
          obtain ⟨hroom, r, m', hwrite, hrun⟩ | ⟨hnot, fault, hrun⟩ :=
            Access.run_put_cases faithful_access hm ptr data
          · rw [hrun]
            exact .placed hrequested hroom hwrite
          · rw [hrun]
            refine .unusable fault hrequested fun ptr' h => ?_
            cases h
            exact hnot
  · have hnone : requested? l attached call data.length w = none := if_neg fun h => hsize h.2
    have hrun : ((access l attached call).newBytes data).run w =
        .error (.memory (.cannotAllocate data.length)) w := by
      rw [Access.newBytes, Access.newRegion, if_pos (Nat.le_of_not_lt hsize)]
      rfl
    rw [hrun]
    exact .unasked _ hnone

namespace NewBytes

variable {r : Region} {u v : World} {e : HostFault}

/-- There is room for bytes that were put into a region. -/
theorem exists_room (h : NewBytes l attached call data w (.ok r u)) :
    ∃ v m', requested? l attached call data.length w = some (.ok [.i32 r.ptr] v) ∧
      Region.HasRoom v.guest.memory r.ptr data.length ∧ u = World.setMemory m' v ∧
      ((Region.described v.guest.memory r.ptr).write data).run v.guest.memory = .ok r m' := by
  cases h with
  | placed h hroom hwrite =>
    obtain ⟨-, rfl, -⟩ := Region.run_write_eq_ok.mp hwrite
    exact ⟨_, _, h, hroom, rfl, hwrite⟩

/-- What the allocator left is all that is left of a failure. -/
theorem eq_left (h : NewBytes l attached call data w (.error e u)) :
    u = (requested? l attached call data.length w).elim w left := by
  cases h with
  | unasked _ h => rw [h, Option.elim_none]
  | trapped h => rw [h, Option.elim_some, left]
  | unusable _ h => rw [h, Option.elim_some, left]

/-- A failure is the trap of the allocator, told in words, or a memory fault. -/
theorem fault_cases (h : NewBytes l attached call data w (.error e u)) :
    (∃ t v, requested? l attached call data.length w = some (.error t v) ∧
      e = .runtime [s!"fail to allocate linear memory: {t.message}"]) ∨
    ((¬ ∃ t v, requested? l attached call data.length w = some (.error t v)) ∧
      ∃ fault, e = .memory fault) := by
  cases h with
  | unasked fault h =>
    refine .inr ⟨?_, fault, rfl⟩
    rintro ⟨t, v, htrapped⟩
    cases h.symm.trans htrapped
  | trapped h => exact .inl ⟨_, _, h, rfl⟩
  | unusable fault h =>
    refine .inr ⟨?_, fault, rfl⟩
    rintro ⟨t, v, htrapped⟩
    cases h.symm.trans htrapped

/-- There is no room for bytes that failed to be put anywhere. -/
theorem not_hasRoom (h : NewBytes l attached call data w (.error e u)) {ptr : UInt32}
    (hrequested : requested? l attached call data.length w = some (.ok [.i32 ptr] v)) :
    ¬ Region.HasRoom v.guest.memory ptr data.length := by
  cases h with
  | unasked _ h => cases hrequested.symm.trans h
  | trapped h => cases hrequested.symm.trans h
  | unusable _ h hnot =>
    cases hrequested.symm.trans h
    exact hnot ptr rfl

end NewBytes

/-- Whatever a guest does when it is asked for a region: the host answers one exactly if there is
room behind the pointer that it got. Then the region is a good one, the bytes and their number are
all that changed, and the bytes are read back unless they went over the region's own descriptor.
Otherwise the world is the one that the allocator left, and the failure tells whether the allocator
trapped or could not be used. -/
theorem newBytes_of_any_allocator (l : Linked) (attached : Bool) (call : Caller) (data : Bytes)
    (w : World) :
    ((∃ r u, ((access l attached call).newBytes data).run w = .ok r u) ↔
      ∃ ptr v, requested? l attached call data.length w = some (.ok [.i32 ptr] v) ∧
        Region.HasRoom v.guest.memory ptr data.length) ∧
    (∀ r u, ((access l attached call).newBytes data).run w = .ok r u →
      ∃ v m', requested? l attached call data.length w = some (.ok [.i32 r.ptr] v) ∧
        u = World.setMemory m' v ∧ Region.Carries m' r data ∧
        v.guest.memory.ChangesOnly (fun a => Span.Has ⟨r.offset.toNat, data.length⟩ a ∨
          Span.Has ⟨r.ptr.toNat + Region.lengthOffset, 4⟩ a) m' ∧
        (r.descriptorSpan.Apart ⟨r.offset.toNat, data.length⟩ →
          (Service.bytesAt (access l attached call) r.ptr).run u = .ok data u)) ∧
    ∀ e u, ((access l attached call).newBytes data).run w = .error e u →
      u = (requested? l attached call data.length w).elim w left ∧
      (∀ causes, e = .runtime causes ↔
        ∃ t v, requested? l attached call data.length w = some (.error t v) ∧
          causes = [s!"fail to allocate linear memory: {t.message}"]) ∧
      ((∃ fault, e = .memory fault) ↔
        ¬ ∃ t v, requested? l attached call data.length w = some (.error t v)) := by
  refine ⟨?_, fun r u h => ?_, fun e u h => ?_⟩
  · cases h : ((access l attached call).newBytes data).run w with
    | ok r u =>
      obtain ⟨v, m', hrequested, hroom, -⟩ := (newBytes_of_run h).exists_room
      exact iff_of_true ⟨r, u, rfl⟩ ⟨r.ptr, v, hrequested, hroom⟩
    | error e u =>
      refine iff_of_false ?_ ?_
      · rintro ⟨r, u, h⟩
        cases h
      · rintro ⟨ptr, v, hrequested, hroom⟩
        exact (newBytes_of_run h).not_hasRoom hrequested hroom
  · obtain ⟨v, m', hrequested, hroom, rfl, hwrite⟩ := (newBytes_of_run h).exists_room
    refine ⟨v, m', hrequested, rfl, hroom.carries hwrite, Region.changesOnly_of_put hwrite,
      fun hapart => ?_⟩
    -- the guest can still be reached, so the bytes can be read back
    have hm : (access l attached call).memory (World.setMemory m' v) = .ok m' :=
      memory_of_attached (attached_of_requested? hrequested)
    exact Service.run_bytesAt_eq_ok.mpr ⟨⟨m', r, hm, rfl, hroom.holds hwrite hapart⟩, rfl⟩
  · refine ⟨(newBytes_of_run h).eq_left, ?_⟩
    -- a trap of the allocator is told with its text, all else is a memory fault
    obtain ⟨t, v, htrapped, rfl⟩ | ⟨hnot, fault, rfl⟩ := (newBytes_of_run h).fault_cases
    · refine ⟨fun causes => ?_, iff_of_false ?_ fun hnot => hnot ⟨t, v, htrapped⟩⟩
      · constructor
        · intro hcauses
          cases hcauses
          exact ⟨t, v, htrapped, rfl⟩
        · rintro ⟨t', v', htrapped', rfl⟩
          cases htrapped.symm.trans htrapped'
          rfl
      · rintro ⟨fault, hfault⟩
        cases hfault
    · refine ⟨fun causes => iff_of_false ?_ ?_, iff_of_true ⟨fault, rfl⟩ hnot⟩
      · intro hcauses
        cases hcauses
      · rintro ⟨t, v, htrapped, -⟩
        exact hnot ⟨t, v, htrapped⟩

/-- A guest whose allocator is its only function. -/
def supplier : Linked where
  module :=
    { functions := [⟨Module.allocateSignature, [], .done⟩]
      exports := [(Module.allocateName, .function 0)] }
  services := []

/-- An allocator that hands out the last four bytes of its page, whatever it is asked for. -/
def handOutLastWord : Caller := fun _ _ => do
  let r : Region := { ptr := 64, offset := 65532, capacity := 4 }
  let written := Memory.put 64 r.descriptor ∅
  modify (World.setMemory { pages := 1, addressable := addressable_one, written })
  return [.i32 64]

/-- An allocator that traps. -/
def handOutNothing : Caller := fun _ _ => throw .unreachable

/-- A world in which nothing has happened. -/
def untouchedWorld : World where
  host := {}
  guest := {
    memory := { pages := 1, addressable := addressable_one }
    globals := []
    meter := { points := 0 } }

/-- Four bytes go up to the end of the memory, there is no room for a fifth, and a trap is told. -/
theorem newBytes_of_last_word :
    (∃ r u, ((access supplier true handOutLastWord).newBytes [1, 2, 3, 4]).run untouchedWorld =
        .ok r u ∧
      (Service.bytesAt (access supplier true handOutLastWord) r.ptr).run u =
        .ok [1, 2, 3, 4] u) ∧
    (∃ fault u, ((access supplier true handOutLastWord).newBytes [1, 2, 3, 4, 5]).run
      untouchedWorld = .error (.memory fault) u) ∧
    ∃ causes, ((access supplier true handOutNothing).newBytes [1]).run untouchedWorld =
      .error (.runtime causes) untouchedWorld := by
  have hruns :
      answered? (((access supplier true handOutLastWord).newBytes [1, 2, 3, 4]).run
        untouchedWorld) = some ⟨64, 65532, 4, 4⟩ ∧
      (failed? (((access supplier true handOutLastWord).newBytes [1, 2, 3, 4, 5]).run
        untouchedWorld)).isSome ∧
      (failed? (((access supplier true handOutNothing).newBytes [1]).run
        untouchedWorld)).isSome := by
    decide +kernel
  obtain ⟨hplaced, hunusable, htrapped⟩ := hruns
  obtain ⟨e, hunusable⟩ := Option.isSome_iff_exists.mp hunusable
  obtain ⟨e', htrapped⟩ := Option.isSome_iff_exists.mp htrapped
  have hplaced := eq_ok_of_answered? hplaced
  have hunusable := eq_error_of_failed? hunusable
  have htrapped := eq_error_of_failed? htrapped
  refine ⟨⟨_, _, hplaced, ?_⟩, ?_, ?_⟩
  · obtain ⟨v, m', -, -, -, -, hread⟩ := (newBytes_of_any_allocator _ _ _ _ _).2.1 _ _ hplaced
    exact hread (by decide)
  · obtain ⟨-, -, hmemory⟩ := (newBytes_of_any_allocator _ _ _ _ _).2.2 _ _ hunusable
    have hanswered : ¬ ∃ t v, requested? supplier true handOutLastWord 5 untouchedWorld =
        some (.error t v) := by
      rintro ⟨t, v, h⟩
      cases h
    obtain ⟨fault, rfl⟩ := hmemory.mpr hanswered
    exact ⟨fault, _, hunusable⟩
  · obtain ⟨hleft, hruntime, -⟩ := (newBytes_of_any_allocator _ _ _ _ _).2.2 _ _ htrapped
    obtain rfl := (hruntime _).mpr ⟨.unreachable, untouchedWorld, rfl, rfl⟩
    rw [hleft] at htrapped
    exact ⟨_, htrapped⟩

end Guest

end ContractHost
