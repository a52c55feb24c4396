import ContractHost.Proofs.Host.Allocation
import ContractHost.Proofs.Host.Answers

/-!
# Addresses that are mapped into a destination

The two functions that map addresses read the source first, ask the backend, and only then look at
the destination (`run_conversion`). So the source is no part of what may go wrong with it: the
destination is filled as a whole or not touched, even where the two overlap. What the backend
refuses is told in a region of its own, which the guest hands out for it.

`Converts` tells the four things that may come of it, whatever the guest's allocator does, and
`fills_or_leaves` what the guest finds in its memory then.
-/

namespace ContractHost

open Guest (Caller Linked Memory Region Span Value access requested?)

namespace Service

/-! ## The two functions as one -/

section
variable {g : Access World} {w : World} {source destination : UInt32}

/-- The source is read before anything is written. -/
theorem run_conversion {f : HostFunction} (hf : f = .addrHumanize ∨ f = .addrCanonicalize) :
    (run g f [.i32 source, .i32 destination]).run w = (bytesAt g source >>= fun s =>
      one (deliver g destination (converted w.host.backend.addresses f s))).run w := by
  have hone (k : Bytes → ServiceM UInt32) :
      (one (bytesAt g source >>= k)).run w = (bytesAt g source >>= fun s => one (k s)).run w := by
    simp only [one, bind_assoc]
  rw [← hone, one, EStateM.run_bind]
  rcases hf with rfl | rfl
  · rw [← run_addrHumanize]
    rfl
  · rw [← run_addrCanonicalize]
    rfl

/-- An address goes into the destination, and zero is answered. -/
theorem one_deliver_ok (data : Bytes) : one (deliver g destination (.ok data)) =
    fill g destination data >>= fun _ => pure [.i32 0] := by
  simp only [one, deliver, bind_assoc, pure_bind]

/-- A refusal is answered by a pointer to its text. -/
theorem one_deliver_user (text : String) :
    one (deliver g destination (.error (.backend (.user text)))) =
      g.newBytes (Utf8.encode text.toList) >>= fun r => pure [.i32 r.ptr] := by
  simp only [one, deliver, answer, bind_assoc, pure_bind]

/-- A failure that is no refusal of the backend ends the call. -/
theorem deliver_of_not_user {e : HostFault} (h : ∀ text, e ≠ .backend (.user text)) :
    deliver g destination (.error e) = throw e := by
  unfold deliver
  split
  · rename_i h'
    cases h'
  · rename_i text h'
    exact absurd (Except.error.inj h') (h text)
  · rename_i h'
    rw [Except.error.inj h']

/-- A destination is filled if there is room, and otherwise left alone. -/
theorem run_fill_cases (hg : g.Faithful) {m : Memory} (hm : g.memory w = .ok m)
    (destination : UInt32) (data : Bytes) :
    (Region.HasRoom m destination data.length ∧
      ∃ r m', ((Region.described m destination).write data).run m = .ok r m' ∧
        (fill g destination data).run w = .ok () (g.setMemory m' w)) ∨
    (¬ Region.HasRoom m destination data.length ∧
      ∃ fault, (fill g destination data).run w = .error (.memory fault) w) := by
  have hfill : fill g destination data =
      (g.region destination >>= fun r => g.write r data) >>= fun _ => pure () := by
    rw [bind_assoc]
    rfl
  rw [hfill, EStateM.run_bind]
  obtain ⟨hroom, r, m', hwrite, hrun⟩ | ⟨hnot, fault, hrun⟩ :=
    Access.run_put_cases hg hm destination data
  · rw [hrun]
    exact .inl ⟨hroom, r, m', hwrite, rfl⟩
  · rw [hrun]
    exact .inr ⟨hnot, fault, rfl⟩

end

/-! ## All outcomes -/

variable (l : Linked) (attached : Bool) (call : Caller) (f : HostFunction)
  (source destination : UInt32) (w : World)

/-- What may come of having an address mapped. -/
inductive Converts : EStateM.Result HostFault World (List Value) → Prop
  | fills {s data : Bytes} {r : Region} {m' : Memory}
    (hs : (bytesAt (access l attached call) source).run w = .ok s w)
    (hreply : Replies w.host.backend.addresses f s (.ok data))
    (hroom : Region.HasRoom w.guest.memory destination data.length)
    (hwrite : ((Region.described w.guest.memory destination).write data).run w.guest.memory =
      .ok r m') :
    Converts (.ok [.i32 0] (World.setMemory m' w))
  | tells {s : Bytes} {text : String} {r : Region} {u : World}
    (hs : (bytesAt (access l attached call) source).run w = .ok s w)
    (hreply : Replies w.host.backend.addresses f s (.error (.user text)))
    (hnew : Guest.NewBytes l attached call (Utf8.encode text.toList) w (.ok r u)) :
    Converts (.ok [.i32 r.ptr] u)
  | untold {s : Bytes} {text : String} {e : HostFault} {u : World}
    (hs : (bytesAt (access l attached call) source).run w = .ok s w)
    (hreply : Replies w.host.backend.addresses f s (.error (.user text)))
    (hnew : Guest.NewBytes l attached call (Utf8.encode text.toList) w (.error e u)) :
    Converts (.error e u)
  | leaves (e : HostFault)
    (hnot : ∀ s data, (bytesAt (access l attached call) source).run w = .ok s w →
      Replies w.host.backend.addresses f s (.ok data) →
        ¬ Region.HasRoom w.guest.memory destination data.length) :
    Converts (.error e w)

variable {l attached call f source destination w}

/-- Who read something has reached the memory. -/
theorem memory_of_bytesAt {ptr : UInt32} {s : Bytes} {u : World}
    (h : (bytesAt (access l attached call) ptr).run w = .ok s u) :
    (access l attached call).memory w = .ok w.guest.memory := by
  obtain ⟨⟨m, -, hm, -⟩, -⟩ := run_bytesAt_eq_ok.mp h
  cases attached with
  | true => rfl
  | false => cases hm

/-- Whatever is in the memory and whatever the guest does, one of the four comes of it. -/
theorem converts_of_run (hf : f = .addrHumanize ∨ f = .addrCanonicalize)
    {result : EStateM.Result HostFault World (List Value)}
    (h : (run (access l attached call) f [.i32 source, .i32 destination]).run w = result) :
    Converts l attached call f source destination w result := by
  rw [← h, run_conversion hf]
  cases hs : (bytesAt (access l attached call) source).run w with
  | error e u =>
    obtain rfl := (Guest.reads_bytesAt source).of_error hs
    rw [EStateM.run_bind, hs]
    refine .leaves e ?_
    intro s data hs'
    cases hs.symm.trans hs'
  | ok s u =>
    obtain rfl := (Guest.reads_bytesAt source).of_ok hs
    rw [run_bind_of_ok hs]
    cases hconverted : converted w.host.backend.addresses f s with
    | ok data =>
      have hreply := (converted_eq_ok hf).mp hconverted
      have hm := memory_of_bytesAt hs
      rw [one_deliver_ok, EStateM.run_bind]
      obtain ⟨hroom, r, m', hwrite, hrun⟩ | ⟨hnot, fault, hrun⟩ :=
        run_fill_cases Guest.faithful_access hm destination data
      · rw [hrun]
        exact .fills hs hreply hroom hwrite
      · rw [hrun]
        refine .leaves (.memory fault) ?_
        intro s' data' hs' hreply'
        cases hs.symm.trans hs'
        cases hconverted.symm.trans ((converted_eq_ok hf).mpr hreply')
        exact hnot
    | error e =>
      -- only what the backend refuses is told to the guest, any other failure ends the call
      by_cases huser : ∃ text, e = .backend (.user text)
      · obtain ⟨text, rfl⟩ := huser
        have hreply := (converted_eq_backend hf).mp hconverted
        rw [one_deliver_user, EStateM.run_bind]
        cases hnew : ((access l attached call).newBytes (Utf8.encode text.toList)).run w with
        | ok r u => exact .tells hs hreply (Guest.newBytes_of_run hnew)
        | error e u => exact .untold hs hreply (Guest.newBytes_of_run hnew)
      · rw [deliver_of_not_user fun text h => huser ⟨text, h⟩]
        refine .leaves e ?_
        intro s' data hs' hreply
        cases hs.symm.trans hs'
        cases hconverted.symm.trans ((converted_eq_ok hf).mpr hreply)

/-- A destination has the bytes and tells their number, and nothing else in the memory has changed.
They are read back unless they went over the destination's own descriptor. -/
structure Fills (g : Access World) (destination : UInt32) (data : Bytes) (w : World) (r : Region)
    (m' : Memory) : Prop where
  region : Region.load w.guest.memory destination = .ok r
  written : ∃ m₁, w.guest.memory.write? r.offset.toNat data = some m₁ ∧
    m₁.write? (destination.toNat + Region.lengthOffset) (Bytes.ofNatLE 4 data.length) = some m'
  memory : w.guest.memory.ChangesOnly (fun a => Span.Has ⟨r.offset.toNat, data.length⟩ a ∨
    Span.Has ⟨destination.toNat + Region.lengthOffset, 4⟩ a) m'
  back : r.descriptorSpan.Apart ⟨r.offset.toNat, data.length⟩ →
    (bytesAt g destination).run (World.setMemory m' w) = .ok data (World.setMemory m' w)

/-- Where there is room the destination is filled. -/
theorem fills_of_write {data : Bytes} {r : Region} {m' : Memory}
    (hm : (access l attached call).memory w = .ok w.guest.memory)
    (hroom : Region.HasRoom w.guest.memory destination data.length)
    (hwrite : ((Region.described w.guest.memory destination).write data).run w.guest.memory =
      .ok r m') :
    Fills (access l attached call) destination data w
      (Region.described w.guest.memory destination) m' := by
  obtain ⟨-, rfl, hstores⟩ := Region.run_write_eq_ok.mp hwrite
  refine ⟨(Region.hasRoom_iff.mp hroom).1, hstores, Region.changesOnly_of_write hwrite, ?_⟩
  intro hapart
  have hm' := Guest.faithful_access.memory_setMemory m' hm
  have hholds := hroom.holds hwrite hapart
  exact run_bytesAt_eq_ok.mpr ⟨⟨m', _, hm', rfl, hholds⟩, rfl⟩

/-- The destination is filled exactly if the backend maps the source and there is room. -/
theorem Converts.zero_iff {result : EStateM.Result HostFault World (List Value)}
    (h : Converts l attached call f source destination w result) :
    (∃ u, result = .ok [.i32 0] u) ↔
      ∃ s data, (bytesAt (access l attached call) source).run w = .ok s w ∧
        Replies w.host.backend.addresses f s (.ok data) ∧
        Region.HasRoom w.guest.memory destination data.length := by
  cases h with
  | fills hs hreply hroom => exact iff_of_true ⟨_, rfl⟩ ⟨_, _, hs, hreply, hroom⟩
  | tells hs hreply hnew =>
    -- a region has a pointer that is not zero, so no message is mistaken for a success
    obtain ⟨v, m', -, hroom, -⟩ := hnew.exists_room
    refine iff_of_false ?_ ?_
    · rintro ⟨u, h⟩
      obtain ⟨hresults, -⟩ := EStateM.Result.ok.inj h
      exact hroom.pointer (Value.i32.inj (List.cons.inj hresults).1)
    · rintro ⟨s', data, hs', hreply', -⟩
      cases hs.symm.trans hs'
      cases hreply.unique hreply'
  | untold hs hreply =>
    refine iff_of_false ?_ ?_
    · rintro ⟨u, h⟩
      cases h
    · rintro ⟨s', data, hs', hreply', -⟩
      cases hs.symm.trans hs'
      cases hreply.unique hreply'
  | leaves e hnot =>
    refine iff_of_false ?_ ?_
    · rintro ⟨u, h⟩
      cases h
    · rintro ⟨s, data, hs, hreply, hroom⟩
      exact hnot s data hs hreply hroom

/-- Whatever the pointers lead to, and whatever a guest does when it is asked for a region: a host
function that maps addresses answers zero exactly if the backend maps the source and the destination
has room for it. Then the destination is filled and nothing else has changed. An answer that is not
zero leads to the backend's refusal, and beside its region the memory is as the allocator left it;
so it is after a failure. -/
theorem fills_or_leaves (l : Linked) (attached : Bool) (call : Caller) {f : HostFunction}
    (hf : f = .addrHumanize ∨ f = .addrCanonicalize) (source destination : UInt32) (w : World) :
    ((∃ u, (run (access l attached call) f [.i32 source, .i32 destination]).run w =
        .ok [.i32 0] u) ↔
      ∃ s data, (bytesAt (access l attached call) source).run w = .ok s w ∧
        Replies w.host.backend.addresses f s (.ok data) ∧
        Region.HasRoom w.guest.memory destination data.length) ∧
    (∀ results u, (run (access l attached call) f [.i32 source, .i32 destination]).run w =
        .ok results u →
      ∃ p s, results = [.i32 p] ∧ (bytesAt (access l attached call) source).run w = .ok s w ∧
        (p = 0 → ∃ data r m', Replies w.host.backend.addresses f s (.ok data) ∧
          Fills (access l attached call) destination data w r m' ∧ u = World.setMemory m' w) ∧
        (p ≠ 0 → ∃ text v r m',
          Replies w.host.backend.addresses f s (.error (.user text)) ∧
          requested? l attached call (Utf8.encode text.toList).length w =
            some (.ok [.i32 p] v) ∧
          Region.load v.guest.memory p = .ok r ∧ u = World.setMemory m' v ∧
          ∀ d : Region, d.Apart r → v.guest.memory.Agrees m' d.descriptorSpan ∧
            v.guest.memory.Agrees m' d.bufferSpan)) ∧
    ∀ e u, (run (access l attached call) f [.i32 source, .i32 destination]).run w = .error e u →
      u = w ∨ ∃ s text, (bytesAt (access l attached call) source).run w = .ok s w ∧
        Replies w.host.backend.addresses f s (.error (.user text)) ∧
        u = (requested? l attached call (Utf8.encode text.toList).length w).elim w left := by
  refine ⟨(converts_of_run hf rfl).zero_iff, fun results u h => ?_, fun e u h => ?_⟩
  · cases converts_of_run hf h with
    | fills hs hreply hroom hwrite =>
      have hfills := fills_of_write (memory_of_bytesAt hs) hroom hwrite
      exact ⟨0, _, rfl, hs, fun _ => ⟨_, _, _, hreply, hfills, rfl⟩, fun hp => absurd rfl hp⟩
    | tells hs hreply hnew =>
      obtain ⟨v, m', hrequested, hroom, rfl, hwrite⟩ := hnew.exists_room
      refine ⟨_, _, rfl, hs, fun hp => absurd hp hroom.pointer, fun _ => ?_⟩
      refine ⟨_, v, _, m', hreply, hrequested, (Region.hasRoom_iff.mp hroom).1, rfl, ?_⟩
      -- any region apart from the message's own is as the allocator left it
      rintro d ⟨⟨hdd, hdb⟩, hbd, hbb⟩
      exact ⟨Region.agrees_of_write hwrite hdd hdb, Region.agrees_of_write hwrite hbd hbb⟩
  · cases converts_of_run hf h with
    | untold hs hreply hnew => exact .inr ⟨_, _, hs, hreply, hnew.eq_left⟩
    | leaves => exact .inl rfl

/-- A memory with the two letters `ab` as the source at 16, and their first one as the source at 96.
The destination at 32 starts at the second letter. At 48 is room for a message. -/
def overlappingMemory : Memory where
  pages := 1
  addressable := Guest.addressable_one
  written :=
    Memory.put 16 (Region.descriptor ⟨16, 64, 4, 2⟩) <|
    Memory.put 32 (Region.descriptor ⟨32, 65, 4, 0⟩) <|
    Memory.put 48 (Region.descriptor ⟨48, 80, 8, 0⟩) <|
    Memory.put 64 [97, 98] <|
    Memory.put 96 (Region.descriptor ⟨96, 64, 1, 1⟩) ∅

/-- A world with such a memory, and a backend that maps texts of two letters only. -/
def overlappingWorld : World where
  host :=
    { backend :=
      { addresses :=
        { hrp := []
          canonical := fun human =>
            if human.length = 2 then .ok [1, 2, 3] else .error (.user "odd")
          human := fun _ => .error (.unknown "") } } }
  guest := { memory := overlappingMemory, globals := [], meter := { points := 0 } }

/-- An allocator that hands out the region at 48. -/
def handOutMessage : Caller := fun _ _ => return [.i32 48]

/-- The destination is filled over the source that it was made from, and what is refused leaves it
alone. -/
theorem fills_over_source :
    (∃ u, (run (access Guest.supplier true handOutMessage) .addrCanonicalize
        [.i32 16, .i32 32]).run overlappingWorld = .ok [.i32 0] u ∧
      (bytesAt (access Guest.supplier true handOutMessage) 32).run u = .ok [1, 2, 3] u) ∧
    ∃ u, (run (access Guest.supplier true handOutMessage) .addrCanonicalize
        [.i32 96, .i32 32]).run overlappingWorld = .ok [.i32 48] u ∧
      overlappingMemory.Agrees u.guest.memory (Region.descriptorSpan ⟨32, 65, 4, 0⟩) ∧
      overlappingMemory.Agrees u.guest.memory (Region.bufferSpan ⟨32, 65, 4, 0⟩) := by
  have hruns :
      answered? ((run (access Guest.supplier true handOutMessage) .addrCanonicalize
        [.i32 16, .i32 32]).run overlappingWorld) = some [.i32 0] ∧
      answered? ((run (access Guest.supplier true handOutMessage) .addrCanonicalize
        [.i32 96, .i32 32]).run overlappingWorld) = some [.i32 48] ∧
      answered? ((bytesAt (access Guest.supplier true handOutMessage) 16).run
        overlappingWorld) = some [97, 98] ∧
      answered? ((bytesAt (access Guest.supplier true handOutMessage) 96).run
        overlappingWorld) = some [97] := by
    decide +kernel
  obtain ⟨hfilled, hrefused, hboth, hfirst⟩ := hruns
  have hfilled := eq_ok_of_answered? hfilled
  have hrefused := eq_ok_of_answered? hrefused
  have hboth := eq_ok_of_answered? hboth
  have hfirst := eq_ok_of_answered? hfirst
  -- what the backend says to the two sources
  have hmaps : Replies overlappingWorld.host.backend.addresses .addrCanonicalize [97, 98]
      (.ok [1, 2, 3]) := ⟨['a', 'b'], rfl, rfl⟩
  have hrefuses : Replies overlappingWorld.host.backend.addresses .addrCanonicalize [97]
      (.error (.user "odd")) := ⟨['a'], rfl, rfl⟩
  refine ⟨⟨_, hfilled, ?_⟩, _, hrefused, ?_⟩
  · obtain ⟨p, s, hp, hs, hzero, -⟩ := (fills_or_leaves _ _ _ (.inr rfl) _ _ _).2.1 _ _ hfilled
    cases hp
    obtain ⟨data, r, m', hreply, hfills, hu⟩ := hzero rfl
    obtain ⟨rfl, -⟩ := EStateM.Result.ok.inj (hs.symm.trans hboth)
    cases hreply.unique hmaps
    obtain ⟨-, rfl, -⟩ := Region.load_eq_ok_iff_described.mp hfills.region
    rw [hu]
    exact hfills.back (by decide +kernel)
  · obtain ⟨p, s, hp, hs, -, htold⟩ := (fills_or_leaves _ _ _ (.inr rfl) _ _ _).2.1 _ _ hrefused
    cases hp
    obtain ⟨text, v, r, m', hreply, hrequested, hload, hu, hspares⟩ := htold (by decide)
    obtain ⟨rfl, -⟩ := EStateM.Result.ok.inj (hs.symm.trans hfirst)
    cases hreply.unique hrefuses
    cases hrequested
    obtain ⟨-, rfl, -⟩ := Region.load_eq_ok_iff_described.mp hload
    rw [hu]
    exact hspares ⟨32, 65, 4, 0⟩ (by decide +kernel)

end Service

end ContractHost
