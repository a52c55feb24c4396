import ContractHost.Guest.Machine
import ContractHost.Proofs.Host.Access

/-!
# Regions at the mercy of a guest

A guest writes its descriptors itself, so nothing is known of the pointer that the host is given and
of the twelve bytes behind it. `Readable` says of the three words there when the host gets bytes out
of a region, and then it gets the bytes that they tell (`run_region_read`): the host computes no
address that 32 bits do not hold, and reads no byte outside the memory.

A region that was read can be written if the bytes fit and go inside the memory. The host either
writes them and their number or leaves the memory as it was (`run_write_of_region`).

Both hold of any way into a guest; one that is `Faithful` gives back the memory that was put there.
-/

namespace ContractHost

open Guest (Linked Memory MemoryFault Region Span)

/-! ## Words in memory -/

namespace Guest.Memory

variable {m m' : Memory}

/-- The word at an address, least significant byte first. -/
def word (m : Memory) (address : Nat) : Nat := Bytes.toNatLE (m.bytes address 4)

/-- Four bytes spell a word. -/
theorem word_lt (m : Memory) (address : Nat) : m.word address < UInt32.size := by
  have h := Bytes.toNatLE_lt (m.bytes address 4)
  rwa [length_bytes] at h

theorem toNat_ofNat_word (m : Memory) (address : Nat) :
    (UInt32.ofNat (m.word address)).toNat = m.word address :=
  UInt32.toNat_ofNat_of_lt' (m.word_lt address)

/-- A sum of words that 32 bits hold. -/
theorem toNat_ofNat_add_ofNat {a b : Nat} (h : a + b < UInt32.size) :
    (UInt32.ofNat a + UInt32.ofNat b).toNat = a + b := by
  rw [← UInt32.ofNat_add, UInt32.toNat_ofNat_of_lt' h]

/-- The front of a span. -/
theorem take_bytes (m : Memory) (start n k : Nat) :
    (m.bytes start (n + k)).take n = m.bytes start n := by
  rw [bytes_add, List.take_left' (length_bytes _ _ _)]

/-- The end of a span. -/
theorem drop_bytes (m : Memory) (start n k : Nat) :
    (m.bytes start (n + k)).drop n = m.bytes (start + n) k := by
  rw [bytes_add, List.drop_left' (length_bytes _ _ _)]

/-- 32 bits address all of a memory. -/
theorem size_le (m : Memory) : m.size ≤ UInt32.size := by
  have hsize : addressablePages * pageSize = UInt32.size := by decide
  rw [size, ← hsize]
  exact Nat.mul_le_mul_right pageSize m.addressable

/-- What lies outside a memory has no part in what is read. -/
theorem agrees_of_changesOnly_outside (h : m.ChangesOnly (fun a => m.size ≤ a) m') (s : Span) :
    m.Agrees m' s := by
  by_cases hcovers : m.covers s.start s.length = true
  · refine h.agrees fun a ha => ?_
    rw [covers_iff] at hcovers
    unfold Span.Has at ha
    omega
  · rw [Agrees, read?, read?, h.covers, if_neg hcovers, if_neg hcovers]

end Guest.Memory

/-! ## Reading -/

namespace Guest.Region

variable {m m' : Memory} {r r' : Region} {ptr : UInt32} {data : Bytes}

/-- The region that the words behind a pointer tell. -/
def described (m : Memory) (ptr : UInt32) : Region where
  ptr := ptr
  offset := UInt32.ofNat (m.word ptr.toNat)
  capacity := UInt32.ofNat (m.word (ptr.toNat + 4))
  length := UInt32.ofNat (m.word (ptr.toNat + 8))

/-- A descriptor is its three words. -/
theorem ofDescriptor_bytes (m : Memory) (ptr : UInt32) :
    ofDescriptor ptr (m.bytes ptr.toNat descriptorSize) = described m ptr := by
  have hoffset : (m.bytes ptr.toNat descriptorSize).take 4 = m.bytes ptr.toNat 4 :=
    m.take_bytes ptr.toNat 4 8
  have hrest : (m.bytes ptr.toNat descriptorSize).drop 4 = m.bytes (ptr.toNat + 4) 8 :=
    m.drop_bytes ptr.toNat 4 8
  have hlength : (m.bytes ptr.toNat descriptorSize).drop 8 = m.bytes (ptr.toNat + 8) 4 :=
    m.drop_bytes ptr.toNat 8 4
  rw [ofDescriptor, hoffset, hrest, hlength, m.take_bytes (ptr.toNat + 4) 4 4]
  rfl

/-- A descriptor is loaded exactly if it lies inside the memory and its words are good. -/
theorem load_eq_ok_iff_described : load m ptr = .ok r ↔
    (ptr ≠ 0 ∧ ptr.toNat + descriptorSize ≤ m.size) ∧ described m ptr = r ∧ r.check = .ok () := by
  rw [load_eq_ok]
  constructor
  · rintro ⟨hptr, bs, hread, hspells, hcheck⟩
    obtain ⟨hcovers, rfl⟩ := Memory.read?_eq_some.mp hread
    rw [ofDescriptor_bytes] at hspells
    exact ⟨⟨hptr, ((Memory.covers_iff _ _ _).mp hcovers).resolve_left nofun⟩, hspells, hcheck⟩
  · rintro ⟨⟨hptr, hinside⟩, hspells, hcheck⟩
    refine ⟨hptr, m.bytes ptr.toNat descriptorSize, ?_, ?_, hcheck⟩
    · exact Memory.read?_eq_some.mpr ⟨(Memory.covers_iff _ _ _).mpr (.inr hinside), rfl⟩
    · rw [ofDescriptor_bytes]
      exact hspells

/-- A pointer leads to a region whose bytes in use can be read. -/
structure Readable (m : Memory) (ptr : UInt32) : Prop where
  pointer : ptr ≠ 0
  descriptor : ptr.toNat + 12 ≤ m.size
  offset : m.word ptr.toNat ≠ 0
  length : m.word (ptr.toNat + 8) ≤ m.word (ptr.toNat + 4)
  addresses : m.word ptr.toNat + m.word (ptr.toNat + 4) < UInt32.size
  inside : m.word (ptr.toNat + 8) = 0 ∨ m.word ptr.toNat + m.word (ptr.toNat + 8) ≤ m.size

instance decidableReadable (m : Memory) (ptr : UInt32) : Decidable (Readable m ptr) :=
  decidable_of_iff (ptr ≠ 0 ∧ ptr.toNat + 12 ≤ m.size ∧ m.word ptr.toNat ≠ 0 ∧
    m.word (ptr.toNat + 8) ≤ m.word (ptr.toNat + 4) ∧
    m.word ptr.toNat + m.word (ptr.toNat + 4) < UInt32.size ∧
    (m.word (ptr.toNat + 8) = 0 ∨ m.word ptr.toNat + m.word (ptr.toNat + 8) ≤ m.size))
    ⟨fun ⟨hptr, hdescriptor, hoffset, hlength, haddresses, hinside⟩ =>
      ⟨hptr, hdescriptor, hoffset, hlength, haddresses, hinside⟩,
    fun h => ⟨h.pointer, h.descriptor, h.offset, h.length, h.addresses, h.inside⟩⟩

/-- The check of a region, said of the words of its descriptor. -/
theorem check_described : (described m ptr).check = .ok () ↔
    m.word ptr.toNat ≠ 0 ∧ m.word (ptr.toNat + 8) ≤ m.word (ptr.toNat + 4) ∧
      m.word ptr.toNat + m.word (ptr.toNat + 4) < UInt32.size := by
  have hzero : (described m ptr).offset = 0 ↔ m.word ptr.toNat = 0 := by
    rw [← UInt32.toNat_inj, described, Memory.toNat_ofNat_word]
    rfl
  rw [check_eq_ok, ne_eq, hzero, UInt32.le_iff_toNat_le]
  simp only [described, Memory.toNat_ofNat_word]

/-- The bytes in use of the region behind a pointer. -/
def readAt (m : Memory) (ptr : UInt32) : Except MemoryFault Bytes := load m ptr >>= read m

/-- The bytes in use of a region that was loaded are read exactly if they are inside the memory. -/
theorem read_eq_ok_of_load (h : load m ptr = .ok r) : read m r = .ok data ↔
    (m.word (ptr.toNat + 8) = 0 ∨ m.word ptr.toNat + m.word (ptr.toNat + 8) ≤ m.size) ∧
      m.bytes (m.word ptr.toNat) (m.word (ptr.toNat + 8)) = data := by
  obtain ⟨⟨hptr, -⟩, rfl, -⟩ := load_eq_ok_iff_described.mp h
  rw [read_eq_ok hptr, Memory.read?_eq_some, Memory.covers_iff]
  simp only [described, Memory.toNat_ofNat_word]

theorem Readable.load (h : Readable m ptr) : load m ptr = .ok (described m ptr) :=
  load_eq_ok_iff_described.mpr ⟨⟨h.pointer, h.descriptor⟩, rfl,
    check_described.mpr ⟨h.offset, h.length, h.addresses⟩⟩

/-- Bytes are read behind a pointer exactly if they are readable, and they are the bytes in use. -/
theorem readAt_eq_ok : readAt m ptr = .ok data ↔
    Readable m ptr ∧ data = m.bytes (m.word ptr.toNat) (m.word (ptr.toNat + 8)) := by
  constructor
  · intro h
    cases hload : Region.load m ptr with
    | error e =>
      rw [readAt, hload] at h
      cases h
    | ok r =>
      rw [readAt, hload] at h
      obtain ⟨hinside, rfl⟩ := (read_eq_ok_of_load hload).mp h
      obtain ⟨⟨hptr, hdescriptor⟩, rfl, hcheck⟩ := load_eq_ok_iff_described.mp hload
      obtain ⟨hoffset, hlength, haddresses⟩ := check_described.mp hcheck
      exact ⟨⟨hptr, hdescriptor, hoffset, hlength, haddresses, hinside⟩, rfl⟩
  · rintro ⟨h, rfl⟩
    rw [readAt, h.load]
    exact (read_eq_ok_of_load h.load).mpr ⟨h.inside, rfl⟩

/-- Reading looks at no byte outside the memory. -/
theorem readAt_of_changesOnly_outside (h : m.ChangesOnly (fun a => m.size ≤ a) m')
    (ptr : UInt32) : readAt m' ptr = readAt m ptr := by
  have hspan (offset length : Nat) : readSpan m' length offset = readSpan m length offset := by
    have hagrees := Memory.agrees_of_changesOnly_outside h ⟨offset, length⟩
    unfold Memory.Agrees at hagrees
    rw [readSpan, readSpan, hagrees]
  have hload : load m' ptr = load m ptr := by rw [load, load, hspan]
  have hread : read m' = read m := funext fun r => by rw [read, read, hspan]
  rw [readAt, readAt, hload, hread]

/-! ## Writing -/

/-- What becomes of a region, and of the memory, when bytes are written into it: the region has
their number as its length, and besides the bytes only the word that tells the length may change. -/
structure Written (m : Memory) (r : Region) (data : Bytes) (r' : Region) (m' : Memory) : Prop where
  region : r' = { r with length := UInt32.ofNat data.length }
  length : r'.length.toNat = data.length
  memory : m.ChangesOnly (fun a => Span.Has ⟨r.offset.toNat, data.length⟩ a ∨
    Span.Has ⟨r.ptr.toNat + lengthOffset, 4⟩ a) m'

/-- A write that succeeds has written. -/
theorem written_of_write (hw : (r.write data).run m = .ok r' m') : r.Written m data r' m' := by
  have hmemory := changesOnly_of_write hw
  obtain ⟨⟨-, hfits⟩, rfl, -⟩ := run_write_eq_ok.mp hw
  refine ⟨rfl, ?_, hmemory⟩
  exact UInt32.toNat_ofNat_of_lt' (Nat.lt_of_le_of_lt hfits r.capacity.toNat_lt_size)

end Guest.Region

/-! ## Ways into a guest -/

namespace Access

variable {σ α : Type} {g : Access σ} {s t : σ} {m : Memory} {ptr : UInt32} {r : Region}
  {data : Bytes}

/-- A memory that is put into a guest is the one that is there, and putting the one that is there
changes nothing. -/
structure Faithful (g : Access σ) : Prop where
  memory_setMemory : ∀ {s m} (m' : Memory),
    g.memory s = .ok m → g.memory (g.setMemory m' s) = .ok m'
  setMemory_memory : ∀ {s m}, g.memory s = .ok m → g.setMemory m s = s

/-- A memory without a guest is one that is read as it was put. -/
theorem faithful_bare : bare.Faithful where
  memory_setMemory _ _ := rfl
  setMemory_memory h := (Except.ok.inj h).symm

/-- Where the memory can be reached, a region is a matter of the memory alone. -/
theorem run_region (hm : g.memory s = .ok m) (ptr : UInt32) :
    (g.region ptr).run s = (ofMemory (Region.load m ptr) : EStateM HostFault σ Region).run s := by
  have hview : g.view.run s = .ok m s := run_view_eq_ok.mpr ⟨hm, rfl⟩
  unfold region
  by_cases hptr : ptr = 0
  · rw [if_pos hptr, Region.load, if_pos hptr]
    rfl
  · rw [if_neg hptr]
    exact run_bind_of_ok hview

/-- Where the memory can be reached, the bytes of a region are a matter of the memory alone. -/
theorem run_read (hm : g.memory s = .ok m) (r : Region) :
    (g.read r).run s = (ofMemory (Region.read m r) : EStateM HostFault σ Bytes).run s := by
  have hview : g.view.run s = .ok m s := run_view_eq_ok.mpr ⟨hm, rfl⟩
  unfold read
  by_cases hnull : r.isNull = true
  · rw [if_pos hnull, Region.read, if_pos hnull]
    rfl
  · rw [if_neg hnull]
    exact run_bind_of_ok hview

/-- Reading behind a pointer is reading the memory that is there. -/
theorem run_region_bind_read (hm : g.memory s = .ok m) (ptr : UInt32) :
    (g.region ptr >>= g.read).run s =
      (ofMemory (Region.readAt m ptr) : EStateM HostFault σ Bytes).run s := by
  rw [EStateM.run_bind, run_region hm, Region.readAt]
  cases Region.load m ptr with
  | error e => rfl
  | ok r => exact run_read hm r

/-- What is done on the memory of a guest. -/
theorem run_onMemory (hm : g.memory s = .ok m) (x : EStateM MemoryFault Memory α) :
    (g.onMemory x).run s = match x.run m with
      | .ok a m' => .ok a (g.setMemory m' s)
      | .error e m' => .error (.memory e) (g.setMemory m' s) := by
  have hview : g.view.run s = .ok m s := run_view_eq_ok.mpr ⟨hm, rfl⟩
  rw [onMemory, run_bind_of_ok hview]
  cases x.run m with
  | ok a m' => rfl
  | error e m' => rfl

end Access

/-- The memory of a running guest is read as it was put, whatever allocator it has. -/
theorem Guest.faithful_access {l : Linked} {attached : Bool} {call : Guest.Caller} :
    (Guest.access l attached call).Faithful where
  memory_setMemory m' h := by
    cases attached with
    | true => rfl
    | false => cases h
  setMemory_memory h := by
    cases attached with
    | true =>
      cases h
      rfl
    | false => cases h

namespace Access

variable {σ : Type} {g : Access σ} {s : σ} {m : Memory} {ptr : UInt32} {r : Region}

/-- Whatever pointer the host is given, and whatever the guest wrote behind it: reading the region
there succeeds exactly if the region is `Readable`, and then answers the bytes that its words tell.
It fails with a memory fault otherwise, and changes nothing in either case. No address that is read
is beyond 32 bits or outside the memory, and what lies outside has no part in the outcome. -/
theorem run_region_read (hm : g.memory s = .ok m) (ptr : UInt32) :
    (∀ data t, (g.region ptr >>= g.read).run s = .ok data t ↔ Region.Readable m ptr ∧
      data = m.bytes (m.word ptr.toNat) (m.word (ptr.toNat + 8)) ∧ t = s) ∧
    (¬ Region.Readable m ptr →
      ∃ e, (g.region ptr >>= g.read).run s = .error (.memory e) s) ∧
    (Region.Readable m ptr →
      (∀ i ≤ m.word (ptr.toNat + 4), (UInt32.ofNat (m.word ptr.toNat) + UInt32.ofNat i).toNat =
        m.word ptr.toNat + i) ∧
      ∀ i < m.word (ptr.toNat + 8), m.word ptr.toNat + i < m.size) ∧
    ∀ s' m', g.memory s' = .ok m' → m.ChangesOnly (fun a => m.size ≤ a) m' →
      outcome ((g.region ptr >>= g.read).run s') = outcome ((g.region ptr >>= g.read).run s) := by
  refine ⟨fun data t => ?_, fun hnot => ?_, fun h => ⟨fun i hi => ?_, fun i hi => ?_⟩,
    fun s' m' hm' houtside => ?_⟩
  · rw [run_region_bind_read hm, run_ofMemory_eq_ok, Region.readAt_eq_ok, and_assoc,
      eq_comm (a := s)]
  · rw [run_region_bind_read hm]
    cases hread : Region.readAt m ptr with
    | ok data => exact absurd (Region.readAt_eq_ok.mp hread).1 hnot
    | error e => exact ⟨e, rfl⟩
  -- the check keeps offset and capacity together below the end of the address space
  · have hsum := Nat.add_le_add_left hi (m.word ptr.toNat)
    exact Guest.Memory.toNat_ofNat_add_ofNat (Nat.lt_of_le_of_lt hsum h.addresses)
  · have hinside := h.inside
    omega
  · rw [run_region_bind_read hm, run_region_bind_read hm',
      Region.readAt_of_changesOnly_outside houtside]
    cases Region.readAt m ptr with
    | ok data => rfl
    | error e => rfl

/-- All that 32 bits can address. One region has its descriptor at the very end of the memory and
its bytes right in front of that, with room up to the last address but one; the region at 16 has the
same bytes and room for one more. -/
def edgeMemory : Memory where
  pages := Guest.addressablePages
  addressable := Nat.le_refl _
  written :=
    Memory.put 16 (Region.descriptor ⟨16, 4294967280, 16, 4⟩) <|
    Memory.put 4294967280 [1, 2, 3, 4] <|
    Memory.put 4294967284 (Region.descriptor ⟨4294967284, 4294967280, 15, 4⟩) ∅

/-- At the edge the bytes are read. One more byte of room, and the region is refused. -/
theorem run_region_read_at_edge :
    bare.memory edgeMemory = .ok edgeMemory ∧
    (bare.region 4294967284 >>= bare.read).run edgeMemory = .ok [1, 2, 3, 4] edgeMemory ∧
    ∃ e, (bare.region 16 >>= bare.read).run edgeMemory = .error (.memory e) edgeMemory := by
  have hm : bare.memory edgeMemory = .ok edgeMemory := rfl
  refine ⟨hm, ?_, (run_region_read hm 16).2.1 (by decide +kernel)⟩
  exact ((run_region_read hm 4294967284).1 _ _).mpr ⟨by decide +kernel, by decide +kernel, rfl⟩

/-- Into a region that was loaded bytes are written as a whole, or nothing changes. -/
theorem run_write_cases (hg : g.Faithful) (hm : g.memory s = .ok m)
    (hload : Region.load m r.ptr = .ok r) (data : Bytes) :
    ((data.length ≤ r.capacity.toNat ∧
        (data = [] ∨ r.offset.toNat + data.length ≤ m.size)) ∧
      ∃ r' m', (g.write r data).run s = .ok r' (g.setMemory m' s) ∧
        (r.write data).run m = .ok r' m') ∨
    (¬ (data.length ≤ r.capacity.toNat ∧
        (data = [] ∨ r.offset.toNat + data.length ≤ m.size)) ∧
      ∃ fault, (g.write r data).run s = .error (.memory fault) s) := by
  have hwrite : (g.write r data).run s = _ := run_onMemory hm (r.write data)
  rw [← List.length_eq_zero_iff, ← Memory.covers_iff, hwrite]
  obtain ⟨hgood, m', hrun⟩ | ⟨hnot, fault, hrun⟩ := Region.run_write_cases hload data
  · rw [hrun]
    exact .inl ⟨hgood, _, m', rfl, rfl⟩
  · rw [hrun]
    dsimp only
    rw [hg.setMemory_memory hm]
    exact .inr ⟨hnot, fault, rfl⟩

/-- The word behind a pointer that tells the length has its address within 32 bits. -/
theorem toNat_lengthAddress (hload : Region.load m r.ptr = .ok r) :
    (r.ptr + 8).toNat = r.ptr.toNat + 8 := by
  obtain ⟨⟨-, hinside⟩, -⟩ := Region.load_eq_ok_iff_described.mp hload
  have hsize := m.size_le
  have height : (8 : UInt32).toNat = 8 := rfl
  rw [UInt32.toNat_add, height]
  unfold Region.descriptorSize at hinside
  unfold UInt32.size at hsize
  omega

/-- A region that was read is written into exactly if the bytes fit and go inside the memory. Then
they are in place, only they and the length of the region changed, and unless they went over the
region's own descriptor, the region and the bytes are read back. Otherwise nothing changed, and the
failure is a memory fault. The address of the length is one that 32 bits hold. -/
theorem run_write_of_region (hg : g.Faithful) (hm : g.memory s = .ok m)
    (hr : (g.region ptr).run s = .ok r s) (data : Bytes) :
    ((∃ r' t, (g.write r data).run s = .ok r' t) ↔
      data.length ≤ r.capacity.toNat ∧
        (data = [] ∨ r.offset.toNat + data.length ≤ m.size)) ∧
    (∀ r' t, (g.write r data).run s = .ok r' t →
      ∃ m', t = g.setMemory m' s ∧ g.memory t = .ok m' ∧ r.Written m data r' m' ∧
        (r.descriptorSpan.Apart ⟨r.offset.toNat, data.length⟩ →
          (g.region ptr).run t = .ok r' t ∧ (g.read r').run t = .ok data t)) ∧
    (∀ e t, (g.write r data).run s = .error e t → t = s ∧ ∃ fault, e = .memory fault) ∧
    (ptr + 8).toNat = ptr.toNat + 8 := by
  obtain ⟨⟨m₁, hm₁, hload⟩, -⟩ := run_region_eq_ok.mp hr
  obtain rfl : m = m₁ := Except.ok.inj (hm.symm.trans hm₁)
  obtain rfl := Region.ptr_of_load hload
  have hptr := toNat_lengthAddress hload
  -- a region that was read can hold its length, so only the bytes can fail to go in
  obtain ⟨hgood, r', m', hwrite, hrun⟩ | ⟨hnot, fault, hwrite⟩ :=
    run_write_cases hg hm hload data
  · rw [hwrite]
    refine ⟨iff_of_true ⟨_, _, rfl⟩ hgood, ?_, nofun, hptr⟩
    intro _ _ h
    cases h
    have hm' : g.memory (g.setMemory m' s) = .ok m' := hg.memory_setMemory m' hm
    refine ⟨m', rfl, hm', Region.written_of_write hrun, fun hapart => ?_⟩
    rw [← ptr_of_write hwrite]
    exact run_of_holds hm' (Region.holds_of_write hload hrun hapart)
  · rw [hwrite]
    refine ⟨iff_of_false nofun hnot, nofun, ?_, hptr⟩
    intro _ _ h
    cases h
    exact ⟨rfl, fault, rfl⟩

/-- The region at the edge, which is written up to its own descriptor. -/
theorem run_write_of_region_at_edge :
    ∃ r t, (bare.region 4294967284).run edgeMemory = .ok r edgeMemory ∧
      (bare.write r [5, 6, 7, 8]).run edgeMemory = .ok { r with length := 4 } t ∧
      (bare.read { r with length := 4 }).run t = .ok [5, 6, 7, 8] t ∧
      ((4294967284 : UInt32) + 8).toNat = 4294967292 := by
  have hm : bare.memory edgeMemory = .ok edgeMemory := rfl
  have hload : Region.load edgeMemory 4294967284 = .ok ⟨4294967284, 4294967280, 15, 4⟩ :=
    Region.load_eq_ok_iff_described.mpr
      ⟨by decide +kernel, by decide +kernel, Region.check_eq_ok.mpr (by decide)⟩
  have hr : (bare.region 4294967284).run edgeMemory =
      .ok ⟨4294967284, 4294967280, 15, 4⟩ edgeMemory :=
    run_region_eq_ok.mpr ⟨⟨edgeMemory, rfl, hload⟩, rfl⟩
  obtain ⟨hiff, hwritten, -, hptr⟩ := run_write_of_region faithful_bare hm hr [5, 6, 7, 8]
  obtain ⟨r', t, hrun⟩ := hiff.mpr (by decide)
  obtain ⟨m', -, -, hw, hback⟩ := hwritten r' t hrun
  obtain rfl := hw.region
  exact ⟨_, t, hr, hrun, (hback (by decide)).2, hptr⟩

end Access

end ContractHost
