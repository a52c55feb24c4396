import ContractHost.Guest.Region
import ContractHost.Proofs.Bytes
import ContractHost.Proofs.Guest.Memory

/-!
# Regions that are read back

A region holds bytes if its descriptor is read as the region itself and its buffer as the bytes
(`Holds`). Bytes are written into a region as a whole or not at all (`run_write_cases`). If the
region's descriptor and its buffer do not overlap, it holds them then (`holds_of_write`): the length
goes into the last word of the descriptor and the rest of it stays. A region holds what it held
after everything that leaves its descriptor and its bytes in use alone (`Holds.of_kept`), and so
does a write into a region that is apart from it (`kept_of_write`).
-/

namespace ContractHost.Guest.Region

variable {m m' : Memory} {r r' s : Region} {data : Bytes}

/-! ## Where a region lies -/

/-- The addresses of a descriptor. -/
def descriptorSpan (r : Region) : Span := ⟨r.ptr.toNat, descriptorSize⟩

/-- The addresses of a buffer. -/
def bufferSpan (r : Region) : Span := ⟨r.offset.toNat, r.capacity.toNat⟩

/-- The addresses of the bytes in use. -/
def usedSpan (r : Region) : Span := ⟨r.offset.toNat, r.length.toNat⟩

/-- Two regions share no address, neither of descriptors nor of buffers. -/
def Apart (r s : Region) : Prop :=
  (r.descriptorSpan.Apart s.descriptorSpan ∧ r.descriptorSpan.Apart s.bufferSpan) ∧
    r.bufferSpan.Apart s.descriptorSpan ∧ r.bufferSpan.Apart s.bufferSpan

instance decidableApart (r s : Region) : Decidable (r.Apart s) :=
  inferInstanceAs (Decidable ((_ ∧ _) ∧ _ ∧ _))

/-! ## Descriptors -/

/-- What is asked of every region: an offset, a length within the capacity, and an end below the
last address. -/
theorem check_eq_ok : r.check = .ok () ↔
    r.offset ≠ 0 ∧ r.length ≤ r.capacity ∧ r.offset.toNat + r.capacity.toNat < UInt32.size := by
  unfold check
  by_cases hoffset : r.offset = 0
  · simp [hoffset]
  by_cases hlength : r.length ≤ r.capacity
  · have hnot : ¬ r.capacity < r.length := UInt32.not_lt.mpr hlength
    by_cases hend : UInt32.size ≤ r.offset.toNat + r.capacity.toNat
    · simp [hoffset, hnot, hend]
    · simp [hoffset, hlength, hnot, hend, Nat.lt_of_not_le hend]
  · simp [hoffset, hlength, UInt32.not_le.mp hlength]

theorem readSpan_eq_ok {length offset : Nat} :
    readSpan m length offset = .ok data ↔ m.read? offset length = some data := by
  rw [readSpan]
  cases m.read? offset length with
  | none => exact iff_of_false nofun nofun
  | some bs => rw [Except.ok.injEq, Option.some.injEq]

/-- A region is loaded exactly if its descriptor is inside the memory and passes the check. -/
theorem load_eq_ok {ptr : UInt32} : load m ptr = .ok r ↔ ptr ≠ 0 ∧
    ∃ bs, m.read? ptr.toNat descriptorSize = some bs ∧ ofDescriptor ptr bs = r ∧
      r.check = .ok () := by
  by_cases hptr : ptr = 0
  · subst hptr
    exact iff_of_false nofun fun h => h.1 rfl
  -- past the pointer zero, loading is a read and a check
  have hload : load m ptr = readSpan m descriptorSize ptr.toNat >>= fun bs =>
      (ofDescriptor ptr bs).check >>= fun _ => pure (ofDescriptor ptr bs) := if_neg hptr
  rw [hload]
  simp only [ne_eq, hptr, not_false_eq_true, true_and, ← readSpan_eq_ok]
  cases readSpan m descriptorSize ptr.toNat with
  | error e => exact iff_of_false nofun nofun
  | ok bs =>
    simp only [Except.ok.injEq, exists_eq_left']
    show ((ofDescriptor ptr bs).check >>= fun _ => pure (ofDescriptor ptr bs)) = .ok r ↔ _
    constructor
    · intro h
      cases hcheck : (ofDescriptor ptr bs).check with
      | ok _ =>
        rw [hcheck] at h
        cases h
        exact ⟨rfl, hcheck⟩
      | error e =>
        rw [hcheck] at h
        cases h
    · rintro ⟨rfl, hcheck⟩
      rw [hcheck]
      rfl

/-- A region remembers where its descriptor stands. -/
theorem ptr_of_load {ptr : UInt32} (h : load m ptr = .ok r) : r.ptr = ptr := by
  obtain ⟨-, bs, -, rfl, -⟩ := load_eq_ok.mp h
  rfl

/-- Whoever changes the last word of a descriptor changes the length that it spells. -/
theorem ofDescriptor_length (ptr : UInt32) {front back back' : Bytes} (hfront : front.length = 8) :
    ofDescriptor ptr (front ++ back') =
      { ofDescriptor ptr (front ++ back) with length := UInt32.ofNat (Bytes.toNatLE back') } := by
  have htake (bs : Bytes) : (front ++ bs).take 4 = front.take 4 :=
    List.take_append_of_le_length (by omega)
  have hmid (bs : Bytes) : ((front ++ bs).drop 4).take 4 = (front.drop 4).take 4 := by
    rw [List.drop_append_of_le_length (by omega), List.take_append_of_le_length]
    simp [hfront]
  have hlast : (front ++ back').drop 8 = back' := by rw [← hfront, List.drop_left]
  simp only [ofDescriptor, htake, hmid, hlast]

/-! ## Writing -/

/-- Each of the two writes is done, or out of bounds. -/
theorem run_store (offset : Nat) (data : Bytes) (m : Memory) :
    (write.store offset data).run m = match m.write? offset data with
      | some m' => .ok () m'
      | none => .error (.writeOutside data.length offset) m := by
  unfold write.store writeSpan
  simp only [EStateM.run_bind, EStateM.run_get]
  cases m.write? offset data with
  | some m' => rfl
  | none => rfl

/-- Two spans are stored one after the other. -/
theorem run_store_both {a b : Nat} {first second : Bytes} :
    (write.store a first >>= fun _ => write.store b second >>= fun _ => pure r).run m = .ok r' m' ↔
      r = r' ∧ ∃ m₁, m.write? a first = some m₁ ∧ m₁.write? b second = some m' := by
  rw [EStateM.run_bind, run_store]
  cases m.write? a first with
  | none => exact iff_of_false nofun (by simp)
  | some m₁ =>
    simp only [Option.some.injEq, exists_eq_left']
    rw [EStateM.run_bind, run_store]
    cases m₁.write? b second with
    | none => exact iff_of_false nofun (by simp)
    | some m₂ =>
      simp only [Option.some.injEq]
      show EStateM.Result.ok r m₂ = .ok r' m' ↔ _
      rw [EStateM.Result.ok.injEq]

/-- Bytes that fit are stored in the buffer first, and then their number in the descriptor. -/
theorem write_of_fits (hptr : r.ptr ≠ 0) (hfits : data.length ≤ r.capacity.toNat) :
    r.write data = write.store r.offset.toNat data >>= fun _ =>
      write.store (r.ptr.toNat + lengthOffset) (Bytes.ofNatLE 4 data.length) >>= fun _ =>
        pure { r with length := UInt32.ofNat data.length } := by
  have hnull : ¬ r.isNull = true := fun h => hptr (beq_iff_eq.mp h)
  have hsize : ¬ UInt32.size ≤ data.length :=
    Nat.not_le.mpr (Nat.lt_of_le_of_lt hfits r.capacity.toNat_lt_size)
  rw [write, if_neg hnull]
  exact (if_neg hsize).trans (if_neg (Nat.not_lt.mpr hfits))

/-- What does not fit is refused before anything is written. -/
theorem run_write_of_not_fits (h : ¬ (r.ptr ≠ 0 ∧ data.length ≤ r.capacity.toNat)) (m : Memory) :
    ∃ e, (r.write data).run m = .error e m := by
  by_cases hptr : r.ptr = 0
  · have hnull : r.isNull = true := beq_iff_eq.mpr hptr
    refine ⟨.writeToNull, ?_⟩
    rw [write, if_pos hnull]
    rfl
  have hnull : ¬ r.isNull = true := fun h => hptr (beq_iff_eq.mp h)
  have hfits : r.capacity.toNat < data.length := Nat.lt_of_not_le fun hfits => h ⟨hptr, hfits⟩
  rw [write, if_neg hnull]
  by_cases hsize : UInt32.size ≤ data.length
  · exact ⟨.unfit data.length, congrFun (if_pos hsize) m⟩
  · exact ⟨.overCapacity data.length r.capacity,
      congrFun ((if_neg hsize).trans (if_pos hfits)) m⟩

/-- A write that succeeds is two stores. -/
theorem run_write_eq_ok : (r.write data).run m = .ok r' m' ↔
    (r.ptr ≠ 0 ∧ data.length ≤ r.capacity.toNat) ∧
      { r with length := UInt32.ofNat data.length } = r' ∧
      ∃ m₁, m.write? r.offset.toNat data = some m₁ ∧
        m₁.write? (r.ptr.toNat + lengthOffset) (Bytes.ofNatLE 4 data.length) = some m' := by
  by_cases hfits : r.ptr ≠ 0 ∧ data.length ≤ r.capacity.toNat
  · rw [write_of_fits hfits.1 hfits.2, run_store_both]
    exact (and_iff_right hfits).symm
  · obtain ⟨e, hrun⟩ := run_write_of_not_fits hfits m
    rw [hrun]
    exact iff_of_false nofun fun h => hfits h.1

/-- What fits and goes inside the memory can be written. -/
theorem exists_write (h : load m r.ptr = .ok r) (hfits : data.length ≤ r.capacity.toNat)
    (hinside : m.covers r.offset.toNat data.length = true) :
    ∃ m', (r.write data).run m = .ok { r with length := UInt32.ofNat data.length } m' := by
  obtain ⟨hptr, bs, hread, -, -⟩ := load_eq_ok.mp h
  have hdescriptor := (Memory.covers_iff _ _ _).mp (Memory.read?_eq_some.mp hread).1
  obtain ⟨m₁, hm₁⟩ := Memory.exists_write? hinside
  -- the descriptor was loaded, so its last word lies inside the memory too
  have hword : m₁.covers (r.ptr.toNat + lengthOffset)
      (Bytes.ofNatLE 4 data.length).length = true := by
    rw [Memory.covers_write? hm₁, Memory.covers_iff, Bytes.length_ofNatLE]
    unfold descriptorSize at hdescriptor
    unfold lengthOffset
    omega
  obtain ⟨m', hm'⟩ := Memory.exists_write? hword
  exact ⟨m', run_write_eq_ok.mpr ⟨⟨hptr, hfits⟩, rfl, m₁, hm₁, hm'⟩⟩

/-- Bytes are written as a whole, or nothing is: the number of the bytes has its place wherever the
bytes have theirs. -/
theorem run_write_cases (h : load m r.ptr = .ok r) (data : Bytes) :
    ((data.length ≤ r.capacity.toNat ∧ m.covers r.offset.toNat data.length = true) ∧
      ∃ m', (r.write data).run m = .ok { r with length := UInt32.ofNat data.length } m') ∨
    (¬ (data.length ≤ r.capacity.toNat ∧ m.covers r.offset.toNat data.length = true) ∧
      ∃ e, (r.write data).run m = .error e m) := by
  by_cases hgood : data.length ≤ r.capacity.toNat ∧ m.covers r.offset.toNat data.length = true
  · exact .inl ⟨hgood, exists_write h hgood.1 hgood.2⟩
  refine .inr ⟨hgood, ?_⟩
  by_cases hfits : r.ptr ≠ 0 ∧ data.length ≤ r.capacity.toNat
  · have hnone : m.write? r.offset.toNat data = none :=
      if_neg fun hcovers => hgood ⟨hfits.2, hcovers⟩
    rw [write_of_fits hfits.1 hfits.2, EStateM.run_bind, run_store, hnone]
    exact ⟨_, rfl⟩
  · exact run_write_of_not_fits hfits m

/-- A write touches the bytes that it puts into the buffer and the last word of the descriptor. -/
theorem changesOnly_of_write (hw : (r.write data).run m = .ok r' m') :
    m.ChangesOnly (fun a => Span.Has ⟨r.offset.toNat, data.length⟩ a ∨
      Span.Has ⟨r.ptr.toNat + lengthOffset, 4⟩ a) m' := by
  obtain ⟨-, -, m₁, hm₁, hm'⟩ := run_write_eq_ok.mp hw
  have hword := Memory.changesOnly_write? hm'
  rw [Bytes.length_ofNatLE] at hword
  exact (Memory.changesOnly_write? hm₁).trans hword

/-- What it is for a region to be filled, told by the bytes of the memory: there is room for the
data and they go inside the memory, their number stands in the last word of the descriptor, every
byte of them is in its place unless that word is there, and at all other addresses the memory is as
it was. -/
structure Filled (m : Memory) (r : Region) (data : Bytes) (m' : Memory) : Prop where
  fits : data.length ≤ r.capacity.toNat
  inside : data = [] ∨ r.offset.toNat + data.length ≤ m.size
  number : m'.bytes (r.ptr.toNat + lengthOffset) 4 = Bytes.ofNatLE 4 data.length
  byte : ∀ i (hi : i < data.length),
    ¬ Span.Has ⟨r.ptr.toNat + lengthOffset, 4⟩ (r.offset.toNat + i) →
      m'.byte (r.offset.toNat + i) = data[i]
  memory : m.ChangesOnly (fun a => Span.Has ⟨r.offset.toNat, data.length⟩ a ∨
    Span.Has ⟨r.ptr.toNat + lengthOffset, 4⟩ a) m'

/-- A write that succeeds fills the region. -/
theorem filled_of_write (hw : (r.write data).run m = .ok r' m') : r.Filled m data m' := by
  obtain ⟨⟨-, hfits⟩, -, m₁, hm₁, hm'⟩ := run_write_eq_ok.mp hw
  have hword := Memory.changesOnly_write? hm'
  have hnumber := Memory.bytes_write? hm'
  rw [Bytes.length_ofNatLE] at hword hnumber
  obtain ⟨hcovers, rfl⟩ := Memory.write?_eq_some.mp hm₁
  rw [Memory.covers_iff, List.length_eq_zero_iff] at hcovers
  refine ⟨hfits, hcovers, hnumber, fun i hi hapart => ?_, changesOnly_of_write hw⟩
  -- the number is written last and leaves the byte alone
  rw [hword.byte _ hapart]
  exact Memory.getD_put_inside m.written hi

/-! ## Reading back -/

/-- A region is read exactly if its bytes in use are inside the memory. -/
theorem read_eq_ok (hptr : r.ptr ≠ 0) :
    read m r = .ok data ↔ m.read? r.offset.toNat r.length.toNat = some data := by
  unfold read readSpan isNull
  simp only [beq_iff_eq, hptr, if_false]
  cases m.read? r.offset.toNat r.length.toNat with
  | none => exact iff_of_false nofun nofun
  | some bs => simp

/-- A region is there, and these are its bytes in use. -/
structure Holds (m : Memory) (r : Region) (data : Bytes) : Prop where
  load : load m r.ptr = .ok r
  read : read m r = .ok data

/-- A region's descriptor and its bytes in use read the same in two memories. -/
def Kept (m m' : Memory) (r : Region) : Prop :=
  m.Agrees m' r.descriptorSpan ∧ m.Agrees m' r.usedSpan

instance decidableKept (m m' : Memory) (r : Region) : Decidable (r.Kept m m') :=
  inferInstanceAs (Decidable (_ ∧ _))

/-- A region holds what it held if descriptor and bytes are kept. -/
theorem Holds.of_kept (h : Holds m r data) (hkept : r.Kept m m') : Holds m' r data := by
  obtain ⟨hptr, bs, hread, hspells, hcheck⟩ := load_eq_ok.mp h.load
  have hused : m.read? r.offset.toNat r.length.toNat = some data := (read_eq_ok hptr).mp h.read
  exact ⟨load_eq_ok.mpr ⟨hptr, bs, Eq.trans hkept.1 hread, hspells, hcheck⟩,
    (read_eq_ok hptr).mpr (Eq.trans hkept.2 hused)⟩

/-- What is apart from a region is kept when the region is written to. -/
theorem agrees_of_write (hw : (r.write data).run m = .ok r' m') {s : Span}
    (hdescriptor : s.Apart r.descriptorSpan) (hbuffer : s.Apart r.bufferSpan) : m.Agrees m' s := by
  obtain ⟨⟨-, hfits⟩, -⟩ := run_write_eq_ok.mp hw
  have hdata : Span.Within ⟨r.offset.toNat, data.length⟩ r.bufferSpan :=
    ⟨Nat.le_refl _, Nat.add_le_add_left hfits _⟩
  have hword : Span.Within ⟨r.ptr.toNat + lengthOffset, 4⟩ r.descriptorSpan :=
    ⟨Nat.le_add_right _ _, Nat.le_refl _⟩
  refine (changesOnly_of_write hw).agrees fun a ha => not_or.mpr ⟨?_, ?_⟩
  · exact (hbuffer.mono (.refl s) hdata).not_has ha
  · exact (hdescriptor.mono (.refl s) hword).not_has ha

/-- A region that is apart from the one that is written to is kept. -/
theorem kept_of_write (hw : (r.write data).run m = .ok r' m') (hs : s.Apart r)
    (hlength : s.length ≤ s.capacity) : s.Kept m m' := by
  obtain ⟨⟨hdd, hdb⟩, hbd, hbb⟩ := hs
  have hused : s.usedSpan.Within s.bufferSpan :=
    ⟨Nat.le_refl _, Nat.add_le_add_left (UInt32.le_iff_toNat_le.mp hlength) _⟩
  exact ⟨agrees_of_write hw hdd hdb, agrees_of_write hw (hbd.mono hused (.refl _))
    (hbb.mono hused (.refl _))⟩

/-- A word written over the last one of a descriptor is read as the length. -/
theorem load_of_length {n : Nat} (h : load m r.ptr = .ok r)
    (hw : m.write? (r.ptr.toNat + lengthOffset) (Bytes.ofNatLE 4 n) = some m')
    (hn : n ≤ r.capacity.toNat) :
    load m' r.ptr = .ok { r with length := UInt32.ofNat n } := by
  obtain ⟨hptr, bs, hread, hspells, hcheck⟩ := load_eq_ok.mp h
  obtain ⟨hoffset, -, hend⟩ := check_eq_ok.mp hcheck
  obtain ⟨hcovers, hbytes⟩ := Memory.read?_eq_some.mp hread
  have hsize : n < UInt32.size := Nat.lt_of_le_of_lt hn r.capacity.toNat_lt_size
  have hword : Bytes.toNatLE (Bytes.ofNatLE 4 n) = n := by
    have hpow : 256 ^ 4 = UInt32.size := by decide
    rw [Bytes.toNatLE_ofNatLE, hpow, Nat.mod_eq_of_lt hsize]
  -- the two words in front of it stay
  have hfront : m'.bytes r.ptr.toNat 8 = m.bytes r.ptr.toNat 8 :=
    Memory.bytes_write?_of_apart hw (.inr (.inr (.inl (Nat.le_refl _))))
  have hback : m'.bytes (r.ptr.toNat + 8) 4 = Bytes.ofNatLE 4 n := by
    have hback := Memory.bytes_write? hw
    rwa [Bytes.length_ofNatLE] at hback
  have hread' : m'.read? r.ptr.toNat descriptorSize =
      some (m.bytes r.ptr.toNat 8 ++ Bytes.ofNatLE 4 n) := by
    refine Memory.read?_eq_some.mpr ⟨?_, ?_⟩
    · rw [Memory.covers_write? hw]
      exact hcovers
    · rw [← hfront, ← hback]
      exact Memory.bytes_add m' _ 8 4
  have hr : ofDescriptor r.ptr (m.bytes r.ptr.toNat 8 ++ m.bytes (r.ptr.toNat + 8) 4) = r := by
    rw [← Memory.bytes_add]
    rw [← hbytes] at hspells
    exact hspells
  refine load_eq_ok.mpr ⟨hptr, _, hread', ?_, check_eq_ok.mpr ⟨hoffset, ?_, hend⟩⟩
  · rw [ofDescriptor_length _ (Memory.length_bytes _ _ _), hr, hword]
  · rw [UInt32.le_iff_toNat_le, UInt32.toNat_ofNat_of_lt' hsize]
    exact hn

/-- A region holds what was written into it, unless the bytes went over its own descriptor. -/
theorem holds_of_write (h : load m r.ptr = .ok r) (hw : (r.write data).run m = .ok r' m')
    (hapart : r.descriptorSpan.Apart ⟨r.offset.toNat, data.length⟩) : Holds m' r' data := by
  obtain ⟨⟨hptr, hfits⟩, rfl, m₁, hm₁, hm'⟩ := run_write_eq_ok.mp hw
  have hsize : data.length < UInt32.size := Nat.lt_of_le_of_lt hfits r.capacity.toNat_lt_size
  -- the bytes leave the descriptor as it was, and then the word leaves the bytes
  have hload : load m₁ r.ptr = .ok r := by
    obtain ⟨-, bs, hread, hspells, hcheck⟩ := load_eq_ok.mp h
    exact load_eq_ok.mpr ⟨hptr, bs, Eq.trans (Memory.agrees_write? hm₁ hapart) hread, hspells,
      hcheck⟩
  have hword : Span.Apart ⟨r.offset.toNat, data.length⟩
      ⟨r.ptr.toNat + lengthOffset, (Bytes.ofNatLE 4 data.length).length⟩ :=
    hapart.symm.mono (.refl _) ⟨Nat.le_add_right _ _, Nat.le_refl _⟩
  have hused : m'.read? r.offset.toNat (UInt32.ofNat data.length).toNat = some data := by
    rw [UInt32.toNat_ofNat_of_lt' hsize]
    exact Eq.trans (Memory.agrees_write? hm' hword) (Memory.read?_write? hm₁)
  have hload' : load m' r.ptr = .ok { r with length := UInt32.ofNat data.length } :=
    load_of_length hload hm' hfits
  exact ⟨hload', (read_eq_ok (r := { r with length := UInt32.ofNat data.length }) hptr).mpr hused⟩

end ContractHost.Guest.Region
