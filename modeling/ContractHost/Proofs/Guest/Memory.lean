import ContractHost.Guest.Memory

/-!
# Bytes of a guest's memory

A write puts its bytes where it says, and touches no address besides (`changesOnly_write?`). So it
leaves alone every span that has no address in common with the one it goes to (`agrees_write?`), and
it neither adds nor takes away any address, so what lay inside the memory still does.
-/

namespace ContractHost.Guest

/-- Addresses one after the other. -/
structure Span where
  start : Nat
  length : Nat
  deriving DecidableEq, Repr

namespace Span

/-- Two spans have no address in common. -/
def Apart (s t : Span) : Prop :=
  s.length = 0 ∨ t.length = 0 ∨ s.start + s.length ≤ t.start ∨ t.start + t.length ≤ s.start

instance decidableApart (s t : Span) : Decidable (s.Apart t) :=
  inferInstanceAs (Decidable (_ ∨ _ ∨ _ ∨ _))

theorem Apart.symm {s t : Span} (h : s.Apart t) : t.Apart s := by
  unfold Apart at h ⊢
  omega

/-- A span lies in another one. -/
def Within (s t : Span) : Prop := t.start ≤ s.start ∧ s.start + s.length ≤ t.start + t.length

/-- An address is one of a span. -/
def Has (s : Span) (a : Nat) : Prop := s.start ≤ a ∧ a < s.start + s.length

/-- Spans that are apart share no address. -/
theorem Apart.not_has {s t : Span} (h : s.Apart t) {a : Nat} (ha : s.Has a) : ¬ t.Has a := by
  unfold Has at ha ⊢
  unfold Apart at h
  omega

theorem Within.refl (s : Span) : s.Within s := ⟨Nat.le_refl _, Nat.le_refl _⟩

/-- Parts of spans that are apart are apart. -/
theorem Apart.mono {s t : Span} (h : s.Apart t) {s' t' : Span} (hs : s'.Within s)
    (ht : t'.Within t) : s'.Apart t' := by
  unfold Within at hs ht
  unfold Apart at h ⊢
  omega

end Span

namespace Memory

/-! ## Single bytes -/

/-- Bytes that are put leave all others as they were. -/
theorem getD_put_outside {start a : Nat} {data : Bytes}
    (written : Std.TreeMap Nat UInt8 compare) (h : a < start ∨ start + data.length ≤ a) :
    (put start data written).getD a 0 = written.getD a 0 := by
  induction data generalizing start written with
  | nil => rfl
  | cons b bs ih =>
    rw [List.length_cons] at h
    have hne : start ≠ a := by omega
    rw [put, ih (written.insert start b) (by omega), Std.TreeMap.getD_insert]
    simp [hne]

/-- Bytes that are put are there, one behind the other. -/
theorem getD_put_inside {start i : Nat} {data : Bytes}
    (written : Std.TreeMap Nat UInt8 compare) (h : i < data.length) :
    (put start data written).getD (start + i) 0 = data[i] := by
  induction data generalizing start i written with
  | nil => cases h
  | cons b bs ih =>
    rw [put]
    cases i with
    | zero =>
      -- the bytes behind the first one do not reach back to it
      have hfirst : start < start + 1 ∨ start + 1 + bs.length ≤ start := .inl (Nat.lt_succ_self _)
      show (put (start + 1) bs (written.insert start b)).getD start 0 = b
      rw [getD_put_outside _ hfirst, Std.TreeMap.getD_insert_self]
    | succ i =>
      have hi : i < bs.length := Nat.lt_of_succ_lt_succ h
      have hat : start + (i + 1) = start + 1 + i := by omega
      rw [hat, ih _ hi, List.getElem_cons_succ]

/-! ## Spans -/

variable {m m' : Memory} {start : Nat} {data : Bytes}

/-- A span is inside a memory if its end is; an empty one is inside wherever it begins. -/
theorem covers_iff (m : Memory) (start length : Nat) :
    m.covers start length = true ↔ length = 0 ∨ start + length ≤ m.size := by
  simp [covers]

@[simp] theorem length_bytes (m : Memory) (start length : Nat) :
    (m.bytes start length).length = length := by
  simp [bytes]

/-- Bytes that stand behind one another are read in one. -/
theorem bytes_add (m : Memory) (start n k : Nat) :
    m.bytes start (n + k) = m.bytes start n ++ m.bytes (start + n) k := by
  simp [bytes, List.range_add, Nat.add_assoc]

/-- A span is read exactly if it is inside. -/
theorem read?_eq_some {n : Nat} {bs : Bytes} :
    m.read? start n = some bs ↔ m.covers start n = true ∧ m.bytes start n = bs := by
  unfold read?
  split
  · simp [*]
  · simp [*]

/-- A span is written exactly if it is inside, and nothing else is touched. -/
theorem write?_eq_some : m.write? start data = some m' ↔
    m.covers start data.length = true ∧ { m with written := put start data m.written } = m' := by
  unfold write?
  split
  · simp [*]
  · simp [*]

/-- What lies in a span that is inside the memory is inside too. -/
theorem covers_of_le {n k : Nat} (h : m.covers start n = true) (hk : k ≤ n) :
    m.covers start k = true := by
  rw [covers_iff] at h ⊢
  omega

/-- A write that lies inside the memory is good. -/
theorem exists_write? (h : m.covers start data.length = true) :
    ∃ m', m.write? start data = some m' := ⟨_, write?_eq_some.mpr ⟨h, rfl⟩⟩

/-- What was written is read. -/
theorem bytes_write? (h : m.write? start data = some m') :
    m'.bytes start data.length = data := by
  obtain ⟨-, rfl⟩ := write?_eq_some.mp h
  apply List.ext_getElem (length_bytes _ _ _)
  intro i _ hi
  simp only [bytes, List.getElem_map, List.getElem_range]
  exact getD_put_inside m.written hi

/-! ## Frames -/

/-- Memories of one size that have the same bytes, but at addresses that may be touched. -/
structure ChangesOnly (touched : Nat → Prop) (m m' : Memory) : Prop where
  size : m'.size = m.size
  byte : ∀ a, ¬ touched a → m'.byte a = m.byte a

namespace ChangesOnly

variable {p q : Nat → Prop} {m₁ m₂ m₃ : Memory}

/-- Changes in two places, one after the other. -/
theorem trans (h : ChangesOnly p m₁ m₂) (h' : ChangesOnly q m₂ m₃) :
    ChangesOnly (fun a => p a ∨ q a) m₁ m₃ where
  size := h'.size.trans h.size
  byte a ha := by
    obtain ⟨hp, hq⟩ := not_or.mp ha
    rw [h'.byte a hq, h.byte a hp]

/-- What is inside a memory stays so. -/
theorem covers (h : ChangesOnly p m₁ m₂) (a n : Nat) : m₂.covers a n = m₁.covers a n := by
  rw [Memory.covers, Memory.covers, h.size]

/-- A span that is not changed anywhere is read as before. -/
theorem bytes (h : ChangesOnly p m₁ m₂) (s : Span) (hs : ∀ a, s.Has a → ¬ p a) :
    m₂.bytes s.start s.length = m₁.bytes s.start s.length := by
  apply List.map_congr_left
  intro i hi
  have hi : i < s.length := List.mem_range.mp hi
  exact h.byte _ (hs _ ⟨Nat.le_add_right _ _, Nat.add_lt_add_left hi _⟩)

end ChangesOnly

/-- A write touches the addresses that it goes to. -/
theorem changesOnly_write? (h : m.write? start data = some m') :
    ChangesOnly (Span.Has ⟨start, data.length⟩) m m' := by
  obtain ⟨-, rfl⟩ := write?_eq_some.mp h
  refine ⟨rfl, fun a ha => getD_put_outside m.written ?_⟩
  unfold Span.Has at ha
  dsimp only at ha
  omega

theorem covers_write? (h : m.write? start data = some m') (a n : Nat) :
    m'.covers a n = m.covers a n := (changesOnly_write? h).covers a n

/-- A write is not seen where it does not go. -/
theorem bytes_write?_of_apart (h : m.write? start data = some m') {a n : Nat}
    (hapart : Span.Apart ⟨a, n⟩ ⟨start, data.length⟩) : m'.bytes a n = m.bytes a n :=
  (changesOnly_write? h).bytes ⟨a, n⟩ fun _ => hapart.not_has

/-- A span reads the same in two memories. -/
def Agrees (m m' : Memory) (s : Span) : Prop := m'.read? s.start s.length = m.read? s.start s.length

instance decidableAgrees (m m' : Memory) (s : Span) : Decidable (m.Agrees m' s) :=
  inferInstanceAs (Decidable (_ = _))

theorem Agrees.trans {s : Span} {m₁ m₂ m₃ : Memory} (h : m₁.Agrees m₂ s) (h' : m₂.Agrees m₃ s) :
    m₁.Agrees m₃ s := Eq.trans h' h

/-- What was written is read. -/
theorem read?_write? (h : m.write? start data = some m') :
    m'.read? start data.length = some data := by
  obtain ⟨hcovers, -⟩ := write?_eq_some.mp h
  rw [read?_eq_some, covers_write? h]
  exact ⟨hcovers, bytes_write? h⟩

/-- A span that is not touched reads the same. -/
theorem ChangesOnly.agrees {p : Nat → Prop} (h : ChangesOnly p m m') {s : Span}
    (hs : ∀ a, s.Has a → ¬ p a) : m.Agrees m' s := by
  rw [Agrees, read?, read?, h.covers, h.bytes s hs]

/-- Elsewhere is read what was there. -/
theorem agrees_write? (h : m.write? start data = some m') {s : Span}
    (hapart : s.Apart ⟨start, data.length⟩) : m.Agrees m' s :=
  (changesOnly_write? h).agrees fun _ => hapart.not_has

end Memory

end ContractHost.Guest
