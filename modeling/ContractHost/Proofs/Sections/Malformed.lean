import ContractHost.Proofs.Batch
import ContractHost.Proofs.Sections
import Mathlib.Data.Nat.PSub

/-!
# Malformed buffers

A buffer is malformed if it can be cut at a length field that asks for more bytes than there are in
front of it, with packed sections and nothing else behind it (`Breaks`). There is one such cut at
most, although the sections may look like length fields, and the field at the cut is the one that is
complained about (`malformed_iff_breaks`).

The reader goes over a buffer from its end; `readAt?` does the same by places in the buffer, with
every difference and every slice checked, and so tells that none is ever out of range.
-/

namespace ContractHost.Sections

variable {d p p' : Bytes} {n n' : Nat} {ys ys' : List Bytes}

/-! ## Cuts -/

/-- A buffer is cut at a length field that asks for more bytes than there are in front of it. -/
structure Breaks (d p : Bytes) (n : Nat) (ys : List Bytes) : Prop where
  buffer : d = p ++ Bytes.ofNatBE 4 n ++ encode ys
  field : n < UInt32.size
  short : p.length < n
  sections : Fit ys

namespace Breaks

theorem decode_eq (h : Breaks d p n ys) : decode d = .error ⟨n, p.length⟩ := by
  rw [h.buffer]
  exact decode_field_append_encode h.field h.short h.sections

/-- A buffer is cut in one way. -/
theorem unique (h : Breaks d p n ys) (h' : Breaks d p' n' ys') : p = p' ∧ n = n' ∧ ys = ys' := by
  -- both cuts are complained about, so the fields are one and stand at one place
  have heq := h.decode_eq.symm.trans h'.decode_eq
  rw [Except.error.injEq, Malformed.mk.injEq] at heq
  obtain ⟨rfl, hlength⟩ := heq
  have hbuffer : (p ++ Bytes.ofNatBE 4 n) ++ encode ys = (p' ++ Bytes.ofNatBE 4 n) ++ encode ys' :=
    h.buffer.symm.trans h'.buffer
  have hfront : (p ++ Bytes.ofNatBE 4 n).length = (p' ++ Bytes.ofNatBE 4 n).length := by
    rw [List.length_append, List.length_append, hlength]
  obtain ⟨hp, hys⟩ := List.append_inj hbuffer hfront
  exact ⟨List.append_cancel_right hp, rfl, encode_injOn h.sections h'.sections hys⟩

/-- Packed sections behind a malformed buffer do not mend it. -/
theorem append (h : Breaks d p n ys) {zs : List Bytes} (hz : Fit zs) :
    Breaks (d ++ encode zs) p n (ys ++ zs) where
  buffer := by rw [h.buffer, List.append_assoc, encode_append]
  field := h.field
  short := h.short
  sections := h.sections.append hz

end Breaks

theorem exists_breaks {e : Malformed} (h : decode d = .error e) :
    ∃ p ys, Breaks d p e.length ys ∧ p.length = e.available := by
  obtain ⟨front, ys, hfit, rfl, hfront | ⟨p, n, hn, hbad, rfl⟩⟩ := exists_cut d
  · rw [decode_head_append_encode front hfront hfit] at h
    cases h
  · rw [decode_field_append_encode hn hbad hfit] at h
    cases h
    exact ⟨p, ys, ⟨rfl, hn, hbad, hfit⟩, rfl⟩

/-! ## Reading by places -/

/-- The bytes of a buffer between two places, if they are places of it and in this order. -/
def slice? (data : Bytes) (start stop : Nat) : Option Bytes :=
  if start ≤ stop ∧ stop ≤ data.length then some (data.extract start stop) else none

theorem slice?_append_append (a b c : Bytes) :
    slice? (a ++ b ++ c) a.length (a ++ b).length = some b := by
  have hplaces : a.length ≤ (a ++ b).length ∧ (a ++ b).length ≤ (a ++ b ++ c).length := by simp
  rw [slice?, if_pos hplaces, List.extract_eq_take_drop]
  simp

/-- Reads the part of a buffer in front of a place, the sections behind it being known. It answers
none if a difference would be negative or a slice is not one of the buffer. -/
def readAt? (data : Bytes) :
    (fuel : Nat) → (place : Nat) → (sections : List Bytes) → Option (Except Malformed (List Bytes))
  | 0, _, _ => none
  | fuel + 1, place, sections =>
    if place < 4 then some (.ok sections)
    else do
      let stop ← Nat.psub place 4
      let field ← slice? data stop place
      let length := Bytes.toNatBE field
      if stop < length then return .error ⟨length, stop⟩
      let start ← Nat.psub stop length
      let s ← slice? data start stop
      readAt? data fuel start (s :: sections)

/-- One round of the reader, at a place behind a length field. -/
theorem readAt?_append_field (q rest : Bytes) (hn : n < UInt32.size) (fuel : Nat)
    (sections : List Bytes) :
    readAt? (q ++ Bytes.ofNatBE 4 n ++ rest) (fuel + 1) (q ++ Bytes.ofNatBE 4 n).length sections =
      if q.length < n then some (.error ⟨n, q.length⟩)
      else readAt? (q ++ Bytes.ofNatBE 4 n ++ rest) fuel (q.length - n)
        (q.drop (q.length - n) :: sections) := by
  have hplace : (q ++ Bytes.ofNatBE 4 n).length = q.length + 4 := by simp
  have hstop : Nat.psub (q ++ Bytes.ofNatBE 4 n).length 4 = some q.length := by
    rw [hplace, Nat.psub_eq_some]
  have hvalue : Bytes.toNatBE (Bytes.ofNatBE 4 n) = n := by
    rw [Bytes.toNatBE_ofNatBE]
    exact Nat.mod_eq_of_lt hn
  rw [readAt?, if_neg (by omega), hstop]
  show (slice? _ q.length (q ++ Bytes.ofNatBE 4 n).length).bind _ = _
  rw [slice?_append_append]
  show (if q.length < Bytes.toNatBE (Bytes.ofNatBE 4 n) then _ else _) = _
  rw [hvalue]
  by_cases hbad : q.length < n
  · rw [if_pos hbad, if_pos hbad]
    rfl
  · rw [if_neg hbad, if_neg hbad, Nat.psub_eq_sub (Nat.le_of_not_lt hbad)]
    show (slice? _ (q.length - n) q.length).bind _ = _
    -- the section is what the buffer has between its start and the field
    have hslice : slice? (q ++ Bytes.ofNatBE 4 n ++ rest) (q.length - n) q.length =
        some (q.drop (q.length - n)) := by
      have hcut := slice?_append_append (q.take (q.length - n)) (q.drop (q.length - n))
        (Bytes.ofNatBE 4 n ++ rest)
      rw [List.take_append_drop, List.length_take, Nat.min_eq_left (Nat.sub_le _ _)] at hcut
      rw [List.append_assoc]
      exact hcut
    rw [hslice]
    rfl

/-- Nothing is out of range at any place of a buffer, and what is read is what stands in front of
it. -/
theorem readAt?_eq_some (q rest : Bytes) {fuel : Nat} (hfuel : q.length < fuel)
    (sections : List Bytes) :
    readAt? (q ++ rest) fuel q.length sections = some (decodeBefore q sections) := by
  -- the fuel is more than the bytes to be read, and every round takes a field off
  induction fuel generalizing q rest sections with
  | zero => omega
  | succ fuel ih =>
    by_cases hshort : q.length < 4
    · rw [readAt?, if_pos hshort, decodeBefore_of_short hshort]
    obtain ⟨q, n, hn, rfl⟩ := exists_append_field (Nat.le_of_not_lt hshort)
    rw [readAt?_append_field q rest hn, decodeBefore_append_field q hn]
    by_cases hbad : q.length < n
    · rw [if_pos hbad, if_pos hbad]
    · rw [if_neg hbad, if_neg hbad]
      have hfront : (q.take (q.length - n)).length = q.length - n := by simp
      have hless : (q.take (q.length - n)).length < fuel := by
        rw [List.length_append, Bytes.length_ofNatBE] at hfuel
        omega
      have hread := ih (q.take (q.length - n))
        (q.drop (q.length - n) ++ Bytes.ofNatBE 4 n ++ rest) hless
        (q.drop (q.length - n) :: sections)
      rw [hfront, ← List.append_assoc, ← List.append_assoc, List.take_append_drop] at hread
      exact hread

/-! ## Which buffers are refused, and with what -/

/-- A buffer is refused exactly if it is cut at a length field that asks for more than there is in
front of it, and packed sections follow. There is one cut only, and the refusal names the length and
the bytes there are; packed sections that are appended change nothing of it. A contract that hands
the buffer over learns it as a validation fault. In reading, no difference is negative and no slice
out of the buffer. -/
theorem malformed_iff_breaks (d : Bytes) :
    ((∃ e, decode d = .error e) ↔ ∃ p n ys, Breaks d p n ys) ∧
    (∀ p n ys, Breaks d p n ys →
      (∀ p' n' ys', Breaks d p' n' ys' → p' = p ∧ n' = n ∧ ys' = ys) ∧
      decode d = .error ⟨n, p.length⟩ ∧
      (∀ zs, Fit zs → decode (d ++ encode zs) = .error ⟨n, p.length⟩) ∧
      ∀ signatures keys h, ∃ fault,
        (Signatures.batchVerify d signatures keys).run h = .error (.validation fault) h ∧
          fault.message = s!"section length {n} exceeds the {p.length} bytes left") ∧
    readAt? d (d.length + 1) d.length [] = some (decode d) := by
  refine ⟨⟨?_, ?_⟩, ?_, ?_⟩
  · rintro ⟨e, he⟩
    obtain ⟨p, ys, hbreaks, -⟩ := exists_breaks he
    exact ⟨p, e.length, ys, hbreaks⟩
  · rintro ⟨p, n, ys, hbreaks⟩
    exact ⟨_, hbreaks.decode_eq⟩
  · intro p n ys h
    refine ⟨fun p' n' ys' h' => h'.unique h, h.decode_eq, fun zs hz => (h.append hz).decode_eq, ?_⟩
    intro signatures keys host
    refine ⟨.sections ⟨n, p.length⟩, ?_, rfl⟩
    rw [Signatures.batchVerify, Batch.verify_of_messages_malformed h.decode_eq]
    exact Signatures.run_ofBatch_sections host _
  · have hread := readAt?_eq_some d [] (Nat.lt_succ_self _) []
    rw [List.append_nil] at hread
    exact hread

/-- Three bytes in front of a field that asks for nine, and behind it a section that looks like a
field and an empty one. -/
theorem breaks_before_lookalike :
    Breaks ([7, 7, 7] ++ Bytes.ofNatBE 4 9 ++ encode [[0, 0, 0, 1], []]) [7, 7, 7] 9
        [[0, 0, 0, 1], []] ∧
      decode ([7, 7, 7] ++ Bytes.ofNatBE 4 9 ++ encode [[0, 0, 0, 1], []]) = .error ⟨9, 3⟩ ∧
      decode ([7, 7, 7] ++ Bytes.ofNatBE 4 9 ++ encode [[0, 0, 0, 1], []] ++ encode [[5]]) =
        .error ⟨9, 3⟩ := by
  have hbreaks : Breaks ([7, 7, 7] ++ Bytes.ofNatBE 4 9 ++ encode [[0, 0, 0, 1], []]) [7, 7, 7] 9
      [[0, 0, 0, 1], []] := ⟨rfl, by decide, by decide, by simp [Fit, UInt32.size]⟩
  obtain ⟨-, hdecode, happend, -⟩ := (malformed_iff_breaks _).2.1 _ _ _ hbreaks
  exact ⟨hbreaks, hdecode, happend [[5]] (by simp [Fit, UInt32.size])⟩

end ContractHost.Sections
