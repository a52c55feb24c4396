import ContractHost.Sections
import ContractHost.Proofs.Bytes
import Mathlib.Data.List.Induction

/-!
# The packed form of sections is exact

A buffer is read from its end, so everything here is said of a buffer with sections behind it that
are already known: `decodeBefore` reads such a buffer, and `decode` is the case of none. What one
round of the reader does is `decodeBefore_append_field`; what it does to a whole packed list behind
any buffer is `decodeBefore_append_encode`, which holds for readable and malformed buffers alike.

`decode_eq_ok_iff` says which buffers are read, and as what. A section fits only if its length does
into four bytes, which is what `Fit` asks.
-/

namespace ContractHost.Sections

/-- Every section's length fits its field. -/
def Fit (sections : List Bytes) : Prop := ∀ s ∈ sections, s.length < UInt32.size

theorem Fit.append {xs ys : List Bytes} (hx : Fit xs) (hy : Fit ys) : Fit (xs ++ ys) := by
  intro s hs
  rcases List.mem_append.mp hs with h | h
  · exact hx s h
  · exact hy s h

theorem Fit.of_append_left {xs ys : List Bytes} (h : Fit (xs ++ ys)) : Fit xs :=
  fun s hs => h s (List.mem_append_left ys hs)

theorem fit_singleton {s : Bytes} : Fit [s] ↔ s.length < UInt32.size := by simp [Fit]

/-! ## Packing -/

theorem encode_append (xs ys : List Bytes) : encode (xs ++ ys) = encode xs ++ encode ys := by
  simp [encode]

theorem encode_singleton (s : Bytes) : encode [s] = s ++ Bytes.ofNatBE 4 s.length := by
  simp [encode]

/-- A list with one more section at its end, cut at that section's length field. -/
theorem encode_concat (xs : List Bytes) (s : Bytes) :
    encode (xs ++ [s]) = (encode xs ++ s) ++ Bytes.ofNatBE 4 s.length := by
  rw [encode_append, encode_singleton, List.append_assoc]

/-! ## Reading a buffer in front of known sections -/

/-- Reads a buffer in front of sections that are already known. -/
def decodeBefore (data : Bytes) (sections : List Bytes) : Except Malformed (List Bytes) :=
  decodeBack data.length data.length data.reverse sections

theorem decode_eq_decodeBefore (data : Bytes) : decode data = decodeBefore data [] := rfl

/-- Fewer than four bytes hold no length field. -/
theorem decodeBack_of_short {left : Bytes} (h : left.length < 4) (fuel size : Nat)
    (sections : List Bytes) : decodeBack fuel size left sections = .ok sections := by
  unfold decodeBack
  split
  · simp only [List.length_cons] at h
    omega
  · rfl

/-- Once there is fuel for every byte, more of it makes no difference. -/
theorem decodeBack_fuel {fuel fuel' size : Nat} {left : Bytes} (sections : List Bytes)
    (h : left.length ≤ fuel) (h' : left.length ≤ fuel') :
    decodeBack fuel size left sections = decodeBack fuel' size left sections := by
  induction fuel generalizing fuel' size left sections with
  | zero =>
    rw [decodeBack_of_short (by omega), decodeBack_of_short (by omega)]
  | succ fuel ih =>
    by_cases hshort : left.length < 4
    · rw [decodeBack_of_short hshort, decodeBack_of_short hshort]
    · match left, fuel', hshort with
      -- a length field is taken off, so what is left is shorter by four bytes at least
      | a :: b :: c :: d :: left, fuel' + 1, _ =>
        simp only [List.length_cons] at h h'
        simp only [decodeBack]
        split
        · rfl
        · apply ih
          · rw [List.length_drop]
            omega
          · rw [List.length_drop]
            omega
      | _ :: _ :: _ :: _ :: _, 0, _ => simp at h'
      | [], _, hs => simp at hs
      | [_], _, hs => simp at hs
      | [_, _], _, hs => simp at hs
      | [_, _, _], _, hs => simp at hs

theorem decodeBefore_of_short {data : Bytes} (h : data.length < 4) (sections : List Bytes) :
    decodeBefore data sections = .ok sections :=
  decodeBack_of_short (by rwa [List.length_reverse]) _ _ _

/-- One round of the reader, on a buffer that ends in a length field. -/
theorem decodeBefore_append_field (p : Bytes) {n : Nat} (hn : n < UInt32.size)
    (sections : List Bytes) :
    decodeBefore (p ++ Bytes.ofNatBE 4 n) sections =
      if p.length < n then .error ⟨n, p.length⟩
      else decodeBefore (p.take (p.length - n)) (p.drop (p.length - n) :: sections) := by
  obtain ⟨a, b, c, d, hfield⟩ : ∃ a b c d, Bytes.ofNatLE 4 n = [a, b, c, d] := ⟨_, _, _, _, rfl⟩
  have hvalue : Bytes.toNatLE [a, b, c, d] = n := by
    rw [← hfield, Bytes.toNatLE_ofNatLE]
    exact Nat.mod_eq_of_lt hn
  -- the reader goes backwards, so it meets the field's least significant byte first
  have hreverse : (p ++ Bytes.ofNatBE 4 n).reverse = a :: b :: c :: d :: p.reverse := by
    rw [List.reverse_append, Bytes.ofNatBE, List.reverse_reverse, hfield]
    rfl
  have hlength : (p ++ Bytes.ofNatBE 4 n).length = p.length + 3 + 1 := by simp
  rw [decodeBefore, hreverse, hlength, decodeBack, hvalue]
  simp only [show p.length + 3 + 1 - 4 = p.length by omega]
  split
  · rfl
  · have htake : (p.reverse.take n).reverse = p.drop (p.length - n) := by
      rw [List.take_reverse, List.reverse_reverse]
    have hdrop : p.reverse.drop n = (p.take (p.length - n)).reverse := List.drop_reverse
    have hrest : (p.take (p.length - n)).length = p.length - n := by simp
    rw [htake, hdrop, decodeBefore, hrest]
    apply decodeBack_fuel
    · rw [List.length_reverse, hrest]
      omega
    · exact Nat.le_of_eq (by rw [List.length_reverse, hrest])

/-- A whole section in front of known ones is one more known section. -/
theorem decodeBefore_append_section (d s : Bytes) (hs : s.length < UInt32.size)
    (sections : List Bytes) :
    decodeBefore ((d ++ s) ++ Bytes.ofNatBE 4 s.length) sections =
      decodeBefore d (s :: sections) := by
  have hfront : (d ++ s).length - s.length = d.length := by simp
  rw [decodeBefore_append_field _ hs, if_neg (by simp), hfront, List.take_left, List.drop_left]

/-- Packed sections behind any buffer are read first and as they are. -/
theorem decodeBefore_append_encode (d : Bytes) {xs : List Bytes} (hx : Fit xs)
    (sections : List Bytes) :
    decodeBefore (d ++ encode xs) sections = decodeBefore d (xs ++ sections) := by
  -- the reader starts at the end, so the induction takes the last section off
  induction xs using List.reverseRecOn generalizing sections with
  | nil => simp [encode]
  | append_singleton xs s ih =>
    have hs : s.length < UInt32.size := hx s (by simp)
    rw [encode_concat, ← List.append_assoc, ← List.append_assoc, decodeBefore_append_section _ _ hs,
      ih hx.of_append_left, List.append_assoc, List.singleton_append]

/-- Every buffer that can hold a length field ends in one. -/
theorem exists_append_field {d : Bytes} (h : 4 ≤ d.length) :
    ∃ (p : Bytes) (n : Nat), n < UInt32.size ∧ d = p ++ Bytes.ofNatBE 4 n := by
  refine ⟨d.take (d.length - 4), Bytes.toNatBE (d.drop (d.length - 4)), ?_, ?_⟩
  · have hlen : (d.drop (d.length - 4)).reverse.length = 4 := by
      rw [List.length_reverse, List.length_drop]
      omega
    have hlt := Bytes.toNatLE_lt (d.drop (d.length - 4)).reverse
    rw [hlen] at hlt
    exact hlt
  · have hlen : (d.drop (d.length - 4)).length = 4 := by
      rw [List.length_drop]
      omega
    have hfield := Bytes.ofNatBE_toNatBE (d.drop (d.length - 4))
    rw [hlen] at hfield
    rw [hfield, List.take_append_drop]

/-- From the end of every buffer sections can be taken off up to a front that has none at its end:
it holds no length field, or one that asks for more bytes than there are in front of it. -/
theorem exists_cut (d : Bytes) : ∃ (front : Bytes) (ys : List Bytes),
    Fit ys ∧ d = front ++ encode ys ∧
      (front.length ≤ 3 ∨ ∃ (p : Bytes) (n : Nat),
        n < UInt32.size ∧ p.length < n ∧ front = p ++ Bytes.ofNatBE 4 n) := by
  -- every section that is taken off is four bytes long at least
  induction hlen : d.length using Nat.strongRecOn generalizing d with
  | _ k ih =>
    by_cases hshort : d.length < 4
    · exact ⟨d, [], List.forall_mem_nil _, (List.append_nil d).symm, .inl (by omega)⟩
    obtain ⟨p, n, hn, rfl⟩ := exists_append_field (Nat.le_of_not_lt hshort)
    by_cases hbad : p.length < n
    · exact ⟨_, [], List.forall_mem_nil _, (List.append_nil _).symm, .inr ⟨p, n, hn, hbad, rfl⟩⟩
    have hsection : (p.drop (p.length - n)).length = n := by
      rw [List.length_drop]
      omega
    have hless : (p.take (p.length - n)).length < k := by
      rw [← hlen, List.length_append, Bytes.length_ofNatBE, List.length_take]
      omega
    -- what is taken off in front of this section is packed in front of it
    obtain ⟨front, ys, hfit, hp, hfront⟩ := ih _ hless _ rfl
    refine ⟨front, ys ++ [p.drop (p.length - n)], ?_, ?_, hfront⟩
    · exact hfit.append (fit_singleton.mpr (by rw [hsection]; exact hn))
    · rw [encode_concat, hsection, ← List.append_assoc, ← List.append_assoc, ← hp,
        List.take_append_drop]

/-! ## Which buffers are read, and as what -/

theorem decode_head_append_encode (head : Bytes) (hh : head.length ≤ 3) {xs : List Bytes}
    (hx : Fit xs) : decode (head ++ encode xs) = .ok xs := by
  rw [decode_eq_decodeBefore, decodeBefore_append_encode head hx, List.append_nil,
    decodeBefore_of_short (by omega)]

theorem decode_encode {xs : List Bytes} (hx : Fit xs) : decode (encode xs) = .ok xs :=
  decode_head_append_encode [] (by simp) hx

/-- A length field that asks for too much is complained about, whatever readable sections stand
behind it. -/
theorem decode_field_append_encode {p : Bytes} {n : Nat} (hn : n < UInt32.size)
    (hbad : p.length < n) {ys : List Bytes} (hy : Fit ys) :
    decode (p ++ Bytes.ofNatBE 4 n ++ encode ys) = .error ⟨n, p.length⟩ := by
  rw [decode_eq_decodeBefore, decodeBefore_append_encode _ hy, decodeBefore_append_field p hn,
    if_pos hbad]

theorem exists_head_of_decode {d : Bytes} {xs : List Bytes} (h : decode d = .ok xs) :
    Fit xs ∧ ∃ head : Bytes, head.length ≤ 3 ∧ d = head ++ encode xs := by
  obtain ⟨front, ys, hfit, rfl, hfront | ⟨p, n, hn, hbad, rfl⟩⟩ := exists_cut d
  · rw [decode_head_append_encode front hfront hfit, Except.ok.injEq] at h
    subst h
    exact ⟨hfit, front, hfront, rfl⟩
  · rw [decode_field_append_encode hn hbad hfit] at h
    cases h

theorem encode_injOn {xs ys : List Bytes} (hx : Fit xs) (hy : Fit ys)
    (h : encode xs = encode ys) : xs = ys := by
  have hread : decode (encode xs) = .ok ys := by rw [h, decode_encode hy]
  rw [decode_encode hx, Except.ok.injEq] at hread
  exact hread

/-- A buffer is read as a list of sections exactly if it is the packed list behind a head of at most
three bytes, and then the sections fit. So reading undoes packing, two lists that fit are packed
differently, and a buffer that is read is what packing makes of it again, but for its head. -/
theorem decode_eq_ok_iff (d : Bytes) (xs : List Bytes) :
    (decode d = .ok xs ↔
      Fit xs ∧ ∃ head : Bytes, head.length ≤ 3 ∧ d = head ++ encode xs) ∧
    (Fit xs → decode (encode xs) = .ok xs) ∧
    (∀ ys, Fit xs → Fit ys → encode xs = encode ys → xs = ys) := by
  refine ⟨⟨exists_head_of_decode, ?_⟩, decode_encode, fun ys => encode_injOn⟩
  rintro ⟨hx, head, hhead, rfl⟩
  exact decode_head_append_encode head hhead hx

/-- A section that looks like a length field and an empty one, behind a head of two bytes. -/
theorem decode_headed_lookalike :
    Fit [[0, 0, 0, 9], []] ∧
      decode ([7, 7] ++ encode [[0, 0, 0, 9], []]) = .ok [[0, 0, 0, 9], []] ∧
      decode (encode [[0, 0, 0, 9], []]) = .ok [[0, 0, 0, 9], []] := by
  have hfit : Fit [[0, 0, 0, 9], []] := by simp [Fit, UInt32.size]
  refine ⟨hfit, (decode_eq_ok_iff _ _).1.mpr ⟨hfit, [7, 7], by decide, rfl⟩, ?_⟩
  exact (decode_eq_ok_iff [] _).2.1 hfit

end ContractHost.Sections
