import ContractHost.Proofs.Json.Strings
import ContractHost.Proofs.Vm.Context

/-!
# The number that a text denotes

A timestamp is read from a JSON text exactly if the text denotes its number: the text is one string,
up to blanks around it, and the string stands for digits behind one plus sign or none (`Denotes`).
How the string is written makes no difference, nor do zeros in front. A text denotes one number only
(`Denotes.eq`), so what denotes a number that is too large is not read as another one.

Of all the texts that denote a number, a timestamp is written as the shortest
(`Denotes.length_le`).
-/

namespace ContractHost

open Json (Tree IsString)

namespace Timestamp

/-- A text that is a string of digits, and the number that they come to. -/
def Denotes (bs : Bytes) (n : Nat) : Prop := ∃ cs, IsString bs cs ∧ Decimal.Unsigned cs n

/-- A text that is read as a timestamp and written again. -/
def rewritten? (bs : Bytes) : Option Bytes := (Tree.readAs? ofTree? bs).map fun t => t.toJson.bytes

section
variable {bs : Bytes} {n m : Nat}

/-! ## Reading -/

theorem readAs?_text_eq_some_iff {s : String} :
    Tree.readAs? Tree.text? bs = some s ↔ IsString bs s.toList := by
  rw [Json.isString_iff, Tree.readAs?, Option.bind_eq_some_iff]
  constructor
  · rintro ⟨tree, hread, htext⟩
    cases tree with
    | string ps => exact ⟨ps, hread, htext⟩
    | _ => cases htext
  · rintro ⟨ps, hread, htext⟩
    exact ⟨.string ps, hread, htext⟩

/-- What a text denotes is read from the string that it is. -/
theorem denotes_iff :
    Denotes bs n ↔ ∃ s, Tree.readAs? Tree.text? bs = some s ∧ Decimal.Unsigned s.toList n := by
  constructor
  · rintro ⟨cs, hstring, hunsigned⟩
    rw [← String.toList_ofList (l := cs)] at hstring hunsigned
    exact ⟨String.ofList cs, readAs?_text_eq_some_iff.mpr hstring, hunsigned⟩
  · rintro ⟨s, hread, hunsigned⟩
    exact ⟨s.toList, readAs?_text_eq_some_iff.mp hread, hunsigned⟩

/-- A text denotes one number only. -/
theorem Denotes.eq (hn : Denotes bs n) (hm : Denotes bs m) : n = m := by
  obtain ⟨s, hs, hn⟩ := denotes_iff.mp hn
  obtain ⟨s', hs', hm⟩ := denotes_iff.mp hm
  rw [hs, Option.some.injEq] at hs'
  subst hs'
  exact hn.eq hm

theorem ofTree?_eq_some_iff {tree : Tree} {t : Timestamp} :
    ofTree? tree = some t ↔ ∃ s, tree.text? = some s ∧
      Decimal.read? UInt64.size s.toList = some t.nanos.toNat := by
  simp only [ofTree?, Option.bind_eq_bind, Option.bind_eq_some_iff, Option.pure_def,
    Option.some.injEq]
  refine exists_congr fun s => and_congr_right fun _ => ?_
  constructor
  · rintro ⟨n, hread, rfl⟩
    have hlt := (Decimal.read?_eq_some_iff.mp hread).2
    rwa [UInt64.toNat_ofNat_of_lt' hlt]
  · intro hread
    refine ⟨_, hread, ?_⟩
    rw [UInt64.ofNat_toNat]

/-- A text is read as a timestamp exactly if it denotes its number. -/
theorem readAs?_eq_some_iff {t : Timestamp} :
    Tree.readAs? ofTree? bs = some t ↔ Denotes bs t.nanos.toNat := by
  simp only [denotes_iff, Tree.readAs?, Option.bind_eq_some_iff, ofTree?_eq_some_iff,
    Decimal.read?_eq_some_iff, t.nanos.toNat_lt_size, and_true]
  constructor
  · rintro ⟨tree, hread, s, htext, hunsigned⟩
    exact ⟨s, ⟨tree, hread, htext⟩, hunsigned⟩
  · rintro ⟨s, ⟨tree, hread, htext⟩, hunsigned⟩
    exact ⟨tree, hread, s, htext, hunsigned⟩

/-- Every number is denoted by some text, also one that is too large for a timestamp. -/
theorem denotes_digits (n : Nat) :
    Denotes (Json.Value.string (String.ofList (Decimal.digits n))).bytes n := by
  refine denotes_iff.mpr ⟨_, (Json.reads_string _).readAs?, ?_⟩
  rw [String.toList_ofList]
  exact .inl (Decimal.digits_spec n)

/-- No number that is too large is read as another one. -/
theorem readAs?_eq_none_of_le (h : Denotes bs n) (hn : UInt64.size ≤ n) :
    Tree.readAs? ofTree? bs = none := by
  rw [Option.eq_none_iff_forall_ne_some]
  intro t hread
  have heq := h.eq (readAs?_eq_some_iff.mp hread)
  exact absurd t.nanos.toNat_lt_size (Nat.not_lt.mpr (heq ▸ hn))

/-! ## Writing -/

theorem readAs?_bytes (t : Timestamp) : Tree.readAs? ofTree? t.toJson.bytes = some t :=
  (reads_timestamp t).readAs?

theorem not_isSpecial_of_isDigit {c : Char} (h : c.isDigit = true) : ¬ Json.IsSpecial c := by
  obtain ⟨hlow, hhigh⟩ := Decimal.isDigit_iff.mp h
  rintro (rfl | rfl | hcontrol)
  · cases h
  · cases h
  · omega

theorem bytes_toJson (t : Timestamp) :
    t.toJson.bytes = 0x22 :: (Utf8.encode (Decimal.digits t.nanos.toNat) ++ [0x22]) := by
  rw [toJson, Json.bytes_string, String.toList_ofList]
  intro c hc
  rw [String.toList_ofList] at hc
  exact not_isSpecial_of_isDigit (Decimal.isDigit_of_mem_digits hc)

theorem length_bytes_toJson (t : Timestamp) :
    t.toJson.bytes.length = (Decimal.digits t.nanos.toNat).length + 2 := by
  rw [bytes_toJson, ← Json.digitBytes, Json.digitBytes_eq_map, List.length_cons, List.length_append,
    List.length_map, List.length_singleton]

/-- A timestamp is the shortest text that denotes its number. -/
theorem Denotes.length_le {t : Timestamp} (h : Denotes bs t.nanos.toNat) :
    t.toJson.bytes.length ≤ bs.length ∧
      (bs.length = t.toJson.bytes.length → bs = t.toJson.bytes) := by
  obtain ⟨cs, hstring, hunsigned⟩ := h
  obtain ⟨hlong, hexact⟩ := hstring.length_le
  obtain ⟨hlong', hexact'⟩ := hunsigned.length_le
  rw [length_bytes_toJson]
  refine ⟨by omega, fun hsame => ?_⟩
  rw [hexact (by omega), hexact' (by omega), bytes_toJson]

/-- A text is rewritten as the shortest one that denotes the same number. -/
theorem rewritten?_of_rewritten? {bs' : Bytes} (h : rewritten? bs = some bs') :
    rewritten? bs' = some bs' := by
  obtain ⟨t, -, rfl⟩ := Option.map_eq_some_iff.mp h
  rw [rewritten?, readAs?_bytes]
  rfl

end

end Timestamp

/-! ## The embedder's reading -/

namespace Vm

open Timestamp (Denotes rewritten?)

/-- What the bytes behind a pointer denote is answered, and nothing else is. -/
theorem run_readJson_timestamp {vm vm' : Vm} {ptr : UInt32} {bs : Bytes}
    (h : (readBytes ptr).run vm = .ok bs vm') :
    (∃ t : Timestamp, Denotes bs t.nanos.toNat ∧
      (readJson (Tree.readAs? Timestamp.ofTree?) ptr).run vm = .ok t vm') ∨
    (∀ n < UInt64.size, ¬ Denotes bs n) ∧
      (readJson (Tree.readAs? Timestamp.ofTree?) ptr).run vm =
        .error (.serialization .json) vm' := by
  rw [readJson, run_bind_of_ok h]
  cases hread : Tree.readAs? Timestamp.ofTree? bs with
  | some t => exact .inl ⟨t, Timestamp.readAs?_eq_some_iff.mp hread, rfl⟩
  | none =>
    refine .inr ⟨fun n hn hdenotes => ?_, rfl⟩
    rw [← UInt64.toNat_ofNat_of_lt' hn] at hdenotes
    cases hread.symm.trans (Timestamp.readAs?_eq_some_iff (t := ⟨UInt64.ofNat n⟩).mpr hdenotes)

/-- Timestamps are exact: a text is read as the number that it denotes, and as none if there is no
such number or it is too large; behind a pointer, the latter is an error of serialization. A
timestamp is written as the shortest text that denotes its number and read from that again. -/
theorem timestamp_exact :
    (∀ bs t, Tree.readAs? Timestamp.ofTree? bs = some t ↔ Denotes bs t.nanos.toNat) ∧
    (∀ bs n, Denotes bs n → UInt64.size ≤ n → Tree.readAs? Timestamp.ofTree? bs = none) ∧
    (∀ vm vm' ptr bs, (readBytes ptr).run vm = .ok bs vm' →
      (∃ t : Timestamp, Denotes bs t.nanos.toNat ∧
        (readJson (Tree.readAs? Timestamp.ofTree?) ptr).run vm = .ok t vm') ∨
      (∀ n < UInt64.size, ¬ Denotes bs n) ∧
        (readJson (Tree.readAs? Timestamp.ofTree?) ptr).run vm =
          .error (.serialization .json) vm') ∧
    (∀ t : Timestamp, Tree.readAs? Timestamp.ofTree? t.toJson.bytes = some t) ∧
    (∀ (t : Timestamp) bs, Denotes bs t.nanos.toNat → t.toJson.bytes.length ≤ bs.length ∧
      (bs.length = t.toJson.bytes.length → bs = t.toJson.bytes)) ∧
    ∀ bs bs', rewritten? bs = some bs' → rewritten? bs' = some bs' :=
  ⟨fun _ _ => Timestamp.readAs?_eq_some_iff, fun _ _ => Timestamp.readAs?_eq_none_of_le,
    fun _ _ _ _ => run_readJson_timestamp, Timestamp.readAs?_bytes,
    fun _ _ hdenotes => hdenotes.length_le, fun _ _ => Timestamp.rewritten?_of_rewritten?⟩

/-- The largest timestamp, with blanks, an escape, a plus sign and zeros in its text. -/
def largestText : Bytes := Utf8.encode "\t\"\\u002b0018446744073709551615\" ".toList

/-- It is read from the region that its text was copied into, and the next number is not. -/
theorem timestamp_exact_in_bumpingVm :
    (∃ r vm', (allocateBytes largestText).run bumpingVm = .ok r vm' ∧
      (readJson (Tree.readAs? Timestamp.ofTree?) r.ptr).run vm' =
        .ok ⟨18446744073709551615⟩ vm') ∧
    Tree.readAs? Timestamp.ofTree?
      (Json.Value.string (String.ofList (Decimal.digits UInt64.size))).bytes = none := by
  refine ⟨?_, timestamp_exact.2.1 _ _ (Timestamp.denotes_digits _) (Nat.le_refl _)⟩
  have hcopied : (answered? ((allocateBytes largestText).run bumpingVm)).any fun r =>
      r.descriptorSpan.Apart r.usedSpan := by decide +kernel
  obtain ⟨r, hanswered, hapart⟩ := (Option.any_eq_true _ _).mp hcopied
  have hrun := eq_ok_of_answered? hanswered
  obtain ⟨i, hi, hholds⟩ := holds_of_allocateBytes hrun (of_decide_eq_true hapart)
  have hlargest : Tree.readAs? Timestamp.ofTree? largestText = some ⟨18446744073709551615⟩ := by
    decide +kernel
  have hdenotes := (timestamp_exact.1 _ _).mp hlargest
  refine ⟨r, _, hrun, ?_⟩
  obtain ⟨t, ht, hread⟩ | ⟨hnone, -⟩ :=
    timestamp_exact.2.2.1 _ _ _ _ (run_readBytes_of_holds hi hholds)
  · rw [(timestamp_exact.1 _ _).mpr ht, Option.some.injEq] at hlargest
    rwa [hlargest] at hread
  · exact absurd hdenotes (hnone _ (by decide))

end Vm

end ContractHost
