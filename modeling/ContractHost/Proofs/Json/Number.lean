import ContractHost.Json.Number
import ContractHost.Proofs.Text.Decimal
import ContractHost.Proofs.Utf8

/-!
# Natural numbers are read as they are written

A number goes on as long as its text does, so what follows it must not be a part of a number
(`Ends`). Then the digits of a natural number are read as a numeral without sign, fraction and
exponent (`numeral?_digitBytes`), whose digits come to that number (`magnitude_digitBytes`).
-/

namespace ContractHost.Json

open Utf8 (encode)
open Decimal (digits isDigit_iff)

/-- No number goes on with these bytes. -/
def Ends (rest : Bytes) : Prop :=
  ∀ b ∈ rest.head?, isDigit b = false ∧ b ≠ 0x2E ∧ b ≠ 0x65 ∧ b ≠ 0x45

/-- A number may end where the text does. -/
theorem ends_nil : Ends [] := nofun

/-- A number may end in front of a byte that goes on with none. -/
theorem ends_cons {b : UInt8} {rest : Bytes}
    (h : isDigit b = false ∧ b ≠ 0x2E ∧ b ≠ 0x65 ∧ b ≠ 0x45) : Ends (b :: rest) := by
  intro c hc
  rw [List.head?_cons, Option.mem_some_iff] at hc
  rwa [← hc]

/-! ## Digits -/

/-- The digits of a number as bytes. -/
def digitBytes (n : Nat) : Bytes := encode (digits n)

theorem digitBytes_eq_map (n : Nat) :
    digitBytes n = (digits n).map fun c => UInt8.ofNat c.toNat := by
  refine Utf8.encode_of_ascii fun c hc => ?_
  have hdigit := isDigit_iff.mp (Decimal.isDigit_of_mem_digits hc)
  omega

/-- A number is written in digits. -/
theorem isDigit_of_mem_digitBytes {n : Nat} {b : UInt8} (hb : b ∈ digitBytes n) :
    isDigit b = true := by
  rw [digitBytes_eq_map, List.mem_map] at hb
  obtain ⟨c, hc, rfl⟩ := hb
  have hdigit := isDigit_iff.mp (Decimal.isDigit_of_mem_digits hc)
  simp only [isDigit, Bool.and_eq_true, decide_eq_true_eq, UInt8.le_iff_toNat_le,
    Utf8.toNat_ofNat_of_lt (show c.toNat < 256 by omega)]
  exact hdigit

theorem digitBytes_ne_nil (n : Nat) : digitBytes n ≠ [] := by
  rw [digitBytes_eq_map, ne_eq, List.map_eq_nil_iff]
  exact Decimal.digits_ne_nil n

/-- Only zero itself is written with a leading zero. -/
theorem length_digitBytes {n : Nat} (h : (digitBytes n).head? = some 0x30) :
    (digitBytes n).length = 1 := by
  have hzero : n = 0 := by
    rw [digitBytes_eq_map, List.head?_map, Option.map_eq_some_iff] at h
    obtain ⟨c, hc, hbyte⟩ := h
    have hdigit := isDigit_iff.mp (Decimal.isDigit_of_mem_digits (List.mem_of_mem_head? hc))
    have hnat : c.toNat = 0x30 := by
      rw [← Utf8.toNat_ofNat_of_lt (show c.toNat < 256 by omega), hbyte]
      rfl
    have hc' : c = '0' := Char.toNat_inj.mp hnat
    rw [hc'] at hc
    exact Decimal.head?_digits hc
  rw [hzero]
  rfl

/-- Digits come to the number that they are the digits of. -/
theorem magnitude_digitBytes (n : Nat) : magnitude (digitBytes n) = n := by
  -- over the digits that follow, whatever those before them came to
  have hfold (cs : List Char) (hcs : ∀ c ∈ cs, c.isDigit = true) (k : Nat) :
      (cs.map fun c => UInt8.ofNat c.toNat).foldl (fun n d => 10 * n + digitValue d) k =
        Nat.ofDigitChars 10 cs k := by
    induction cs generalizing k with
    | nil => rfl
    | cons c cs ih =>
      obtain ⟨hc, hcs⟩ := List.forall_mem_cons.mp hcs
      have hdigit := isDigit_iff.mp hc
      rw [List.map_cons, List.foldl_cons, ih hcs, Nat.ofDigitChars_cons, digitValue,
        Utf8.toNat_ofNat_of_lt (show c.toNat < 256 by omega)]
      rfl
  rw [magnitude, digitBytes_eq_map, hfold _ fun c hc => Decimal.isDigit_of_mem_digits hc]
  exact Decimal.ofDigitChars_digits n

/-! ## Numerals -/

/-- Digits are read up to where the number ends. -/
theorem digits?_append {ds rest : Bytes} (hne : ds ≠ []) (hds : ∀ d ∈ ds, isDigit d = true)
    (hrest : Ends rest) : digits? (ds ++ rest) = some (ds, rest) := by
  have hstop : rest.takeWhile isDigit = [] ∧ rest.dropWhile isDigit = rest := by
    cases rest with
    | nil => exact ⟨rfl, rfl⟩
    | cons b rest =>
      have hb : isDigit b = false := (hrest b rfl).1
      simp [hb]
  have htake : (ds ++ rest).takeWhile isDigit = ds := by
    rw [List.takeWhile_append_of_pos hds, hstop.1, List.append_nil]
  have hdrop : (ds ++ rest).dropWhile isDigit = rest := by
    rw [List.dropWhile_append_of_pos hds, hstop.2]
  simp [digits?, htake, hdrop, hne]

theorem fraction?_of_ends {rest : Bytes} (hrest : Ends rest) :
    fraction? rest = some ([], rest) := by
  unfold fraction?
  split
  · exact absurd rfl (hrest _ rfl).2.1
  · rfl

theorem exponent?_of_ends {rest : Bytes} (hrest : Ends rest) :
    exponent? rest = some (none, rest) := by
  cases rest with
  | nil => rfl
  | cons e rest =>
    obtain ⟨-, -, hlower, hupper⟩ := hrest e rfl
    simp [exponent?, hlower, hupper]

/-- The numeral of a natural number. -/
def naturalNumeral (n : Nat) : Numeral := ⟨false, digitBytes n, [], none⟩

/-- The digits of a number are read as its numeral. -/
theorem numeral?_digitBytes (n : Nat) {rest : Bytes} (hrest : Ends rest) :
    numeral? (digitBytes n ++ rest) = some (naturalNumeral n, rest) := by
  -- the first digit is no sign
  have hsign : ∀ bs, digitBytes n ++ rest ≠ 0x2D :: bs := by
    intro bs h
    cases hdigits : digitBytes n with
    | nil => exact digitBytes_ne_nil n hdigits
    | cons d ds =>
      rw [hdigits] at h
      have hminus : (0x2D : UInt8) ∈ digitBytes n := by
        rw [hdigits, (List.cons.inj h).1]
        exact List.mem_cons_self
      cases isDigit_of_mem_digitBytes hminus
  have hdigits := digits?_append (digitBytes_ne_nil n) (fun d => isDigit_of_mem_digitBytes) hrest
  have hzero : ¬ ((digitBytes n).head? = some 0x30 ∧ (digitBytes n).length ≠ 1) :=
    fun h => h.2 (length_digitBytes h.1)
  unfold numeral?
  split
  rename_i negative bs hread
  split at hread
  · exact absurd ‹_› (hsign _)
  · cases hread
    simp [hdigits, hzero, fraction?_of_ends hrest, exponent?_of_ends hrest, naturalNumeral]

end ContractHost.Json
