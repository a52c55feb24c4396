import ContractHost.Host.Checks
import ContractHost.Proofs.Bech32.Encoding

/-!
# The addresses that are normalized, and their corruptions

`Spells` says which byte string is the spelling of the bytes that an address carries. `validate`
reads a string and writes the bytes it carries again, and what is written is read back
(`Bech32.decode_encode`), so it passes exactly the spellings (`validate_eq_ok_iff`).

All spellings under one human-readable part begin alike, and behind that they are characters of
words with one remainder (`Spells.exists_words`). A change of one word changes the remainder, so a
spelling of which one byte is changed is none (`not_spells_set`), wherever that byte stands.
-/

namespace ContractHost

/-! ## Steps that may fail -/

section
variable {ε ε' α β : Type} {x : Except ε α}

theorem bind_eq_ok_iff {f : α → Except ε β} {b : β} :
    (x >>= f) = .ok b ↔ ∃ a, x = .ok a ∧ f a = .ok b := by
  cases x with
  | error e => simp [bind, Except.bind]
  | ok a => simp [bind, Except.bind]

/-- A check that ends the steps where it fails. -/
theorem ite_throw_eq_ok_iff {p : Prop} [Decidable p] {e : ε} {f : α → Except ε β}
    {y : Except ε β} {b : β} :
    (if p then throw e >>= f else y) = .ok b ↔ ¬ p ∧ y = .ok b := by
  by_cases h : p
  · rw [if_pos h]
    exact ⟨nofun, fun h' => absurd h h'.1⟩
  · rw [if_neg h, and_iff_right h]

theorem mapError_eq_ok_iff {f : ε → ε'} {a : α} : x.mapError f = .ok a ↔ x = .ok a := by
  cases x with
  | error e => exact ⟨nofun, nofun⟩
  | ok b =>
    constructor
    · rintro ⟨⟩
      rfl
    · rintro ⟨⟩
      rfl

end

namespace Address

open Bech32 (Word toWords wordsOf remainder expand lowercase)

/-- A byte string is the spelling of bytes under a human-readable part, with the checksum of the
first variant. An address carries one byte at least. -/
structure Spells (hrp : List Char) (bytes source : Bytes) : Prop where
  nonempty : bytes ≠ []
  written : ∃ address, Bech32.encode hrp (toWords bytes) .bech32 = .ok address ∧
    source = Utf8.encode address

/-! ## Normalized addresses -/

section
variable {hrp human : List Char} {bytes source : Bytes}

/-- No bytes have the spelling of others. -/
theorem Spells.unique {bytes' : Bytes} (h : Spells hrp bytes source)
    (h' : Spells hrp bytes' source) : bytes = bytes' := by
  obtain ⟨-, address, hencode, hsource⟩ := h
  obtain ⟨-, address', hencode', hsource'⟩ := h'
  -- both addresses are the text of the source
  have hsame : (.ok address : Except Utf8.Error (List Char)) = .ok address' := by
    rw [← Utf8.decode_iff_eq_encode.mpr hsource, ← Utf8.decode_iff_eq_encode.mpr hsource']
  cases hsame
  have hread := Bech32.decode_encode hencode
  rw [Bech32.decode_encode hencode', Except.ok.injEq, Bech32.Decoded.mk.injEq] at hread
  have hbytes := Bech32.ofWords?_toWords bytes
  rw [← hread.2.1, Bech32.ofWords?_toWords, Option.some.injEq] at hbytes
  exact hbytes.symm

theorem bytesOfWords_toWords (bytes : Bytes) :
    Bech32.bytesOfWords (toWords bytes) = .ok bytes := by
  rw [Bech32.bytesOfWords, Bech32.ofWords?_toWords]

/-- The steps of normalizing a text. -/
theorem normalize_eq_ok_iff {address : List Char} :
    normalize hrp human = .ok address ↔
      ∃ decoded, Bech32.decode human = .ok decoded ∧
        ∃ bytes, Bech32.bytesOfWords decoded.data = .ok bytes ∧ bytes ≠ [] ∧
          Bech32.encode hrp (toWords bytes) .bech32 = .ok address := by
  simp only [normalize, bind_eq_ok_iff, mapError_eq_ok_iff]
  refine exists_congr fun decoded => and_congr_right fun _ => exists_congr fun bytes =>
    and_congr_right fun _ => ?_
  cases bytes with
  | nil => simp [bind_eq_ok_iff]
  | cons b bs => simp [mapError_eq_ok_iff]

/-- A text is normalized exactly if it is what is written of some bytes. -/
theorem checkNormalized_eq_ok_iff :
    checkNormalized hrp human = .ok () ↔
      ∃ bytes, bytes ≠ [] ∧ Bech32.encode hrp (toWords bytes) .bech32 = .ok human := by
  have hcheck : checkNormalized hrp human = .ok () ↔ normalize hrp human = .ok human := by
    rw [checkNormalized, bind_eq_ok_iff]
    constructor
    · rintro ⟨address, hnormalize, hsame⟩
      by_cases h : address = human
      · rwa [h] at hnormalize
      · rw [if_pos h] at hsame
        cases hsame
    · intro hnormalize
      exact ⟨human, hnormalize, if_neg (not_not_intro rfl)⟩
  rw [hcheck, normalize_eq_ok_iff]
  constructor
  · rintro ⟨decoded, -, bytes, -, hbytes, hencode⟩
    exact ⟨bytes, hbytes, hencode⟩
  · rintro ⟨bytes, hbytes, hencode⟩
    exact ⟨_, Bech32.decode_encode hencode, bytes, bytesOfWords_toWords bytes, hbytes, hencode⟩

/-- The bounds and the encoding of the text of an address. -/
theorem humanText_eq_ok_iff :
    humanText source = .ok human ↔
      source ≠ [] ∧ source.length ≤ Limits.humanAddress ∧ source = Utf8.encode human := by
  unfold humanText
  split
  case isTrue hempty =>
    rw [List.isEmpty_iff] at hempty
    exact ⟨nofun, fun h => absurd hempty h.1⟩
  case isFalse hempty =>
    rw [List.isEmpty_iff] at hempty
    split
    case isTrue hlong => exact ⟨nofun, fun h => absurd h.2.1 (Nat.not_le.mpr hlong)⟩
    case isFalse hlong =>
      rw [mapError_eq_ok_iff, Utf8.decode_iff_eq_encode]
      exact ⟨fun h => ⟨hempty, Nat.not_lt.mp hlong, h⟩, fun h => h.2.2⟩

/-! ## Words of a spelling -/

/-- The byte of an ASCII character. -/
def byte (c : Char) : UInt8 := UInt8.ofNat c.toNat

theorem byte_char_injective {v w : Word} (h : byte v.char = byte w.char) : v = w := by
  have hnat := congrArg UInt8.toNat h
  have hv := v.char_ascii
  have hw := w.char_ascii
  rw [byte, byte, Utf8.toNat_ofNat_of_lt (by omega), Utf8.toNat_ofNat_of_lt (by omega)] at hnat
  exact Bech32.Word.char_injective (Char.toNat_inj.mp hnat)

/-- The bytes with which all spellings under a human-readable part begin. -/
def leader (hrp : List Char) : Bytes := (lowercase hrp ++ ['1']).map byte

/-- Behind the beginning of a spelling stand words with the remainder of the variant. -/
theorem Spells.exists_words (h : Spells hrp bytes source) :
    ∃ ws : List Word, source = leader hrp ++ ws.map (fun w => byte w.char) ∧
      remainder (expand (lowercase hrp) ++ ws) = Bech32.Variant.residue .bech32 := by
  obtain ⟨-, address, hencode, hsource⟩ := h
  have haddress := (Bech32.encode_eq_ok_iff.mp hencode).2
  have hascii := Bech32.ascii_of_encode hencode
  refine ⟨wordsOf hrp (toWords bytes) .bech32, ?_, Bech32.remainder_checksum _ _ _⟩
  rw [hsource, Utf8.encode_of_ascii hascii, haddress, leader]
  simp [byte, Function.comp_def]

theorem Spells.source_nonempty (h : Spells hrp bytes source) : source ≠ [] := by
  obtain ⟨ws, hsource, -⟩ := h.exists_words
  simp [hsource, leader]

/-- Exactly the spellings of the length allowed are valid. -/
theorem validate_eq_ok_iff :
    validate hrp source = .ok () ↔
      source.length ≤ Limits.humanAddress ∧ ∃ bytes, Spells hrp bytes source := by
  simp only [validate, bind_eq_ok_iff, mapError_eq_ok_iff, humanText_eq_ok_iff,
    checkNormalized_eq_ok_iff]
  constructor
  · rintro ⟨human, ⟨-, hlength, hsource⟩, bytes, hbytes, hencode⟩
    exact ⟨hlength, bytes, hbytes, human, hencode, hsource⟩
  · rintro ⟨hlength, bytes, hspells⟩
    obtain ⟨hbytes, human, hencode, hsource⟩ := id hspells
    exact ⟨human, ⟨hspells.source_nonempty, hlength, hsource⟩, bytes, hbytes, hencode⟩

/-! ## Corrupted addresses -/

/-- If one byte of words is replaced, and the bytes are those of words with the same remainder, then
the byte is the one that was there. -/
theorem eq_byte_of_set {xs ws ws' : List Word} {i : Nat} {b : UInt8} (hi : i < ws.length)
    (hset : (ws.map fun w => byte w.char).set i b = ws'.map fun w => byte w.char)
    (hremainder : remainder (xs ++ ws') = remainder (xs ++ ws)) : b = byte ws[i].char := by
  have hlength : ws'.length = ws.length := by
    simpa only [List.length_set, List.length_map] using (congrArg List.length hset).symm
  have hi' : i < ws'.length := hlength ▸ hi
  have hbyte : b = byte ws'[i].char := by
    have hget := List.getElem_of_eq hset (i := i) (by simpa using hi)
    rwa [List.getElem_set_self, List.getElem_map] at hget
  have hwords : ws' = ws.set i ws'[i] := by
    rw [← List.map_inj_right fun v w => byte_char_injective, List.map_set, ← hbyte, hset]
  rw [hwords] at hremainder
  rw [hbyte, Bech32.eq_getElem_of_remainder_set hi hremainder]

/-- No spelling becomes another one by a change of one byte. -/
theorem not_spells_set {bytes' : Bytes} {i : Nat} {b : UInt8} (h : Spells hrp bytes source)
    (hi : i < source.length) (hb : b ≠ source[i]) : ¬ Spells hrp bytes' (source.set i b) := by
  intro h'
  obtain ⟨ws, hsource, hremainder⟩ := h.exists_words
  obtain ⟨ws', hsource', hremainder'⟩ := h'.exists_words
  subst hsource
  rw [List.set_append] at hsource'
  split at hsource'
  case isTrue hleader =>
    -- all spellings have this byte
    have hset := List.append_inj_left hsource' List.length_set
    have hget : (leader hrp)[i] = b := by
      rw [← List.getElem_of_eq hset (by rwa [List.length_set]), List.getElem_set_self]
    exact hb (by rw [List.getElem_append_left hleader, hget])
  case isFalse hleader =>
    -- the byte is that of a word
    have hset := List.append_cancel_left hsource'
    have hword : i - (leader hrp).length < ws.length := by
      rw [List.length_append, List.length_map] at hi
      omega
    refine hb ?_
    rw [List.getElem_append_right (Nat.not_lt.mp hleader), List.getElem_map]
    exact eq_byte_of_set hword hset (hremainder'.trans hremainder.symm)

end

end Address

namespace Addresses

/-! ## What a host answers -/

section
variable {hrp : List Char} {source : Bytes} (host : Host)

theorem run_validate_of_ok (h : Address.validate hrp source = .ok ()) :
    (validate hrp source).run host = .ok () host := by
  unfold validate
  rw [h]
  rfl

theorem run_validate_of_error {e : Address.Fault} (h : Address.validate hrp source = .error e) :
    ∃ host', (validate hrp source).run host = .error (.validation (.address e)) host' := by
  unfold validate
  rw [h]
  cases e with
  | invalid human reason => exact ⟨_, rfl⟩
  | empty | tooLong | canonicalTooLong | notText => exact ⟨_, rfl⟩

/-- A host answers nothing or refuses. -/
theorem run_validate_of_ne_ok (h : Address.validate hrp source ≠ .ok ()) :
    ∃ e host', (validate hrp source).run host = .error (.validation (.address e)) host' := by
  cases hvalidate : Address.validate hrp source with
  | ok => exact absurd hvalidate h
  | error e => exact ⟨e, run_validate_of_error host hvalidate⟩

theorem validate_of_run_ok {host' : Host} (h : (validate hrp source).run host = .ok () host') :
    Address.validate hrp source = .ok () := by
  cases hvalidate : Address.validate hrp source with
  | ok => rfl
  | error e =>
    obtain ⟨host'', hrun⟩ := run_validate_of_error host hvalidate
    rw [h] at hrun
    cases hrun

end

/-- Exactly the spellings of the length allowed pass, each spells one list of bytes, and every other
byte string is refused. -/
theorem run_validate_ok_iff (hrp : List Char) (source : Bytes) (host : Host) :
    ((validate hrp source).run host = .ok () host ↔
      source.length ≤ Limits.humanAddress ∧ ∃ bytes, Address.Spells hrp bytes source) ∧
    (∀ bytes bytes', Address.Spells hrp bytes source → Address.Spells hrp bytes' source →
      bytes = bytes') ∧
    (¬ (source.length ≤ Limits.humanAddress ∧ ∃ bytes, Address.Spells hrp bytes source) →
      ∃ e host', (validate hrp source).run host = .error (.validation (.address e)) host') := by
  rw [← Address.validate_eq_ok_iff]
  exact ⟨⟨validate_of_run_ok host, run_validate_of_ok host⟩,
    fun _ _ h h' => h.unique h', run_validate_of_ne_ok host⟩

theorem spells_separator_in_hrp :
    Address.Spells ['A', '1'] [0x1f, 0xff] (Utf8.encode "a11rllsr4rpym".toList) := by
  have hhrp : Bech32.IsHrp ['A', '1'] := by
    refine ⟨by decide, by decide, ?_, .upper, ?_⟩
    · exact List.forall_mem_cons.mpr ⟨by decide, List.forall_mem_singleton.mpr (by decide)⟩
    · exact List.forall_mem_cons.mpr ⟨.inr rfl, List.forall_mem_singleton.mpr (.inl rfl)⟩
  exact ⟨by decide, _, Bech32.encode_eq_ok_iff.mpr ⟨hhrp, by decide +kernel⟩, rfl⟩

/-- The human-readable part is in upper case and has a separator in it. -/
theorem run_validate_separator_in_hrp :
    (validate ['A', '1'] (Utf8.encode "a11rllsr4rpym".toList)).run {} = .ok () {} ∧
    (∀ bytes, Address.Spells ['A', '1'] bytes (Utf8.encode "a11rllsr4rpym".toList) →
      bytes = [0x1f, 0xff]) ∧
    ∃ e host', (validate ['A', '1'] (Utf8.encode "A11RLLSR4RPYM".toList)).run {} =
      .error (.validation (.address e)) host' := by
  have hupper : ¬ ∃ bytes,
      Address.Spells ['A', '1'] bytes (Utf8.encode "A11RLLSR4RPYM".toList) := by
    rintro ⟨bytes, h⟩
    obtain ⟨ws, hsource, -⟩ := h.exists_words
    exact absurd (List.cons.inj hsource).1 (by decide)
  obtain ⟨hok, hunique, -⟩ :=
    run_validate_ok_iff ['A', '1'] (Utf8.encode "a11rllsr4rpym".toList) {}
  exact ⟨hok.mpr ⟨by decide, _, spells_separator_in_hrp⟩,
    fun bytes h => hunique _ _ h spells_separator_in_hrp,
    (run_validate_ok_iff ['A', '1'] (Utf8.encode "A11RLLSR4RPYM".toList) {}).2.2
      fun h => hupper h.2⟩

/-- A valid address of which any one byte is replaced by another one is refused. -/
theorem run_validate_set {hrp : List Char} {source : Bytes} {host host' : Host}
    (h : (validate hrp source).run host = .ok () host') {i : Nat} (hi : i < source.length)
    {b : UInt8} (hb : b ≠ source[i]) (other : Host) :
    ∃ e other', (validate hrp (source.set i b)).run other =
      .error (.validation (.address e)) other' := by
  obtain ⟨-, bytes, hspells⟩ := Address.validate_eq_ok_iff.mp (validate_of_run_ok host h)
  refine run_validate_of_ne_ok other fun hvalidate => ?_
  obtain ⟨-, bytes', hspells'⟩ := Address.validate_eq_ok_iff.mp hvalidate
  exact Address.not_spells_set hspells hi hb hspells'

/-- The separator is replaced, and the last `1` is now in the human-readable part. -/
theorem run_validate_lost_separator :
    (validate ['A', '1'] (Utf8.encode "a11rllsr4rpym".toList)).run {} = .ok () {} ∧
    ∃ e other', (validate ['A', '1'] (Utf8.encode "a1qrllsr4rpym".toList)).run {} =
      .error (.validation (.address e)) other' := by
  have hok : (validate ['A', '1'] (Utf8.encode "a11rllsr4rpym".toList)).run {} = .ok () {} :=
    run_validate_of_ok {} (Address.validate_eq_ok_iff.mpr ⟨by decide, _, spells_separator_in_hrp⟩)
  exact ⟨hok, run_validate_set (i := 2) (b := 113) hok (by decide) (by decide) {}⟩

end Addresses

end ContractHost
