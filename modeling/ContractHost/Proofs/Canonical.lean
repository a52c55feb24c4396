import ContractHost.Proofs.Address
import ContractHost.Proofs.Bech32.Reading

/-!
# The two forms of an address

A backend whose addresses are bech32 strings takes the bytes that such a string carries for its
canonical form. Exactly two strings carry given bytes, one in lower case and one in upper case
(`AddressApi.readBech32_iff`), and the one in lower case is what is written of them
(`AddressApi.writeBech32_iff`). With the bounds that the host puts on what it is given this tells
when `canonicalize` succeeds, and that it undoes `humanize` (`canonicalize_two_spellings`).

The host bounds the human-readable form by its text and the canonical form by its bytes. What is
written of a canonical form within its bound is within the other one (`length_le_of_encode`), but
not the other way round: a text within its bound may carry more bytes than a canonical form may
have, and then `humanize` refuses what `canonicalize` answered (`humanize_of_canonicalize`).
-/

namespace ContractHost

open Bech32 (IsHrp toWords lowercase uppercase)

/-! ## Human-readable parts in lower case -/

/-- What is no capital letter stays as it is. -/
theorem toLower_of_not_isUpper {c : Char} (h : ¬ c.isUpper) : c.toLower = c := by
  have hrange : ¬ (c.val ≥ 'A'.val ∧ c.val ≤ 'Z'.val) := fun hc => h (decide_eq_true hc)
  exact dif_neg hrange

theorem not_isUpper_of_toLower {c : Char} (h : c.toNat < 0x80) (hc : c.toLower = c) :
    ¬ c.isUpper := by
  have hall : ∀ n < 0x80, (Char.ofNat n).toLower = Char.ofNat n → ¬ (Char.ofNat n).isUpper := by
    decide
  rw [← Char.ofNat_toNat c] at hc ⊢
  exact hall c.toNat h hc

theorem lowercase_of_not_isUpper {s : List Char} (h : ∀ c ∈ s, ¬ c.isUpper) : lowercase s = s := by
  have hsame : ∀ c ∈ s, c.toLower = c := fun c hc => toLower_of_not_isUpper (h c hc)
  rw [lowercase, List.map_congr_left hsame, List.map_id']

/-- A prefix that is its own lower case has no capital letters. -/
theorem not_isUpper_of_lowercase {hrp : List Char} (h : IsHrp hrp) (hlower : lowercase hrp = hrp) :
    ∀ c ∈ hrp, ¬ c.isUpper := by
  have hsame : hrp.map Char.toLower = hrp.map id := by rw [List.map_id]; exact hlower
  exact fun c hc => not_isUpper_of_toLower (h.ascii hc) (List.map_inj_left.mp hsame c hc)

/-! ## What a backend with bech32 addresses answers -/

namespace AddressApi

section
variable {hrp address : List Char} {bytes : Bytes}

/-- Saying where a failure came from does not touch a success. -/
theorem blame_eq_ok_iff {α : Type} {label : String} {x : Except Bech32.Error α} {a : α} :
    blame label x = .ok a ↔ x = .ok a := by
  cases x with
  | error e => exact ⟨nofun, nofun⟩
  | ok b => simp only [blame, Except.ok.injEq]

/-- Words are read as bytes exactly if their bits come out even. -/
theorem bytesOfWords_eq_ok_iff {ws : List Bech32.Word} :
    Bech32.bytesOfWords ws = .ok bytes ↔ Bech32.ofWords? ws = some bytes := by
  unfold Bech32.bytesOfWords
  split
  · rename_i hread
    rw [hread]
    exact ⟨nofun, nofun⟩
  · rename_i bs hread
    rw [hread, Except.ok.injEq, Option.some.injEq]

/-- The steps of reading an address. -/
theorem readBech32_steps :
    readBech32 hrp address = .ok bytes ↔ bytes ≠ [] ∧
      ∃ d, Bech32.decode address = .ok d ∧ d.hrp = hrp ∧ d.variant = .bech32 ∧
        Bech32.ofWords? d.data = some bytes := by
  simp only [readBech32, bind_eq_ok_iff, blame_eq_ok_iff, ite_throw_eq_ok_iff,
    bytesOfWords_eq_ok_iff, ne_eq, Decidable.not_not, List.isEmpty_iff, pure, Except.pure,
    Except.ok.injEq]
  constructor
  · rintro ⟨d, hdecode, hhrp, hvariant, bs, hbytes, hnonempty, rfl⟩
    exact ⟨hnonempty, d, hdecode, hhrp, hvariant, hbytes⟩
  · rintro ⟨hnonempty, d, hdecode, hhrp, hvariant, hbytes⟩
    exact ⟨d, hdecode, hhrp, hvariant, bytes, hbytes, hnonempty, rfl⟩

/-- Exactly two addresses carry given bytes: what is written of them, and this in upper case. There
are such addresses only if the human-readable part is in lower case. -/
theorem readBech32_iff :
    readBech32 hrp address = .ok bytes ↔ bytes ≠ [] ∧ lowercase hrp = hrp ∧
      ∃ e, Bech32.encode hrp (toWords bytes) .bech32 = .ok e ∧
        (address = e ∨ address = uppercase e) := by
  rw [readBech32_steps]
  refine and_congr_right fun _ => ?_
  constructor
  · rintro ⟨⟨hrp', data, variant⟩, hdecode, rfl, rfl, hbytes⟩
    rw [Bech32.toWords_of_ofWords? hbytes]
    exact Bech32.decode_iff.mp hdecode
  · intro h
    exact ⟨⟨hrp, toWords bytes, .bech32⟩, Bech32.decode_iff.mpr h, rfl, rfl,
      Bech32.ofWords?_toWords bytes⟩

/-- An address is written of any bytes but none. -/
theorem writeBech32_iff :
    writeBech32 hrp bytes = .ok address ↔
      bytes ≠ [] ∧ Bech32.encode hrp (toWords bytes) .bech32 = .ok address := by
  unfold writeBech32
  split
  · rename_i hempty
    rw [List.isEmpty_iff] at hempty
    exact ⟨nofun, fun h => absurd hempty h.1⟩
  · rename_i hempty
    rw [List.isEmpty_iff] at hempty
    rw [and_iff_right hempty]
    cases Bech32.encode hrp (toWords bytes) .bech32 with
    | ok e => simp only [Except.ok.injEq]
    | error e => exact ⟨nofun, nofun⟩

end

end AddressApi

theorem ne_nil_of_encode {hrp : List Char} {data : List Bech32.Word} {variant : Bech32.Variant}
    {e : List Char} (h : Bech32.encode hrp data variant = .ok e) : e ≠ [] := by
  rw [(Bech32.encode_eq_ok_iff.mp h).2]
  exact List.append_ne_nil_of_right_ne_nil _ (List.cons_ne_nil _ _)

/-- What is written of a canonical form within its bound is within the bound of the other form. -/
theorem length_le_of_encode {hrp e : List Char} {bytes : Bytes}
    (h : Bech32.encode hrp (toWords bytes) .bech32 = .ok e)
    (hlength : bytes.length ≤ Limits.canonicalAddress) :
    (Utf8.encode e).length ≤ Limits.humanAddress := by
  obtain ⟨hhrp, haddress⟩ := Bech32.encode_eq_ok_iff.mp h
  have hhrp' : (lowercase hrp).length ≤ 83 := (Bech32.isHrp_lowercase hhrp).length_le
  have hbytes : bytes.length ≤ 64 := hlength
  have hwords := Bech32.length_toWords bytes
  have hchecksum : Bech32.checksumLength = 6 := rfl
  have hbound : Limits.humanAddress = 256 := rfl
  rw [Utf8.encode_of_ascii (Bech32.ascii_of_encode h), List.length_map, haddress,
    List.length_append, List.length_cons, List.length_map, Bech32.length_wordsOf]
  omega

namespace Addresses

/-! ## What a host answers -/

section
variable {hrp : List Char} {host : Host} (haddresses : host.backend.addresses = .bech32 hrp)
include haddresses

/-- The address is checked, then the backend answers, and the host is as it was. -/
theorem run_canonicalize (source : Bytes) :
    (canonicalize source).run host = match Address.humanText source with
      | .error e => .error (.validation (.address e)) host
      | .ok human => (Host.ofBackend (AddressApi.readBech32 hrp human)).run host := by
  unfold canonicalize
  cases Address.humanText source with
  | error e => rfl
  | ok human =>
    have hcheck : (ofCheck (.ok human)).run host = .ok human host := rfl
    simp only [EStateM.run_bind, EStateM.run_get, hcheck, haddresses]
    rfl

/-- The other direction begins with the length. -/
theorem run_humanize (bytes : Bytes) :
    (humanize bytes).run host = match Address.checkCanonical bytes with
      | .error e => .error (.validation (.address e)) host
      | .ok _ => (Host.ofBackend (AddressApi.writeBech32 hrp bytes)).run host := by
  unfold humanize
  cases Address.checkCanonical bytes with
  | error e => rfl
  | ok checked =>
    have hcheck : (ofCheck (.ok checked)).run host = .ok checked host := rfl
    simp only [EStateM.run_bind, EStateM.run_get, hcheck, haddresses]
    rfl

end

theorem run_ofBackend_ok_iff {α : Type} {result : Except BackendError α} {a : α}
    {host host' : Host} :
    (Host.ofBackend result).run host = .ok a host' ↔ host' = host ∧ result = .ok a := by
  cases result with
  | error e => exact ⟨nofun, nofun⟩
  | ok b =>
    rw [Host.run_ofBackend_ok]
    constructor
    · rintro ⟨⟩
      exact ⟨rfl, rfl⟩
    · rintro ⟨rfl, ⟨⟩⟩
      rfl

end Addresses

namespace Address

/-- Canonical addresses have a byte at least, and at most as many as the limit says. -/
theorem checkCanonical_eq_ok_iff {bytes : Bytes} :
    checkCanonical bytes = .ok () ↔
      bytes ≠ [] ∧ bytes.length ≤ Limits.canonicalAddress := by
  unfold checkCanonical
  split
  · rename_i hempty
    rw [List.isEmpty_iff] at hempty
    exact ⟨nofun, fun h => absurd hempty h.1⟩
  · rename_i hempty
    rw [List.isEmpty_iff] at hempty
    rw [and_iff_right hempty]
    split
    · rename_i hlong
      exact ⟨nofun, fun h => absurd hlong (Nat.not_lt.mpr h)⟩
    · rename_i hlong
      exact ⟨fun _ => Nat.le_of_not_lt hlong, fun _ => rfl⟩

end Address

namespace Addresses

section
variable {hrp : List Char} {host : Host} (haddresses : host.backend.addresses = .bech32 hrp)
include haddresses

/-- Exactly the addresses within their bound that carry bytes under the human-readable part have a
canonical form. -/
theorem run_canonicalize_ok_iff {source bytes : Bytes} {host' : Host} :
    (canonicalize source).run host = .ok bytes host' ↔ host' = host ∧
      source.length ≤ Limits.humanAddress ∧ bytes ≠ [] ∧ lowercase hrp = hrp ∧
        ∃ e, Bech32.encode hrp (toWords bytes) .bech32 = .ok e ∧
          (source = Utf8.encode e ∨ source = Utf8.encode (uppercase e)) := by
  rw [run_canonicalize haddresses]
  constructor
  · intro h
    split at h
    · cases h
    · rename_i human htext
      obtain ⟨hhost, hread⟩ := run_ofBackend_ok_iff.mp h
      obtain ⟨-, hlength, rfl⟩ := Address.humanText_eq_ok_iff.mp htext
      obtain ⟨hbytes, hlower, e, hencode, hhuman⟩ := AddressApi.readBech32_iff.mp hread
      refine ⟨hhost, hlength, hbytes, hlower, e, hencode, ?_⟩
      exact hhuman.imp (congrArg Utf8.encode) (congrArg Utf8.encode)
  · rintro ⟨rfl, hlength, hbytes, hlower, e, hencode, hsource⟩
    obtain ⟨human, hhuman, hsource⟩ :
        ∃ human, (human = e ∨ human = uppercase e) ∧ source = Utf8.encode human := by
      rcases hsource with h | h
      · exact ⟨e, .inl rfl, h⟩
      · exact ⟨uppercase e, .inr rfl, h⟩
    -- the checks in front of the backend: the text is not empty, and within its bound
    have hread := AddressApi.readBech32_iff.mpr ⟨hbytes, hlower, e, hencode, hhuman⟩
    have hnonempty : source ≠ [] := by
      rw [hsource, ne_eq, Utf8.encode_eq_nil_iff]
      rcases hhuman with rfl | rfl
      · exact ne_nil_of_encode hencode
      · rw [uppercase, List.map_eq_nil_iff]
        exact ne_nil_of_encode hencode
    have htext := Address.humanText_eq_ok_iff.mpr ⟨hnonempty, hlength, hsource⟩
    simp only [htext, hread, Host.run_ofBackend_ok]

/-- A canonical address is written out exactly if it is within the limits and the encoding takes it.
-/
theorem run_humanize_ok_iff {bytes : Bytes} {address : List Char} {host' : Host} :
    (humanize bytes).run host = .ok address host' ↔ host' = host ∧
      bytes ≠ [] ∧ bytes.length ≤ Limits.canonicalAddress ∧
        Bech32.encode hrp (toWords bytes) .bech32 = .ok address := by
  rw [run_humanize haddresses]
  constructor
  · intro h
    split at h
    · cases h
    · rename_i hcheck
      obtain ⟨hhost, hwrite⟩ := run_ofBackend_ok_iff.mp h
      obtain ⟨hbytes, hlength⟩ := Address.checkCanonical_eq_ok_iff.mp hcheck
      exact ⟨hhost, hbytes, hlength, (AddressApi.writeBech32_iff.mp hwrite).2⟩
  · rintro ⟨rfl, hbytes, hlength, hencode⟩
    have hcheck := Address.checkCanonical_eq_ok_iff.mpr ⟨hbytes, hlength⟩
    have hwrite := AddressApi.writeBech32_iff.mpr ⟨hbytes, hencode⟩
    simp only [hcheck, hwrite, Host.run_ofBackend_ok]

/-- Under a human-readable part in lower case exactly two texts within the bound have given bytes
for their canonical form, what is written of them and this in upper case; under one with an
upper-case letter none has any. What is written of a canonical form within its bound has it for its
own. -/
theorem canonicalize_two_spellings :
    ((∀ c ∈ hrp, ¬ c.isUpper) → ∀ source bytes host',
      (canonicalize source).run host = .ok bytes host' ↔ host' = host ∧
        source.length ≤ Limits.humanAddress ∧ bytes ≠ [] ∧
          ∃ e, Bech32.encode hrp (toWords bytes) .bech32 = .ok e ∧
            (source = Utf8.encode e ∨ source = Utf8.encode (uppercase e))) ∧
    ((∃ c ∈ hrp, c.isUpper) → ∀ source bytes host',
      (canonicalize source).run host ≠ .ok bytes host') ∧
    (IsHrp hrp → (∀ c ∈ hrp, ¬ c.isUpper) → ∀ bytes, bytes ≠ [] →
      bytes.length ≤ Limits.canonicalAddress →
        ∃ human, (humanize bytes).run host = .ok human host ∧
          (Utf8.encode human).length ≤ Limits.humanAddress ∧
          (canonicalize (Utf8.encode human)).run host = .ok bytes host) := by
  refine ⟨fun hlower source bytes host' => ?_, ?_, fun hhrp hlower bytes hbytes hlength => ?_⟩
  · rw [run_canonicalize_ok_iff haddresses, lowercase_of_not_isUpper hlower]
    simp only [true_and]
  -- the api compares the part that was read, in lower case, with its own
  · rintro ⟨c, hc, hupper⟩ source bytes host' hrun
    obtain ⟨-, -, -, hlower, e, hencode, -⟩ := (run_canonicalize_ok_iff haddresses).mp hrun
    exact not_isUpper_of_lowercase (Bech32.encode_eq_ok_iff.mp hencode).1 hlower c hc hupper
  · obtain ⟨e, hencode⟩ := Bech32.exists_encode hhrp (toWords bytes) .bech32
    have hhuman := length_le_of_encode hencode hlength
    refine ⟨e, (run_humanize_ok_iff haddresses).mpr ⟨rfl, hbytes, hlength, hencode⟩, hhuman, ?_⟩
    exact (run_canonicalize_ok_iff haddresses).mpr
      ⟨rfl, hhuman, hbytes, lowercase_of_not_isUpper hlower, e, hencode, .inl rfl⟩

end

theorem addresses_default : ({} : Host).backend.addresses = .bech32 AddressApi.defaultHrp := rfl

theorem isHrp_defaultHrp : IsHrp AddressApi.defaultHrp := by
  have hcheck : Bech32.checkHrp AddressApi.defaultHrp = .ok (some .lower) := rfl
  exact Bech32.isHrp_of_checkHrp hcheck

theorem encode_two_bytes :
    Bech32.encode AddressApi.defaultHrp (toWords [0x1f, 0xff]) .bech32 =
      .ok "cosmos1rlls089l58".toList :=
  Bech32.encode_eq_ok_iff.mpr ⟨isHrp_defaultHrp, by decide +kernel⟩

/-- A text in upper case, a human-readable part with one upper-case letter, and bytes that come
back. -/
theorem canonicalize_upper_case :
    (canonicalize (Utf8.encode "COSMOS1RLLS089L58".toList)).run {} = .ok [0x1f, 0xff] {} ∧
    (∀ source bytes host',
      (canonicalize source).run { backend := { addresses := .bech32 "cosmoS".toList } } ≠
        .ok bytes host') ∧
    ∃ human, (humanize [0x1f, 0xff]).run {} = .ok human {} ∧
      (Utf8.encode human).length ≤ Limits.humanAddress ∧
      (canonicalize (Utf8.encode human)).run {} = .ok [0x1f, 0xff] {} := by
  have hlower := not_isUpper_of_lowercase isHrp_defaultHrp rfl
  have hmixed : ({ backend := { addresses := .bech32 "cosmoS".toList } } : Host).backend.addresses =
      .bech32 "cosmoS".toList := rfl
  obtain ⟨hiff, -, hback⟩ := canonicalize_two_spellings addresses_default
  refine ⟨(hiff hlower _ _ _).mpr ⟨rfl, by decide, by decide, _, encode_two_bytes, .inr ?_⟩, ?_,
    hback isHrp_defaultHrp hlower _ (by decide) (by decide)⟩
  · decide +kernel
  · exact (canonicalize_two_spellings hmixed).2.1 ⟨'S', by decide, rfl⟩

section
variable {hrp : List Char} {host : Host} (haddresses : host.backend.addresses = .bech32 hrp)
include haddresses

/-- The canonical form of a text is turned back, into the text in lower case, exactly if it is
within its own bound. -/
theorem humanize_of_canonicalize {source bytes : Bytes} {host' : Host}
    (h : (canonicalize source).run host = .ok bytes host') :
    ((∃ human, (humanize bytes).run host' = .ok human host') ↔
      bytes.length ≤ Limits.canonicalAddress) ∧
    (bytes.length ≤ Limits.canonicalAddress → ∃ human, source = Utf8.encode human ∧
      (humanize bytes).run host' = .ok (lowercase human) host') ∧
    (Limits.canonicalAddress < bytes.length →
      (humanize bytes).run host' =
        .error (.validation (.address (.canonicalTooLong bytes.length))) host') := by
  obtain ⟨rfl, -, hbytes, hlower, e, hencode, hsource⟩ := (run_canonicalize_ok_iff haddresses).mp h
  have hturned (hlength : bytes.length ≤ Limits.canonicalAddress) :
      (humanize bytes).run host' = .ok e host' :=
    (run_humanize_ok_iff haddresses).mpr ⟨rfl, hbytes, hlength, hencode⟩
  refine ⟨⟨?_, fun hlength => ⟨e, hturned hlength⟩⟩, fun hlength => ?_, fun hlong => ?_⟩
  · rintro ⟨human, hrun⟩
    exact ((run_humanize_ok_iff haddresses).mp hrun).2.2.1
  · have he := Bech32.lowercase_of_encode hencode
    rcases hsource with h | h
    · exact ⟨e, h, by rw [he, hturned hlength]⟩
    -- a text that was read in upper case comes back in lower case
    · refine ⟨uppercase e, h, ?_⟩
      rw [Bech32.lowercase_uppercase (Bech32.ascii_of_encode hencode), he, hturned hlength]
  · rw [run_humanize haddresses, Address.checkCanonical, if_neg (by simpa using hbytes),
      if_pos hlong]

end

/-- A text in upper case is turned back into lower case. -/
theorem humanize_upper_case :
    (canonicalize (Utf8.encode "COSMOS1RLLS089L58".toList)).run {} = .ok [0x1f, 0xff] {} ∧
    ∃ human, Utf8.encode "COSMOS1RLLS089L58".toList = Utf8.encode human ∧
      (humanize [0x1f, 0xff]).run {} = .ok (lowercase human) {} := by
  have hrun : (canonicalize (Utf8.encode "COSMOS1RLLS089L58".toList)).run {} =
      .ok [0x1f, 0xff] {} :=
    (run_canonicalize_ok_iff addresses_default).mpr
      ⟨rfl, by decide, by decide, rfl, _, encode_two_bytes, .inr (by decide +kernel)⟩
  have hback := humanize_of_canonicalize addresses_default hrun
  exact ⟨hrun, hback.2.1 (by decide)⟩

/-- The address that carries 65 zero bytes. -/
def addressOfZeros : List Char :=
  "cosmos1".toList ++ List.replicate 104 'q' ++ "7q4wda".toList

/-- A text within its bound has a canonical form past the bound, which is not turned back. -/
theorem canonicalize_past_bound :
    (canonicalize (Utf8.encode addressOfZeros)).run {} = .ok (List.replicate 65 0) {} ∧
    ¬ (List.replicate 65 (0 : UInt8)).length ≤ Limits.canonicalAddress ∧
    ∀ human host', (humanize (List.replicate 65 0)).run {} ≠ .ok human host' := by
  have hencode : Bech32.encode AddressApi.defaultHrp (toWords (List.replicate 65 0)) .bech32 =
      .ok addressOfZeros :=
    Bech32.encode_eq_ok_iff.mpr ⟨isHrp_defaultHrp, by decide +kernel⟩
  refine ⟨?_, by decide, fun human host' hrun => ?_⟩
  · exact (run_canonicalize_ok_iff addresses_default).mpr
      ⟨rfl, by decide +kernel, by decide, rfl, _, hencode, .inl rfl⟩
  · obtain ⟨-, -, hlength, -⟩ := (run_humanize_ok_iff addresses_default).mp hrun
    exact absurd hlength (by decide)

end Addresses

end ContractHost
