import Mathlib.Algebra.Module.ZMod
import ContractHost.Proofs.Bytes
import ContractHost.Proofs.Secp256k1.Group

/-!
# Keys recovered from signatures

A signature relates a key to the point whose first coordinate it tells, the commitment. Verification
computes the commitment from the key (`satisfies_iff`), and recovery the key from a commitment
(`recoverPoint?_eq_some`). With multiples by residues modulo the order of the group these are
inverse to each other (`commitment_signer`), so a signature from which a key is recovered satisfies
the equation that is checked with this key.

That does not make it good for the key: for each commitment there is a signature with `s` and one
with its negative, recovery takes both and verification only the smaller (`verify_recovered`).
-/

namespace ContractHost.Secp256k1

/-! ## The equation -/

/-- Residues modulo the order of the group multiply points. -/
instance module_group : Module (ZMod groupOrder) Group :=
  AddCommGroup.zmodModule groupOrder_nsmul

/-- A point is multiplied by a number modulo the order of the group. -/
theorem Represents.smul {p : Point} {a : Group} (hp : Represents p a) {n : Nat}
    (hn : n < groupOrder) : Represents (Secp256k1.multiple n p) ((n : ZMod groupOrder) • a) := by
  rw [Nat.cast_smul_eq_nsmul]
  exact hp.multiple (hn.trans groupOrder_lt)

/-- The commitment of a signature `(r, s)` of `z` by a key. -/
def commitment (z r s : ZMod groupOrder) (key : Group) : Group :=
  (z * s⁻¹) • generator + (r * s⁻¹) • key

/-- The key that signed `z` with a commitment. -/
def signer (z r s : ZMod groupOrder) (c : Group) : Group :=
  (s * r⁻¹) • c + -((z * r⁻¹) • generator)

/-- The key that signed with a commitment leads back to the commitment. -/
theorem commitment_signer {z r s : ZMod groupOrder} (hr : r ≠ 0) (hs : s ≠ 0) (c : Group) :
    commitment z r s (signer z r s c) = c := by
  have hone : r * s⁻¹ * (s * r⁻¹) = 1 := by field_simp
  have hbase : r * s⁻¹ * (z * r⁻¹) = z * s⁻¹ := by field_simp
  rw [commitment, signer, smul_add, smul_neg, smul_smul, smul_smul, hone, hbase, one_smul,
    add_comm c, add_neg_cancel_left]

/-! ## What is computed -/

/-- A multiple by a quotient of numbers. -/
theorem Represents.quotient {p : Point} {a : Group} (hp : Represents p a) (m : Nat) {n : Nat}
    (hpos : n ≠ 0) (hlt : n < groupOrder) :
    Represents (Secp256k1.multiple (m * Modular.inverse groupOrder n % groupOrder) p)
      (((m : ZMod groupOrder) * (n : ZMod groupOrder)⁻¹) • a) := by
  have hquotient : ((m * Modular.inverse groupOrder n % groupOrder : Nat) : ZMod groupOrder) =
      m * (n : ZMod groupOrder)⁻¹ := by
    rw [ZMod.natCast_mod, Nat.cast_mul,
      Modular.cast_inverse groupOrder_lt (Modular.natCast_ne_zero hpos hlt)]
  rw [← hquotient]
  exact hp.smul (Nat.mod_lt _ (by decide))

/-- A signature satisfies the equation exactly if its commitment has the right first coordinate. -/
theorem satisfies_iff {digest : Nat} {sig : Signature} {key : Point} {q : Group}
    (hs : sig.s ≠ 0) (hlt : sig.s < groupOrder) (hkey : Represents key q) :
    satisfies digest sig key = true ↔
      ∃ x y, numbers? (commitment digest sig.r sig.s q) = some (x, y) ∧
        x % groupOrder = sig.r := by
  -- the point that is worked out stands for the commitment, so it has its coordinates
  have hcommitment := affine?_of_represents
    ((represents_generator.quotient (digest % groupOrder) hs hlt).add
      (hkey.quotient sig.r hs hlt))
  rw [ZMod.natCast_mod, ← commitment] at hcommitment
  unfold satisfies
  conv_lhs => zeta
  rw [hcommitment]
  cases numbers? (commitment digest sig.r sig.s q) with
  | none => simp
  | some xy =>
    obtain ⟨x, y⟩ := xy
    constructor
    · intro hmod
      exact ⟨x, y, rfl, beq_iff_eq.mp hmod⟩
    · rintro ⟨x', y', hxy, hmod⟩
      rw [Option.some.injEq, Prod.mk.injEq] at hxy
      rw [hxy.1]
      exact beq_iff_eq.mpr hmod

/-- The commitment's first coordinate is the signature's number, up to the order of the group. -/
theorem represents_of_commitment? {r : Nat} {param : UInt32} {p : Point} (hr : r < groupOrder)
    (h : commitment? r param = some p) :
    ∃ c x y, Represents p c ∧ numbers? c = some (x, y) ∧ x % groupOrder = r := by
  obtain ⟨c, y, hp, hnumbers⟩ := represents_of_lift? h
  refine ⟨c, _, y, hp, hnumbers, ?_⟩
  split
  · rw [Nat.add_mod_right, Nat.mod_eq_of_lt hr]
  · exact Nat.mod_eq_of_lt hr

/-- A key that is recovered is the signer of a commitment with that first coordinate. -/
theorem recoverPoint?_eq_some {digest x y : Nat} {sig : Signature} {param : UInt32}
    (hlt : sig.r < groupOrder) (h : recoverPoint? digest sig param = some (x, y)) :
    sig.r ≠ 0 ∧ sig.s ≠ 0 ∧ ∃ c x₀ y₀,
      numbers? c = some (x₀, y₀) ∧ x₀ % groupOrder = sig.r ∧
        numbers? (signer digest sig.r sig.s c) = some (x, y) := by
  simp only [recoverPoint?] at h
  split at h
  · exact absurd h (by simp)
  · rename_i hzero
    rw [not_or] at hzero
    split at h
    · exact absurd h (by simp)
    · rename_i p hp
      obtain ⟨c, x₀, y₀, hc, hnumbers, hmod⟩ := represents_of_commitment? hlt hp
      have hsigner := affine?_of_represents
        ((hc.quotient sig.s hzero.1 hlt).add
          (represents_generator.quotient (digest % groupOrder) hzero.1 hlt).neg)
      rw [ZMod.natCast_mod, ← signer, h] at hsigner
      exact ⟨hzero.1, hzero.2, c, x₀, y₀, hnumbers, hmod, hsigner.symm⟩

/-! ## Encodings -/

/-- The encoding of a key with both coordinates. -/
def uncompressed (x y : Nat) : Bytes := 0x04 :: (Bytes.ofNatBE 32 x ++ Bytes.ofNatBE 32 y)

theorem length_uncompressed (x y : Nat) : (uncompressed x y).length = 65 := by
  simp [uncompressed, Bytes.length_ofNatBE]

/-- A point of the curve is read back from its uncompressed form. -/
theorem key?_uncompressed {x y : Nat} (hx : x < fieldPrime) (hy : y < fieldPrime)
    (h : y * y % fieldPrime = cubic x) : key? (uncompressed x y) = some ⟨x, y, 1⟩ := by
  have hread {n : Nat} (hn : n < fieldPrime) : Bytes.toNatBE (Bytes.ofNatBE 32 n) = n := by
    rw [Bytes.toNatBE_ofNatBE]
    exact Nat.mod_eq_of_lt (hn.trans fieldPrime_lt)
  have hlength : (Bytes.ofNatBE 32 x ++ Bytes.ofNatBE 32 y).length = 64 := by
    rw [List.length_append, Bytes.length_ofNatBE, Bytes.length_ofNatBE]
  have htake : (Bytes.ofNatBE 32 x ++ Bytes.ofNatBE 32 y).take 32 = Bytes.ofNatBE 32 x :=
    List.take_left' (Bytes.length_ofNatBE 32 x)
  have hdrop : (Bytes.ofNatBE 32 x ++ Bytes.ofNatBE 32 y).drop 32 = Bytes.ofNatBE 32 y :=
    List.drop_left' (Bytes.length_ofNatBE 32 x)
  simp only [key?, uncompressed, hlength, htake, hdrop, hread hx, hread hy, hx, hy, h]
  rfl

theorem ofBytes?_eq_some {bs : Bytes} {sig : Signature}
    (h : Signature.ofBytes? bs = some sig) :
    sig.r < groupOrder ∧ sig.s < groupOrder ∧ sig.s = Bytes.toNatBE (bs.drop 32) := by
  simp only [Signature.ofBytes?] at h
  split at h
  · rename_i hbounds
    obtain rfl := Option.some.inj h
    exact ⟨hbounds.2.1, hbounds.2.2, rfl⟩
  · exact absurd h (by simp)

/-- A key is recovered exactly if the lengths and the parameter are right and there is a point to
recover. -/
theorem recover_eq_ok_iff {digest signature key : Bytes} {param : UInt32} :
    recover digest signature param = .ok key ↔
      digest.length = digestLength ∧ ¬ 3 < param ∧ ∃ sig x y,
        Signature.ofBytes? signature = some sig ∧
          recoverPoint? (Bytes.toNatBE digest) sig param = some (x, y) ∧
            key = uncompressed x y := by
  constructor
  · intro h
    simp only [recover] at h
    split at h
    · exact absurd h (by simp)
    · rename_i hlength
      split at h
      · exact absurd h (by simp)
      · rename_i hparam
        split at h
        · exact absurd h (by simp)
        · rename_i sig hsig
          split at h
          · exact absurd h (by simp)
          · rename_i x y hpoint
            exact ⟨not_not.mp hlength, hparam, sig, x, y, hsig, hpoint, (Except.ok.inj h).symm⟩
  · rintro ⟨hlength, hparam, sig, x, y, hsig, hpoint, rfl⟩
    rw [recover, if_neg (not_not.mpr hlength), if_neg hparam]
    simp only [hsig, hpoint, uncompressed]

/-! ## Recovery and verification -/

/-- A recovered key is one that the signature verifies with, if `s` is not the larger of the two
values that sign the digest. -/
theorem verify_recovered {digest signature key : Bytes} {param : UInt32}
    (h : recover digest signature param = .ok key) :
    key.length = 65 ∧
      (∃ x y, x < fieldPrime ∧ y < fieldPrime ∧ y * y % fieldPrime = cubic x ∧
        key = uncompressed x y) ∧
      (verify digest signature key = true ↔
        Bytes.toNatBE (signature.drop 32) ≤ groupOrder / 2) := by
  obtain ⟨hlength, -, sig, x, y, hsig, hpoint, rfl⟩ := recover_eq_ok_iff.mp h
  obtain ⟨hr, hs, htail⟩ := ofBytes?_eq_some hsig
  obtain ⟨hrpos, hspos, c, x₀, y₀, hc, hmod, hsigner⟩ := recoverPoint?_eq_some hr hpoint
  obtain ⟨hx, hy, hcurve, hkey⟩ := of_numbers? hsigner
  refine ⟨length_uncompressed x y, ⟨x, y, hx, hy, hcurve, rfl⟩, ?_⟩
  have hsatisfies : satisfies (Bytes.toNatBE digest) sig ⟨x, y, 1⟩ = true := by
    rw [satisfies_iff hspos hs hkey,
      commitment_signer (Modular.natCast_ne_zero hrpos hr) (Modular.natCast_ne_zero hspos hs)]
    exact ⟨x₀, y₀, hc, hmod⟩
  rw [verify, if_pos hlength, ← htail]
  simp only [hsig, key?_uncompressed hx hy hcurve, ne_eq, hrpos, hspos, not_false_eq_true,
    decide_true, Bool.true_and, hsatisfies, Bool.and_true, decide_eq_true_eq]

/-- A digest of thirty-two ones. -/
def onesDigest : Bytes := List.replicate 32 1

/-- A signature with the base point for its commitment. -/
def signatureOf (s : Nat) : Bytes := Bytes.ofNatBE 32 base.x ++ Bytes.ofNatBE 32 s

/-- Where the key and the commitment are the base point, `s` is the sum of the digest and of the
commitment's first coordinate. -/
def smallS : Nat := Bytes.toNatBE onesDigest + base.x

theorem verify_recovered_small :
    recover onesDigest (signatureOf smallS) 0 = .ok (uncompressed base.x base.y) ∧
      (uncompressed base.x base.y).length = 65 ∧
      verify onesDigest (signatureOf smallS) (uncompressed base.x base.y) = true := by
  have hrecover : recover onesDigest (signatureOf smallS) 0 =
      .ok (uncompressed base.x base.y) :=
    recover_eq_ok_iff.mpr
      ⟨by decide, by decide, ⟨base.x, smallS⟩, base.x, base.y, by decide +kernel,
        by decide +kernel, rfl⟩
  have hverify := verify_recovered hrecover
  exact ⟨hrecover, hverify.1, hverify.2.2.mpr (by decide +kernel)⟩

/-- The key is recovered from the negative of `s` too, with the negative of the commitment, but the
signature is not good for it. -/
theorem not_verify_recovered_large :
    recover onesDigest (signatureOf (groupOrder - smallS)) 1 =
        .ok (uncompressed base.x base.y) ∧
      ¬ verify onesDigest (signatureOf (groupOrder - smallS)) (uncompressed base.x base.y) =
        true := by
  have hrecover : recover onesDigest (signatureOf (groupOrder - smallS)) 1 =
      .ok (uncompressed base.x base.y) :=
    recover_eq_ok_iff.mpr
      ⟨by decide, by decide, ⟨base.x, groupOrder - smallS⟩, base.x, base.y, by decide +kernel,
        by decide +kernel, rfl⟩
  exact ⟨hrecover, by decide +kernel⟩

end ContractHost.Secp256k1
