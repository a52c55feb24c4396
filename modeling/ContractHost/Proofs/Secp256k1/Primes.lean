import Mathlib.NumberTheory.LucasPrimality
import Mathlib.Tactic.NormNum.Prime
import ContractHost.Crypto.Secp256k1
import ContractHost.Proofs.Modular

/-!
# The field's modulus and the group's order are prime

A number is prime if some residue has the predecessor of the number for its order, and that is seen
from a few powers once the primes are known that divide the predecessor
(`PrimeEntry.prime_of_passes`). They are known in the same way, so a list of entries, each of which
refers to numbers of later ones and to small primes only, tells of all its numbers that they are
prime (`prime_of_certifies`).
-/

namespace ContractHost.Secp256k1

/-! ## Certificates -/

/-- A power modulo `m`, of an exponent of at most `width` bits, the least significant one first. -/
def power (m : Nat) : (width : Nat) → (a e : Nat) → Nat
  | 0, _, _ => 1
  | width + 1, a, e =>
    let rest := power m width (a * a % m) (e / 2)
    if e % 2 = 1 then rest * a % m else rest

/-- The powers of the certificates are powers modulo the number. -/
theorem cast_power (m : Nat) {width a e : Nat} (he : e < 2 ^ width) :
    (power m width a e : ZMod m) = (a : ZMod m) ^ e := by
  induction width generalizing a e with
  | zero =>
    have hzero : e = 0 := by omega
    rw [hzero, power, pow_zero, Nat.cast_one]
  | succ width ih =>
    have hhalf : e / 2 < 2 ^ width := by omega
    have hrest : (power m width (a * a % m) (e / 2) : ZMod m) = (a : ZMod m) ^ (2 * (e / 2)) := by
      rw [ih hhalf, ZMod.natCast_mod, Nat.cast_mul, ← sq, ← pow_mul]
    rw [power]
    split
    · have hodd : 2 * (e / 2) + 1 = e := by omega
      rw [ZMod.natCast_mod, Nat.cast_mul, hrest, ← pow_succ, hodd]
    · have heven : 2 * (e / 2) = e := by omega
      rw [hrest, heven]

/-- Why a number is prime: a residue of largest order, and the primes that divide the number's
predecessor with their exponents. -/
structure PrimeEntry where
  number : Nat
  residue : Nat
  factors : List (Nat × Nat)

namespace PrimeEntry

/-- The product of factors with their exponents. -/
def product : List (Nat × Nat) → Nat
  | [] => 1
  | (q, k) :: factors => Nat.pow q k * product factors

/-- A power of the residue. -/
def residuePower (e : PrimeEntry) (k : Nat) : Nat := power e.number (e.number.log2 + 1) e.residue k

/-- Is an entry right, given that some numbers are prime? -/
def passes (known : List Nat) (e : PrimeEntry) : Bool :=
  1 < e.number && product e.factors == e.number - 1 &&
    e.factors.all (fun f => known.contains f.1) && e.residuePower (e.number - 1) == 1 &&
    e.factors.all fun f => e.residuePower ((e.number - 1) / f.1) % e.number != 1

/-- The powers of an entry, whose exponents are at most its number, are powers modulo the number. -/
theorem cast_residuePower (e : PrimeEntry) {k : Nat} (hk : k ≤ e.number) :
    (e.residuePower k : ZMod e.number) = (e.residue : ZMod e.number) ^ k :=
  cast_power e.number (Nat.lt_of_le_of_lt hk Nat.lt_log2_self)

/-- A prime that divides a product of powers divides one of the bases. -/
theorem exists_mem_of_dvd_product {factors : List (Nat × Nat)} {q : Nat} (hq : q.Prime)
    (h : q ∣ product factors) : ∃ f ∈ factors, q ∣ f.1 := by
  induction factors with
  | nil => exact absurd (Nat.dvd_one.mp h) hq.one_lt.ne'
  | cons f factors ih =>
    obtain ⟨p, k⟩ := f
    rcases hq.dvd_mul.mp h with hpow | hrest
    · exact ⟨(p, k), List.mem_cons_self, hq.dvd_of_dvd_pow hpow⟩
    · obtain ⟨f, hf, hdvd⟩ := ih hrest
      exact ⟨f, List.mem_cons_of_mem _ hf, hdvd⟩

/-- An entry that passes its check is a prime, by the test of Lucas, if the factors that it names
are. -/
theorem prime_of_passes {known : List Nat} (hknown : ∀ q ∈ known, q.Prime) {e : PrimeEntry}
    (h : e.passes known) : e.number.Prime := by
  simp only [passes, Bool.and_eq_true, decide_eq_true_eq, beq_iff_eq, bne_iff_ne,
    List.all_eq_true, List.contains_iff_mem] at h
  obtain ⟨⟨⟨⟨hone, hproduct⟩, hfactors⟩, hlast⟩, hparts⟩ := h
  apply lucas_primality e.number (e.residue : ZMod e.number)
  · rw [← e.cast_residuePower (Nat.sub_le _ _), hlast, Nat.cast_one]
  · intro q hq hdvd
    -- the divisor is one of the factors
    rw [← hproduct] at hdvd
    obtain ⟨f, hf, hdvd⟩ := exists_mem_of_dvd_product hq hdvd
    have heq : q = f.1 := (Nat.prime_dvd_prime_iff_eq hq (hknown _ (hfactors f hf))).mp hdvd
    have hle : (e.number - 1) / f.1 ≤ e.number :=
      Nat.le_trans (Nat.div_le_self _ _) (Nat.sub_le _ _)
    rw [heq, ← e.cast_residuePower hle]
    intro hpow
    apply hparts f hf
    have hmod : e.residuePower ((e.number - 1) / f.1) % e.number = 1 % e.number := by
      rw [← ZMod.natCast_eq_natCast_iff', hpow, Nat.cast_one]
    rwa [Nat.mod_eq_of_lt hone] at hmod

end PrimeEntry

/-- Is every entry right, given that some numbers are prime and those of later entries are? -/
def certifies (known : List Nat) : List PrimeEntry → Bool
  | [] => true
  | e :: es => e.passes (es.map PrimeEntry.number ++ known) && certifies known es

/-- Of a list that certifies itself every entry is a prime, as each is checked with those before it.
-/
theorem prime_of_certifies {known : List Nat} {es : List PrimeEntry} (hknown : ∀ q ∈ known, q.Prime)
    (h : certifies known es) : ∀ e ∈ es, e.number.Prime := by
  induction es with
  | nil => exact List.forall_mem_nil _
  | cons e es ih =>
    rw [certifies, Bool.and_eq_true] at h
    have hes := ih h.2
    refine List.forall_mem_cons.mpr ⟨PrimeEntry.prime_of_passes ?_ h.1, hes⟩
    exact List.forall_mem_append.mpr ⟨List.forall_mem_map.mpr hes, hknown⟩

/-! ## The two primes -/

/-- The small primes that the certificates start from. -/
def smallPrimes : List Nat := [
    2, 3, 5, 7, 11, 13, 17, 29, 31, 41, 53, 59, 97, 109, 149, 293, 461, 631, 797, 971, 1373, 1627,
    1871, 2011, 2621, 2657, 4051, 4423, 5323, 7723, 9349, 13441, 16699, 20113, 24809, 28181, 41201,
    85831, 96557, 120233, 305873]

/-- The list begins with primes that are tried out. -/
theorem prime_of_mem_smallPrimes : ∀ q ∈ smallPrimes, q.Prime := by
  simp only [smallPrimes, List.forall_mem_cons]
  norm_num

/-- The certificate of the field's modulus. -/
def fieldCertificate : List PrimeEntry := [
    ⟨fieldPrime, 3,
      [(2, 1), (3, 1), (7, 1), (13441, 1),
        (205115282021455665897114700593932402728804164701536103180137503955397371, 1)]⟩,
    ⟨205115282021455665897114700593932402728804164701536103180137503955397371, 10,
      [(2, 1), (3, 1), (5, 1), (29, 2), (31, 1), (7723, 1), (132896956044521568488119, 1),
        (255515944373312847190720520512484175977, 1)]⟩,
    ⟨255515944373312847190720520512484175977, 3,
      [(2, 3), (7, 2), (11, 1), (1627, 1), (2657, 1), (4423, 1), (41201, 1), (96557, 1),
        (7240687, 1), (107590001, 1)]⟩,
    ⟨107590001, 3, [(2, 4), (5, 4), (7, 1), (29, 1), (53, 1)]⟩,
    ⟨7240687, 3, [(2, 1), (3, 1), (1206781, 1)]⟩,
    ⟨1206781, 10, [(2, 2), (3, 1), (5, 1), (20113, 1)]⟩,
    ⟨132896956044521568488119, 6, [(2, 1), (3, 1), (22149492674086928081353, 1)]⟩,
    ⟨22149492674086928081353, 5, [(2, 3), (3, 1), (5323, 1), (173378833005251801, 1)]⟩,
    ⟨173378833005251801, 6, [(2, 3), (5, 2), (2621, 1), (24809, 1), (13331831, 1)]⟩,
    ⟨13331831, 13, [(2, 1), (5, 1), (971, 1), (1373, 1)]⟩]

/-- The certificate of the group's order. -/
def orderCertificate : List PrimeEntry := [
    ⟨groupOrder, 7,
      [(2, 6), (3, 1), (149, 1), (631, 1), (107361793816595537, 1), (174723607534414371449, 1),
        (341948486974166000522343609283189, 1)]⟩,
    ⟨341948486974166000522343609283189, 2,
      [(2, 2), (3, 3), (109, 1), (29047611873442575647497758179, 1)]⟩,
    ⟨29047611873442575647497758179, 2,
      [(2, 1), (293, 1), (305873, 1), (545358713, 1), (297159362677, 1)]⟩,
    ⟨297159362677, 2, [(2, 2), (3, 2), (11, 1), (461, 1), (1627771, 1)]⟩,
    ⟨1627771, 3, [(2, 1), (3, 1), (5, 1), (29, 1), (1871, 1)]⟩,
    ⟨545358713, 5, [(2, 3), (41, 1), (59, 1), (28181, 1)]⟩,
    ⟨174723607534414371449, 3,
      [(2, 3), (17, 1), (59, 1), (4051, 1), (120233, 1), (44706919, 1)]⟩,
    ⟨44706919, 6, [(2, 1), (3, 1), (797, 1), (9349, 1)]⟩,
    ⟨107361793816595537, 3, [(2, 4), (16699, 1), (85831, 1), (4681609, 1)]⟩,
    ⟨4681609, 23, [(2, 3), (3, 1), (97, 1), (2011, 1)]⟩]

/-- The field of the curve has a prime number of elements. -/
theorem prime_fieldPrime : fieldPrime.Prime := by
  have hcertifies : certifies smallPrimes fieldCertificate := by decide +kernel
  exact prime_of_certifies prime_of_mem_smallPrimes hcertifies _ List.mem_cons_self

/-- The group of the curve has a prime order. -/
theorem prime_groupOrder : groupOrder.Prime := by
  have hcertifies : certifies smallPrimes orderCertificate := by decide +kernel
  exact prime_of_certifies prime_of_mem_smallPrimes hcertifies _ List.mem_cons_self

instance fact_prime_fieldPrime : Fact fieldPrime.Prime := ⟨prime_fieldPrime⟩

instance fact_prime_groupOrder : Fact groupOrder.Prime := ⟨prime_groupOrder⟩

end ContractHost.Secp256k1
