import Mathlib.FieldTheory.Finite.Basic
import Mathlib.Data.Nat.GCD.BigOperators
import Mathlib.Tactic.NormNum.Prime
import Dnssec.Proofs.BigEndian
import Dnssec.Proofs.PowMod
import Dnssec.Proofs.Except
import Dnssec.Signature.Rsa
/-!
# `Dnssec.Proofs.Rsa` — RSA signatures verify under a valid key

`Rsa.sign` pads the `DigestInfo` of the data to the modulus length and raises it to the private
exponent; `Rsa.verify` raises the signature to the public exponent and compares.  The two meet
when the exponents undo each other modulo the modulus:

* `Rsa.verify_sign` — then every signature `Rsa.sign` makes is accepted by `Rsa.verify`: the padded
  value is below the modulus because of its leading zero byte (`Rsa.encode_lt`), and the
  signature is written and read back at the modulus width;
* `Rsa.ValidKey.pow_modEq` — the exponents of a multi-prime key (RFC 8017) undo each other.  The
  argument is Fermat's little theorem modulo each prime, the multiples of the prime included
  (`Rsa.pow_succ_modEq_of_prime`), and the Chinese remainder theorem over the distinct primes
  (`Rsa.pow_succ_modEq_of_primes`).

`Rsa.examplePrimes` is a small valid key, with a public exponent `1379511467` and a private one of
`3`, for signing by evaluation.
-/

namespace Dnssec.Rsa

/-- Fermat, lifted: a power one more than a multiple of `p - 1` is the identity modulo the
prime `p`, also on the multiples of `p`. -/
theorem pow_succ_modEq_of_prime {p k : ℕ} (hp : p.Prime) (hk : p - 1 ∣ k) (m : ℕ) :
    m ^ (k + 1) ≡ m [MOD p] := by
  by_cases hdvd : p ∣ m
  · -- both sides are zero modulo `p`
    have hm : m ≡ 0 [MOD p] := Nat.modEq_zero_iff_dvd.2 hdvd
    have hpow : m ^ (k + 1) ≡ 0 [MOD p] :=
      Nat.modEq_zero_iff_dvd.2 (Dvd.dvd.pow hdvd (Nat.succ_ne_zero k))
    exact hpow.trans hm.symm
  · obtain ⟨j, rfl⟩ := hk
    have hcop : m.Coprime p := ((Nat.Prime.coprime_iff_not_dvd hp).2 hdvd).symm
    have hfermat : m ^ (p - 1) ≡ 1 [MOD p] := by
      simpa [Nat.totient_prime hp] using Nat.ModEq.pow_totient hcop
    calc m ^ ((p - 1) * j + 1) = (m ^ (p - 1)) ^ j * m := by rw [pow_succ, pow_mul]
      _ ≡ 1 ^ j * m [MOD p] := (hfermat.pow j).mul_right m
      _ = m := by rw [one_pow, one_mul]

/-- The same modulo a product of distinct primes, by the Chinese remainder theorem. -/
theorem pow_succ_modEq_of_primes {primes : List ℕ} {k : ℕ} (hprime : ∀ p ∈ primes, p.Prime)
    (hnodup : primes.Nodup) (hk : ∀ p ∈ primes, p - 1 ∣ k) (m : ℕ) :
    m ^ (k + 1) ≡ m [MOD primes.prod] := by
  induction primes with
  | nil => exact Nat.modEq_one
  | cons p primes ih =>
    have hp := hprime p List.mem_cons_self
    obtain ⟨hnotin, hnodup⟩ := List.nodup_cons.1 hnodup
    -- `p` is coprime to the product of the other primes, as it is none of them
    have hcop : p.Coprime primes.prod := Nat.coprime_list_prod_right_iff.2 fun q hq =>
      (Nat.coprime_primes hp (hprime q (List.mem_cons_of_mem p hq))).2
        (fun hpq => hnotin (hpq ▸ hq))
    rw [List.prod_cons]
    exact (Nat.modEq_and_modEq_iff_modEq_mul hcop).1
      ⟨pow_succ_modEq_of_prime hp (hk p List.mem_cons_self) m,
        ih (fun q hq => hprime q (List.mem_cons_of_mem p hq)) hnodup
          (fun q hq => hk q (List.mem_cons_of_mem p hq))⟩

theorem pos_of_checkPublic {n e : ℕ} (h : checkPublic n e = .ok ()) : 0 < n := by
  unfold checkPublic at h
  split_ifs at h with h₁ h₂ h₃
  simp only [Bool.or_eq_true, decide_eq_true_eq, not_or] at h₃
  omega

/-- The padded `DigestInfo` fills the modulus's bytes exactly, and its leading zero byte keeps
it below the modulus. -/
theorem encode_lt {n : ℕ} {t : Bytes} (hn : 0 < n) (hfit : t.length + 11 ≤ Nat.byteLen n) :
    (encode (Nat.byteLen n) t).length = Nat.byteLen n ∧
      Bytes.toNat (encode (Nat.byteLen n) t) < n := by
  -- after the zero byte come the `byteLen n - 1` bytes that give the value
  have hcons : encode (Nat.byteLen n) t =
      0 :: (1 :: (List.replicate (Nat.byteLen n - t.length - 3) 0xff ++ [0] ++ t)) := by
    simp [encode]
  have hrest : (1 :: (List.replicate (Nat.byteLen n - t.length - 3) 0xff ++ [0] ++ t) :
      Bytes).length = Nat.byteLen n - 1 := by
    simp
    omega
  refine ⟨by rw [hcons, List.length_cons, hrest]; omega, ?_⟩
  rw [hcons, Bytes.toNat_cons_zero]
  calc _ < 256 ^ (Nat.byteLen n - 1) := hrest ▸ Bytes.toNat_lt _
    _ ≤ n := Nat.pow_byteLen_le hn

/-- An RSA signature verifies under the public exponent of a key whose exponents undo each other
modulo the modulus. -/
theorem verify_sign {n e d : ℕ} {hf : HashFunction} {data sig : Bytes}
    (hkey : checkPublic n e = .ok ()) (hinv : ∀ m, m ^ (d * e) ≡ m [MOD n])
    (h : sign n d hf data = .ok sig) : verify n e hf sig data = .ok () := by
  have hn := pos_of_checkPublic hkey
  simp only [sign] at h
  split at h
  · contradiction
  · rename_i hfit
    cases h
    obtain ⟨hlen, hlt⟩ := encode_lt hn (Nat.le_of_not_lt hfit)
    set M := Bytes.toNat (encode (Nat.byteLen n) (digestInfo hf data))
    -- the signature is `M ^ d mod n` in the modulus's bytes, and raising it to `e` gives `M`
    have hsig : Nat.powMod M d n < n := by
      rw [Nat.powMod_eq]
      exact Nat.mod_lt _ hn
    have hread : Bytes.toNat (Nat.toBytesFixed (Nat.byteLen n) (Nat.powMod M d n)) =
        Nat.powMod M d n := by
      rw [Nat.toNat_toBytesFixed, Nat.mod_eq_of_lt (hsig.trans (Nat.lt_pow_byteLen n))]
    have hback : Nat.powMod (Nat.powMod M d n) e n = M := by
      rw [Nat.powMod_eq, Nat.powMod_eq, ← Nat.pow_mod, ← pow_mul, hinv M, Nat.mod_eq_of_lt hlt]
    have henc := Nat.toBytesFixed_toNat (encode (Nat.byteLen n) (digestInfo hf data))
    rw [hlen] at henc
    simp only [verify, hkey]
    rw [hread, hback, henc]
    simp [hfit, Nat.not_le.2 hsig]

/-- A multi-prime RSA key (RFC 8017, section 3): the modulus is the product of distinct primes,
`d · e ≡ 1` modulo each prime less one, and the public half is one the verifier accepts. -/
structure ValidKey (n e d : ℕ) (primes : List ℕ) : Prop where
  prime : ∀ p ∈ primes, p.Prime
  nodup : primes.Nodup
  prod_eq : primes.prod = n
  exponents_pos : 0 < d * e
  exponents : ∀ p ∈ primes, p - 1 ∣ d * e - 1
  checkPublic_ok : checkPublic n e = .ok ()

/-- The private and public exponents of a valid key undo each other modulo the modulus. -/
theorem ValidKey.pow_modEq {n e d : ℕ} {primes : List ℕ} (h : ValidKey n e d primes) (m : ℕ) :
    m ^ (d * e) ≡ m [MOD n] := by
  have hpow := pow_succ_modEq_of_primes h.prime h.nodup h.exponents m
  rwa [Nat.sub_add_cancel h.exponents_pos, h.prod_eq] at hpow

/-- A multi-prime RSA key of 499 bits over 34 primes, small enough to sign with by evaluation. -/
def examplePrimes : List ℕ :=
  [10337, 11969, 12161, 12377, 14081, 14561, 15233, 15401, 15809, 17291, 17681, 18089, 18701,
    20021, 21737, 23297, 23801, 25841, 28289, 29921, 30941, 35201, 35531, 38039, 39521, 41801,
    44201, 46817, 50051, 52361, 53201, 54401, 58787, 64601]

theorem examplePrimes_valid : ValidKey examplePrimes.prod 1379511467 3 examplePrimes where
  prime := by
    simp only [examplePrimes, List.mem_cons, List.not_mem_nil, or_false, forall_eq_or_imp,
      forall_eq]
    norm_num
  nodup := by decide
  prod_eq := rfl
  exponents_pos := by decide
  exponents := by decide
  checkPublic_ok := by decide +kernel

end Dnssec.Rsa
