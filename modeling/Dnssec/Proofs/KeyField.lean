import Mathlib.Algebra.Group.Nat.Defs
import Dnssec.Proofs.BigEndian
import Dnssec.Proofs.Except
import Dnssec.Signature.Format
/-!
# `Dnssec.Proofs.KeyField` — a DNSKEY's key field decodes to the key it was written from

`PublicKey.encode` writes a public key into the key field of a DNSKEY for an algorithm, and
`DnsKey.toPublicKey` decodes the field by the algorithm's key family.  The layouts (RFC 3110,
RFC 2536, RFC 6605) are codes for the keys they accept:

* `PublicKey.decode_field` — a written field decodes to its key, in each family: the RSA exponent
  length in one byte or in three, the DSA `T` recovered from the width of `P`, the ECDSA point
  at the field width, which must lie on the curve;
* `DnsKey.toPublicKey_of_encode` — so a DNSKEY whose field was written for its own algorithm
  decodes to that key.
-/

namespace Dnssec

namespace PublicKey

theorem decodeRsa_field {m e : Nat} {f : Bytes} (h : (rsa m e).field? = some f) :
    decodeRsa f = some (rsa m e) := by
  simp only [field?] at h
  split_ifs at h with hempty hshort hlong
  all_goals
    cases h
    simp only [Bool.or_eq_true, List.isEmpty_iff, not_or] at hempty
    obtain ⟨he, hm⟩ := hempty
    have hpos : 0 < (Nat.toBytes e).length := List.length_pos_iff.2 he
  · have hlen0 : (Nat.toBytes e).length.toUInt8 ≠ 0 := Nat.toUInt8_ne_zero hpos hshort
    unfold decodeRsa
    split
    · rename_i heq
      exact absurd (List.cons.inj heq).1 hlen0
    · rename_i heq
      exact absurd (List.cons.inj heq).1 hlen0
    · rename_i heq
      obtain ⟨rfl, rfl⟩ := List.cons.inj heq
      have hev := Nat.toNat_toBytes e
      have hmv := Nat.toNat_toBytes m
      generalize Nat.toBytes e = eb at *
      generalize Nat.toBytes m = mb at *
      simp [Nat.toNat_toUInt8_of_lt hshort, he, hm, hev, hmv]
    · contradiction
  · -- a long exponent length is a zero byte and two more
    obtain ⟨hi, lo, hbe⟩ : ∃ hi lo, Bytes.be16 (Nat.toBytes e).length.toUInt16 = [hi, lo] :=
      ⟨_, _, rfl⟩
    have hval : hi.toNat * 256 + lo.toNat = (Nat.toBytes e).length := by
      have h16 := Bytes.toNat_be16 (Nat.toBytes e).length.toUInt16
      rw [hbe, Nat.toUInt16_eq, UInt16.toNat_ofNat_of_lt' hlong] at h16
      simpa [Bytes.toNat] using h16
    have hev := Nat.toNat_toBytes e
    have hmv := Nat.toNat_toBytes m
    rw [hbe]
    generalize Nat.toBytes e = eb at *
    generalize Nat.toBytes m = mb at *
    simp [decodeRsa, hval, he, hm, hev, hmv]

theorem decodeDsa_field {p q g y : Nat} {f : Bytes} (h : (dsa p q g y).field? = some f) :
    decodeDsa f = some (dsa p q g y) := by
  simp only [field?] at h
  split_ifs at h with hshape hfit
  cases h
  simp only [Bool.or_eq_true, bne_iff_ne, ne_eq, decide_eq_true_eq, not_or, Nat.not_lt,
    not_not] at hshape hfit
  obtain ⟨⟨h64, hmod⟩, h8⟩ := hshape
  obtain ⟨⟨hq, hg⟩, hy⟩ := hfit
  have ht : (((Nat.byteLen p - 64) / 8).toUInt8).toNat = (Nat.byteLen p - 64) / 8 :=
    Nat.toNat_toUInt8_of_lt (by omega)
  have hlen : 64 + 8 * ((Nat.byteLen p - 64) / 8) = Nat.byteLen p := by omega
  have hdrop : (Nat.toBytesFixed (Nat.byteLen p) p ++ (Nat.toBytesFixed (Nat.byteLen p) g ++
      Nat.toBytesFixed (Nat.byteLen p) y)).drop (2 * Nat.byteLen p) =
      Nat.toBytesFixed (Nat.byteLen p) y := by
    rw [← List.append_assoc]
    exact List.drop_left' (by simp; omega)
  simp only [dsaQWidth] at hq
  simp [decodeDsa, ht, hlen, hdrop, Nat.toNat_toBytesFixed_of_byteLen_le, hq, hg, hy, dsaQWidth]
  omega

theorem decodeEc_field {c : Curve} {x y : Nat} {f : Bytes} (h : (ec c x y).field? = some f)
    (hcurve : c.onCurve x y = true) : decodeEc c f = some (ec c x y) := by
  simp only [field?] at h
  split_ifs at h with hfit
  cases h
  simp only [Bool.or_eq_true, decide_eq_true_eq, not_or, Nat.not_lt] at hfit
  obtain ⟨hx, hy⟩ := hfit
  simp [decodeEc, Nat.toNat_toBytesFixed_of_byteLen_le hx, Nat.toNat_toBytesFixed_of_byteLen_le hy,
    hcurve, Nat.two_mul]

/-- A key field decodes, by the key's family, to the key it was written from; an ECDSA key must
be a point of its curve, which decoding checks. -/
theorem decode_field {pk : PublicKey} {f : Bytes} (h : pk.field? = some f)
    (hcurve : ∀ c x y, pk = .ec c x y → c.onCurve x y = true) :
    decode pk.family f = some pk := by
  cases pk with
  | rsa m e => exact decodeRsa_field h
  | dsa p q g y => exact decodeDsa_field h
  | ec c x y => exact decodeEc_field h (hcurve c x y rfl)

theorem head_field_dsa {p q g y : ℕ} {f : Bytes} (h : (dsa p q g y).field? = some f) :
    f.head? = some (dsaT p) := by
  simp only [field?] at h
  split_ifs at h
  cases h
  rfl

theorem encode_eq_ok {pk : PublicKey} {alg : UInt8} {f : Bytes} :
    pk.encode alg = .ok f ↔ (∃ a, pk.family.check alg = .ok a) ∧ pk.field? = some f := by
  unfold encode
  cases pk.family.check alg with
  | error e => simp
  | ok a =>
    cases pk.field? with
    | none => simp
    | some f' => simp

end PublicKey

theorem KeyFamily.check_eq_ok {fam : KeyFamily} {alg : UInt8} {a : Algorithm} :
    fam.check alg = .ok a ↔ Algorithm.ofNumber alg = .ok a ∧ a.family = fam := by
  unfold KeyFamily.check
  cases Algorithm.ofNumber alg with
  | error e => simp
  | ok a' =>
    by_cases hfam : a'.family = fam
    · simp only [hfam, Except.ok_bind, if_true, Except.pure_eq_ok, Except.ok.injEq]
      constructor
      · rintro rfl
        exact ⟨rfl, hfam⟩
      · exact fun h => h.1
    · simp only [hfam, Except.ok_bind, if_false, Except.throw_eq_error, reduceCtorEq,
        Except.ok.injEq, false_iff, not_and]
      rintro rfl
      exact hfam

/-- A DNSKEY whose key field was written from a public key decodes to that key. -/
theorem DnsKey.toPublicKey_of_encode {k : DnsKey} {pk : PublicKey}
    (henc : pk.encode k.algorithm = .ok k.publicKey)
    (hcurve : ∀ c x y, pk = .ec c x y → c.onCurve x y = true) : k.toPublicKey = .ok pk := by
  obtain ⟨⟨a, hcheck⟩, hfield⟩ := PublicKey.encode_eq_ok.1 henc
  obtain ⟨hnum, hfam⟩ := KeyFamily.check_eq_ok.1 hcheck
  simp [DnsKey.toPublicKey, hnum, hfam, PublicKey.decode_field hfield hcurve]

end Dnssec
