import Dnssec.Proofs.KeyField
import Dnssec.Proofs.SigFormat
/-!
# `Dnssec.Proofs.KeyCodec` — which keys have a DNSKEY field, and which fields come back

`PublicKey.encode` writes a key for an algorithm number with minimal RSA values and fixed-width
DSA and ECDSA values; `DnsKey.toPublicKey` reads a field by the algorithm's family and accepts
more than the encoder writes: leading zero bytes, the three-byte exponent length for a short
exponent, a DSA `P` shorter than its field.

* `PublicKey.encode_outcome` — the encoder refuses a number outside the algorithm table, then a
  key of another family or curve, then exactly the values its layout cannot hold
  (`PublicKey.Unencodable`); what it writes decodes back to the key, an ECDSA point on its curve,
  and a DSA field starts with the `T` of the key's signatures;
* `DnsKey.encode_toPublicKey_iff_canonical` — re-encoding a decoded field gives the field back
  exactly when it is in the one form the encoder writes (`CanonicalField`).

Both rest on reading the minimal form of a value off its bytes: it is the bytes without their
leading zeros (`Nat.toBytes_toNat`), so a decoded field is re-encoded at most as long as it was,
and exactly as long only where it had no zero to lose.
-/

namespace Dnssec

/-! ## Minimal forms of values read from bytes -/

theorem Nat.byteLen_eq_zero {n : Nat} : Nat.byteLen n = 0 ↔ n = 0 := by
  rw [Nat.byteLen]
  split <;> simp_all

theorem Nat.byteLen_le_of_lt_pow {n w : Nat} (h : n < 256 ^ w) : Nat.byteLen n ≤ w := by
  rcases Nat.eq_zero_or_pos n with rfl | hn
  · simp [Nat.byteLen_eq_zero.2 rfl]
  · have hlt : 256 ^ (Nat.byteLen n - 1) < 256 ^ w :=
      Nat.lt_of_le_of_lt (Nat.pow_byteLen_le hn) h
    have := (Nat.pow_lt_pow_iff_right (by omega)).1 hlt
    omega

theorem Bytes.head?_stripZeros (b : Bytes) : (Bytes.stripZeros b).head? ≠ some 0 := by
  cases h : Bytes.stripZeros b with
  | nil => simp
  | cons x rest =>
    simpa using Bytes.stripZeros_head_ne_zero h

theorem Nat.byteLen_toNat_of_head {b : Bytes} (h : b.head? ≠ some 0) :
    Nat.byteLen (Bytes.toNat b) = b.length := by
  cases b with
  | nil => simp [Bytes.toNat, Nat.byteLen_eq_zero]
  | cons x r =>
    have hx : 1 ≤ x.toNat := by
      have : x ≠ 0 := fun hx => h (by simp [hx])
      have : x.toNat ≠ 0 := fun h0 => this (UInt8.toNat_inj.1 h0)
      omega
    -- the first byte counts `256 ^ r.length` at least once
    have hlo : 256 ^ r.length ≤ Bytes.toNat (x :: r) := by
      have hval := Bytes.toNat_append [x] r
      simp only [List.singleton_append] at hval
      have hx' : Bytes.toNat [x] = x.toNat := by simp [Bytes.toNat]
      rw [hval, hx']
      calc 256 ^ r.length ≤ x.toNat * 256 ^ r.length := Nat.le_mul_of_pos_left _ hx
        _ ≤ _ := Nat.le_add_right _ _
    have hup := Nat.byteLen_le_of_lt_pow (Bytes.toNat_lt (x :: r))
    have hdown : r.length < Nat.byteLen (Bytes.toNat (x :: r)) :=
      (Nat.pow_lt_pow_iff_right (by omega)).1 (Nat.lt_of_le_of_lt hlo (Nat.lt_pow_byteLen _))
    simp only [List.length_cons] at hup ⊢
    omega

theorem Nat.byteLen_toNat (b : Bytes) :
    Nat.byteLen (Bytes.toNat b) = (Bytes.stripZeros b).length := by
  rw [← Bytes.toNat_stripZeros b, Nat.byteLen_toNat_of_head (Bytes.head?_stripZeros b)]

/-- The minimal form of a value read from bytes is the bytes without their leading zeros. -/
theorem Nat.toBytes_toNat (b : Bytes) : Nat.toBytes (Bytes.toNat b) = Bytes.stripZeros b := by
  rw [Nat.toBytes, Nat.byteLen_toNat, ← Bytes.toNat_stripZeros b, Nat.toBytesFixed_toNat]

theorem Bytes.length_stripZeros_eq_iff {b : Bytes} :
    (Bytes.stripZeros b).length = b.length ↔ b.head? ≠ some 0 := by
  constructor
  · intro h
    rw [← (Bytes.stripZeros_suffix b).eq_of_length h]
    exact Bytes.head?_stripZeros b
  · intro h
    cases b with
    | nil => rfl
    | cons x r =>
      have hx : x ≠ 0 := fun hx => h (by simp [hx])
      simp [Bytes.stripZeros, hx]

theorem Bytes.length_stripZeros_le (b : Bytes) : (Bytes.stripZeros b).length ≤ b.length :=
  (Bytes.stripZeros_suffix b).length_le

theorem Bytes.stripZeros_eq_self {b : Bytes} (h : b.head? ≠ some 0) : Bytes.stripZeros b = b :=
  (Bytes.stripZeros_suffix b).eq_of_length (Bytes.length_stripZeros_eq_iff.2 h)

theorem Nat.byteLen_toNat_le {b : Bytes} {w : Nat} (h : b.length ≤ w) :
    Nat.byteLen (Bytes.toNat b) ≤ w := by
  rw [Nat.byteLen_toNat]
  exact Nat.le_trans (Bytes.length_stripZeros_le b) h

theorem Nat.toBytesFixed_toNat_of_length {b : Bytes} {w : Nat} (h : b.length = w) :
    Nat.toBytesFixed w (Bytes.toNat b) = b := by
  rw [← h, Nat.toBytesFixed_toNat]

theorem Bytes.be16_toUInt16 (hi lo : UInt8) :
    Bytes.be16 (hi.toNat * 256 + lo.toNat).toUInt16 = [hi, lo] := by
  have hw : (hi.toNat * 256 + lo.toNat).toUInt16 = (hi.toUInt16 <<< 8) ||| lo.toUInt16 := by
    apply UInt16.toNat_inj.1
    have := hi.toNat_lt
    have := lo.toNat_lt
    rw [Bytes.toNat_word16, Nat.toUInt16_eq, UInt16.toNat_ofNat_of_lt' (by
      simp only [UInt16.size]
      omega)]
  rw [hw, Bytes.be16_word16]

/-! ## What decoding reads -/

namespace PublicKey

theorem decodeRsa_body {len : Nat} {rest : Bytes} {pk : PublicKey}
    (h : (if rest.length < len then none
      else if ((rest.take len).isEmpty || (rest.drop len).isEmpty) = true then none
      else some (rsa (Bytes.toNat (rest.drop len)) (Bytes.toNat (rest.take len)))) = some pk) :
    (rest.take len).length = len ∧ rest.take len ≠ [] ∧ rest.drop len ≠ [] ∧
      pk = rsa (Bytes.toNat (rest.drop len)) (Bytes.toNat (rest.take len)) := by
  split_ifs at h with hshort hempty
  cases h
  simp only [Bool.or_eq_true, List.isEmpty_iff, not_or] at hempty
  exact ⟨by simp; omega, hempty.1, hempty.2, rfl⟩

/-- What a successful RSA decoding read: the exponent length in one byte (from 1 to 255), or in
two behind a zero byte, then the exponent and the modulus, neither empty. -/
theorem decodeRsa_eq_some {b : Bytes} {pk : PublicKey} (h : decodeRsa b = some pk) :
    ∃ head E M, b = head ++ E ++ M ∧ E ≠ [] ∧ M ≠ [] ∧
      pk = rsa (Bytes.toNat M) (Bytes.toNat E) ∧
      (head = [E.length.toUInt8] ∧ E.length < 256 ∨
        head = 0 :: Bytes.be16 E.length.toUInt16 ∧ E.length < 65536) := by
  unfold decodeRsa at h
  split at h
  · -- the length in two bytes behind a zero
    rename_i hi lo rest
    obtain ⟨hlen, hE, hM, rfl⟩ := decodeRsa_body h
    have hword : hi.toNat * 256 + lo.toNat < 65536 := by
      have := hi.toNat_lt
      have := lo.toNat_lt
      omega
    refine ⟨[0, hi, lo], _, _, by simp, hE, hM, rfl, Or.inr ⟨?_, by omega⟩⟩
    rw [hlen, Bytes.be16_toUInt16]
  · cases h
  · -- the length in one non-zero byte
    rename_i len rest _ hne
    obtain ⟨hlen, hE, hM, rfl⟩ := decodeRsa_body h
    have hbyte : len.toNat < 256 := len.toNat_lt
    refine ⟨[len], _, _, by simp, hE, hM, rfl, Or.inl ⟨?_, by omega⟩⟩
    rw [hlen, Nat.toUInt8_eq, UInt8.ofNat_toNat]
  · cases h

/-- What a successful DSA decoding read: `T` of at most 8, then `Q` in 20 bytes and `P`, `G`,
`Y` in `64 + 8·T` bytes each. -/
theorem decodeDsa_eq_some {b : Bytes} {pk : PublicKey} (h : decodeDsa b = some pk) :
    ∃ t Q P G Y, b = t :: (Q ++ P ++ G ++ Y) ∧ t.toNat ≤ 8 ∧ Q.length = dsaQWidth ∧
      P.length = 64 + 8 * t.toNat ∧ G.length = 64 + 8 * t.toNat ∧
      Y.length = 64 + 8 * t.toNat ∧
      pk = dsa (Bytes.toNat P) (Bytes.toNat Q) (Bytes.toNat G) (Bytes.toNat Y) := by
  cases b with
  | nil => cases h
  | cons t rest =>
    rw [decodeDsa] at h
    split_ifs at h with hshape
    cases h
    simp only [Bool.or_eq_true, decide_eq_true_eq, bne_iff_ne, ne_eq, not_or, Nat.not_lt,
      not_not] at hshape
    obtain ⟨ht, hlen⟩ := hshape
    refine ⟨t, _, _, _, _, ?_, ht, ?_, ?_, ?_, ?_, rfl⟩
    · -- the three fields after `Q` are cut one after the other
      have hsplit : ∀ (L : Nat) (R : Bytes),
          R.take L ++ ((R.drop L).take L ++ R.drop (2 * L)) = R := by
        intro L R
        rw [Nat.two_mul, ← List.drop_drop, List.take_append_drop, List.take_append_drop]
      simp only [List.append_assoc]
      rw [hsplit, List.take_append_drop]
    all_goals simp only [dsaQWidth, List.length_take, List.length_drop] at hlen ⊢; omega

theorem decodeEc_eq_some {c : Curve} {b : Bytes} {pk : PublicKey} (h : decodeEc c b = some pk) :
    ∃ X Y, b = X ++ Y ∧ X.length = c.width ∧ Y.length = c.width ∧
      c.onCurve (Bytes.toNat X) (Bytes.toNat Y) = true ∧
      pk = ec c (Bytes.toNat X) (Bytes.toNat Y) := by
  simp only [decodeEc] at h
  split_ifs at h with hlen hcurve
  cases h
  simp only [bne_iff_ne, ne_eq, not_not] at hlen
  exact ⟨_, _, (List.take_append_drop _ _).symm, by simp; omega, by simp; omega, hcurve, rfl⟩

/-- A field decodes to a key of the family it was decoded for. -/
theorem family_decode {fam : KeyFamily} {b : Bytes} {pk : PublicKey} (h : decode fam b = some pk) :
    pk.family = fam := by
  cases fam with
  | rsa =>
    obtain ⟨-, -, -, -, -, -, rfl, -⟩ := decodeRsa_eq_some h
    rfl
  | dsa =>
    obtain ⟨-, -, -, -, -, -, -, -, -, -, -, rfl⟩ := decodeDsa_eq_some h
    rfl
  | ecdsa c =>
    obtain ⟨-, -, -, -, -, -, rfl⟩ := decodeEc_eq_some h
    rfl

end PublicKey

/-! ## The algorithm table -/

namespace Algorithm

theorem ofNumber?_number (a : Algorithm) : ofNumber? a.number = some a := by
  cases a <;> rfl

theorem ofNumber?_eq_some {n : UInt8} {a : Algorithm} : ofNumber? n = some a ↔ a.number = n := by
  constructor
  · intro h
    simpa using List.find?_some h
  · rintro rfl
    exact ofNumber?_number a

theorem ofNumber?_eq_none {n : UInt8} :
    ofNumber? n = none ↔ ∀ a : Algorithm, a.number ≠ n := by
  constructor
  · intro h a ha
    rw [← ha, ofNumber?_number] at h
    cases h
  · intro h
    cases hn : ofNumber? n with
    | none => rfl
    | some a => exact absurd (ofNumber?_eq_some.1 hn) (h a)

end Algorithm

namespace PublicKey

/-- `encode` in the order of its checks: the algorithm of the number, its family, the layout. -/
theorem encode_eq (pk : PublicKey) (alg : UInt8) :
    pk.encode alg =
      match Algorithm.ofNumber? alg with
      | none => .error (.unsupportedAlgorithm alg)
      | some a =>
        if a.family = pk.family then
          match pk.field? with
          | some f => .ok f
          | none => .error .malformedKey
        else .error .incompatibleKey := by
  unfold encode KeyFamily.check Algorithm.ofNumber
  cases Algorithm.ofNumber? alg with
  | none => rfl
  | some a =>
    by_cases hfam : a.family = pk.family
    · simp only [hfam, if_true, Except.ok_bind]
      cases pk.field? <;> rfl
    · simp only [hfam, if_false, Except.ok_bind]
      rfl

/-- The values of a key that its family's layout cannot hold: an RSA modulus or exponent of zero,
or an exponent longer than 65535 bytes (RFC 3110); a DSA `P` whose length is not `64 + 8·T`
bytes for a `T` of at most 8, a `Q` longer than 20 bytes, or a `G` or `Y` longer than `P`
(RFC 2536); an ECDSA coordinate wider than the curve's field (RFC 6605). -/
def Unencodable : PublicKey → Prop
  | rsa m e => m = 0 ∨ e = 0 ∨ 65535 < Nat.byteLen e
  | dsa p q g y => (¬ ∃ t ≤ 8, Nat.byteLen p = 64 + 8 * t) ∨ dsaQWidth < Nat.byteLen q ∨
      Nat.byteLen p < Nat.byteLen g ∨ Nat.byteLen p < Nat.byteLen y
  | ec c x y => c.width < Nat.byteLen x ∨ c.width < Nat.byteLen y

theorem field?_eq_none_iff (pk : PublicKey) : pk.field? = none ↔ pk.Unencodable := by
  cases pk with
  | rsa m e =>
    have he : (Nat.toBytes e).isEmpty = true ↔ e = 0 := by
      rw [List.isEmpty_iff, ← List.length_eq_zero_iff, Nat.length_toBytes, Nat.byteLen_eq_zero]
    have hm : (Nat.toBytes m).isEmpty = true ↔ m = 0 := by
      rw [List.isEmpty_iff, ← List.length_eq_zero_iff, Nat.length_toBytes, Nat.byteLen_eq_zero]
    simp only [field?, Unencodable, Bool.or_eq_true, he, hm, Nat.length_toBytes]
    split_ifs <;> simp_all <;> omega
  | dsa p q g y =>
    simp only [field?, Unencodable, Bool.or_eq_true, decide_eq_true_eq, bne_iff_ne, gt_iff_lt]
    by_cases hp : ∃ t ≤ 8, Nat.byteLen p = 64 + 8 * t
    · -- a length `64 + 8·T` with `T ≤ 8` passes the three tests of the length of `P`
      obtain ⟨t, ht, hlen⟩ := hp
      have hshape : ¬ ((Nat.byteLen p < 64 ∨ (Nat.byteLen p - 64) % 8 ≠ 0) ∨
          8 < (Nat.byteLen p - 64) / 8) := by omega
      rw [if_neg hshape]
      by_cases hfit : (dsaQWidth < Nat.byteLen q ∨ Nat.byteLen p < Nat.byteLen g) ∨
          Nat.byteLen p < Nat.byteLen y
      · rw [if_pos hfit]
        simp only [true_iff]
        exact Or.inr (or_assoc.1 hfit)
      · rw [if_neg hfit]
        simp only [reduceCtorEq, false_iff, not_or, not_not]
        exact ⟨⟨t, ht, hlen⟩, by omega⟩
    · -- and every other length fails one of them
      have hshape : (Nat.byteLen p < 64 ∨ (Nat.byteLen p - 64) % 8 ≠ 0) ∨
          8 < (Nat.byteLen p - 64) / 8 := by
        by_contra h
        exact hp ⟨(Nat.byteLen p - 64) / 8, by omega, by omega⟩
      rw [if_pos hshape]
      simp only [true_iff]
      exact Or.inl hp
  | ec c x y =>
    simp only [field?, Unencodable, Bool.or_eq_true, decide_eq_true_eq]
    split_ifs <;> simp_all

theorem encode_number (pk : PublicKey) (a : Algorithm) :
    pk.encode a.number =
      if a.family = pk.family then
        match pk.field? with
        | some f => .ok f
        | none => .error .malformedKey
      else .error .incompatibleKey := by
  rw [encode_eq, Algorithm.ofNumber?_number]

/-- Writing a key for an algorithm number.  The encoder refuses, in this order, a number outside
the algorithm table (`unsupportedAlgorithm`), an algorithm of another family or curve than the
key (`incompatibleKey`) and values the layout cannot hold (`malformedKey`), each exactly when its
condition holds, and otherwise writes a field.  A DSA field starts with the `T` the key's
signatures carry, and every field decodes back to the key under a DNSKEY of the algorithm,
provided an ECDSA key is a point of its curve, which decoding checks. -/
theorem encode_outcome (pk : PublicKey) (alg : UInt8) :
    (pk.encode alg = .error (.unsupportedAlgorithm alg) ↔ ∀ a : Algorithm, a.number ≠ alg) ∧
    ∀ a : Algorithm, a.number = alg →
      (pk.encode alg = .error .incompatibleKey ↔ pk.family ≠ a.family) ∧
      (pk.family = a.family →
        (pk.encode alg = .error .malformedKey ↔ pk.Unencodable) ∧
        ((∃ f, pk.encode alg = .ok f) ↔ ¬ pk.Unencodable)) ∧
      ∀ f, pk.encode alg = .ok f →
        (∀ t, pk.sigFormat = .dsa t → f.head? = some t) ∧
        ((∀ c x y, pk = .ec c x y → c.onCurve x y = true) →
          ∀ name flags protocol,
            DnsKey.toPublicKey ⟨name, flags, protocol, alg, f⟩ = .ok pk) := by
  refine ⟨⟨fun h a ha => ?_, fun h => ?_⟩, fun a ha => ?_⟩
  · -- an algorithm of the table is refused for its family or the layout, if at all
    subst ha
    rw [encode_number] at h
    split_ifs at h
    · cases hf : pk.field? <;> simp [hf] at h
    · cases h
  · rw [encode_eq, Algorithm.ofNumber?_eq_none.2 h]
  subst ha
  have hnone := field?_eq_none_iff pk
  refine ⟨?_, fun hfam => ?_,
    fun f hf => ⟨fun t ht => ?_, fun hcurve name flags protocol => ?_⟩⟩
  · rw [encode_number]
    by_cases hfam : a.family = pk.family
    · rw [if_pos hfam]
      simp only [ne_eq, hfam.symm, not_true_eq_false, iff_false]
      cases pk.field? <;> simp
    · simp [hfam, Ne.symm hfam]
  · rw [encode_number, if_pos hfam.symm, ← hnone]
    cases pk.field? <;> simp
  · -- the `T` of a DSA field is the one its signatures carry
    obtain ⟨-, hfield⟩ := encode_eq_ok.1 hf
    cases pk with
    | dsa p q g y =>
      cases ht
      exact head_field_dsa hfield
    | rsa => cases ht
    | ec => cases ht
  · exact DnsKey.toPublicKey_of_encode hf hcurve

/-- An RSA key with a one-byte exponent, written for RSA/SHA-1: the one-byte length form, and
the field decodes back to the key. -/
theorem encode_outcome_rsa :
    (rsa 0xc5c5 3).encode 5 = .ok [1, 3, 0xc5, 0xc5] ∧
      DnsKey.toPublicKey ⟨Name.root, 256, 3, 5, [1, 3, 0xc5, 0xc5]⟩ = .ok (rsa 0xc5c5 3) := by
  have henc : (rsa 0xc5c5 3).encode 5 = .ok [1, 3, 0xc5, 0xc5] := by decide +kernel
  obtain ⟨-, hin⟩ := encode_outcome (rsa 0xc5c5 3) 5
  obtain ⟨-, -, hround⟩ := hin .rsaSha1 rfl
  exact ⟨henc, (hround _ henc).2 (fun c x y h => by cases h) _ _ _⟩

/-! ## Re-encoding a decoded field -/

/-- Where the exponent of an RSA key field starts and how long it is (RFC 3110): after its length
in one byte, or after a zero byte and its length in two. -/
def rsaExponentSpan : Bytes → Nat × Nat
  | 0 :: hi :: lo :: _ => (3, hi.toNat * 256 + lo.toNat)
  | len :: _ => (1, len.toNat)
  | [] => (0, 0)

/-- The key fields the encoder writes for the keys they decode to: an RSA field whose exponent
and modulus each start with a non-zero byte and whose exponent length takes one byte exactly
when the exponent is shorter than 256 bytes; a DSA field whose `P`, after `T` and the 20 bytes
of `Q`, starts with a non-zero byte; every ECDSA field. -/
def CanonicalField : KeyFamily → Bytes → Prop
  | .rsa, b => ∀ start len, rsaExponentSpan b = (start, len) →
      b[start]? ≠ some 0 ∧ b[start + len]? ≠ some 0 ∧ (start = 1 ↔ len < 256)
  | .dsa, b => b[1 + dsaQWidth]? ≠ some 0
  | .ecdsa _, _ => True

theorem rsaExponentSpan_eq {head E : Bytes} (M : Bytes) (hE : E ≠ [])
    (hhead : head = [E.length.toUInt8] ∧ E.length < 256 ∨
      head = 0 :: Bytes.be16 E.length.toUInt16 ∧ E.length < 65536) :
    rsaExponentSpan (head ++ E ++ M) = (head.length, E.length) := by
  have hpos : 0 < E.length := List.length_pos_iff.2 hE
  rcases hhead with ⟨rfl, hshort⟩ | ⟨rfl, hlong⟩
  · have hne := Nat.toUInt8_ne_zero hpos hshort
    unfold rsaExponentSpan
    split
    · rename_i heq
      exact absurd (List.cons.inj heq).1 hne
    · rename_i heq
      obtain ⟨rfl, -⟩ := List.cons.inj heq
      rw [Nat.toNat_toUInt8_of_lt hshort]
      rfl
    · contradiction
  · obtain ⟨hi, lo, hbe⟩ : ∃ hi lo, Bytes.be16 E.length.toUInt16 = [hi, lo] :=
      ⟨_, _, rfl⟩
    have hval : hi.toNat * 256 + lo.toNat = E.length := by
      have h16 := Bytes.toNat_be16 E.length.toUInt16
      rw [hbe, Nat.toUInt16_eq, UInt16.toNat_ofNat_of_lt' hlong] at h16
      simpa [Bytes.toNat] using h16
    rw [hbe]
    simp [rsaExponentSpan, hval]

/-- An RSA field read as length form, exponent and modulus is canonical when neither number
starts with a zero byte and the short length form is used exactly for short exponents. -/
theorem canonicalField_rsa_iff {head E M : Bytes} (hE : E ≠ []) (hM : M ≠ [])
    (hhead : head = [E.length.toUInt8] ∧ E.length < 256 ∨
      head = 0 :: Bytes.be16 E.length.toUInt16 ∧ E.length < 65536) :
    CanonicalField .rsa (head ++ E ++ M) ↔
      E.head? ≠ some 0 ∧ M.head? ≠ some 0 ∧ (head.length = 1 ↔ E.length < 256) := by
  have hEat : (head ++ E ++ M)[head.length]? = E.head? := by
    obtain ⟨x, r, rfl⟩ := List.exists_cons_of_ne_nil hE
    simp
  have hMat : (head ++ E ++ M)[head.length + E.length]? = M.head? := by
    obtain ⟨x, r, rfl⟩ := List.exists_cons_of_ne_nil hM
    rw [List.append_assoc, List.getElem?_append_right (by omega),
      List.getElem?_append_right (by omega)]
    simp
  simp only [CanonicalField, rsaExponentSpan_eq M hE hhead, Prod.mk.injEq]
  constructor
  · intro hc
    rw [← hEat, ← hMat]
    exact hc _ _ ⟨rfl, rfl⟩
  · rintro hc _ _ ⟨rfl, rfl⟩
    rw [hEat, hMat]
    exact hc

theorem field?_eq_of_decodeRsa {b : Bytes} {pk : PublicKey} (h : decodeRsa b = some pk) :
    pk.field? = some b ↔ CanonicalField .rsa b := by
  obtain ⟨head, E, M, rfl, hE, hM, rfl, hhead⟩ := decodeRsa_eq_some h
  rw [canonicalField_rsa_iff hE hM hhead]
  have hEs := Bytes.length_stripZeros_le E
  have hMs := Bytes.length_stripZeros_le M
  have hEpos : 0 < E.length := List.length_pos_iff.2 hE
  simp only [field?, Nat.toBytes_toNat]
  constructor
  · -- the written field is shorter unless nothing was stripped and the length form agrees
    intro hf
    have hlen : ∃ w, (Bytes.stripZeros E).length + (Bytes.stripZeros M).length + w =
        head.length + E.length + M.length ∧ (w = 1 ↔ (Bytes.stripZeros E).length < 256) ∧
        (w = 1 ∨ w = 3) := by
      split_ifs at hf with hempty hshort hlong
      · refine ⟨1, ?_, by simp [hshort], by simp⟩
        have := congrArg List.length (Option.some.inj hf)
        simp only [List.length_cons, List.length_append] at this
        omega
      · refine ⟨3, ?_, by simp [hshort], by simp⟩
        have := congrArg List.length (Option.some.inj hf)
        simp only [List.length_cons, List.length_append, Bytes.length_be16] at this
        omega
    obtain ⟨w, hsum, hw, hw13⟩ := hlen
    have hhl : head.length = 1 ∧ E.length < 256 ∨ head.length = 3 := by
      rcases hhead with ⟨rfl, h⟩ | ⟨rfl, -⟩ <;> simp [*]
    have hEeq : (Bytes.stripZeros E).length = E.length := by omega
    have hMeq : (Bytes.stripZeros M).length = M.length := by omega
    exact ⟨Bytes.length_stripZeros_eq_iff.1 hEeq, Bytes.length_stripZeros_eq_iff.1 hMeq,
      by omega⟩
  · -- a canonical field is what the encoder writes for the values it holds
    rintro ⟨hEh, hMh, hform⟩
    rw [Bytes.stripZeros_eq_self hEh, Bytes.stripZeros_eq_self hMh]
    have hne : ¬ ((E.isEmpty || M.isEmpty) = true) := by simpa using And.intro hE hM
    rw [if_neg hne]
    rcases hhead with ⟨rfl, hshort⟩ | ⟨rfl, hlong⟩
    · simp [hshort]
    · have hnshort : ¬ E.length < 256 := fun h => by simpa using hform.2 h
      simp [hnshort, hlong]

/-- A DSA field decoded and written back: the same bytes exactly when `P` starts with a non-zero
byte, so that `T` is recomputed from the width of `P`. -/
theorem field?_eq_of_decodeDsa {b : Bytes} {pk : PublicKey} (h : decodeDsa b = some pk) :
    pk.field? = some b ↔ CanonicalField .dsa b := by
  obtain ⟨t, Q, P, G, Y, rfl, ht, hQ, hP, hG, hY, rfl⟩ := decodeDsa_eq_some h
  have hat : (t :: (Q ++ P ++ G ++ Y))[1 + dsaQWidth]? = P.head? := by
    have hP0 : 0 < P.length := by omega
    obtain ⟨x, r, rfl⟩ := List.exists_cons_of_length_pos hP0
    rw [Nat.add_comm, List.getElem?_cons_succ, List.append_assoc, List.append_assoc,
      List.getElem?_append_right (by omega)]
    simp [hQ]
  simp only [CanonicalField, hat]
  constructor
  · -- a field is `1 + 20 + 3·byteLen p` bytes, shorter than `b` when `P` starts with a zero
    intro hf
    simp only [field?] at hf
    split_ifs at hf
    have hlen := congrArg List.length (Option.some.inj hf)
    simp only [List.length_cons, List.length_append, Nat.length_toBytesFixed] at hlen
    rw [← Bytes.length_stripZeros_eq_iff, ← Nat.byteLen_toNat]
    omega
  · intro hhead
    have hp : Nat.byteLen (Bytes.toNat P) = P.length := Nat.byteLen_toNat_of_head hhead
    have hq := Nat.byteLen_toNat_le (Nat.le_of_eq hQ)
    have hg := Nat.byteLen_toNat_le (Nat.le_of_eq (hG.trans hP.symm))
    have hy := Nat.byteLen_toNat_le (Nat.le_of_eq (hY.trans hP.symm))
    have ht' : ((P.length - 64) / 8).toUInt8 = t := by
      rw [hP, show (64 + 8 * t.toNat - 64) / 8 = t.toNat by omega, Nat.toUInt8_eq,
        UInt8.ofNat_toNat]
    have hshape : ¬ ((P.length < 64 || (P.length - 64) % 8 != 0 ||
        decide ((P.length - 64) / 8 > 8)) = true) := by
      simp only [Bool.or_eq_true, decide_eq_true_eq, bne_iff_ne, ne_eq, not_or, not_not]
      omega
    have hfit : ¬ ((decide (Nat.byteLen (Bytes.toNat Q) > dsaQWidth) ||
        decide (Nat.byteLen (Bytes.toNat G) > P.length) ||
        decide (Nat.byteLen (Bytes.toNat Y) > P.length)) = true) := by
      simp only [Bool.or_eq_true, decide_eq_true_eq, not_or, gt_iff_lt, Nat.not_lt]
      omega
    simp only [field?, hp]
    rw [if_neg hshape, if_neg hfit, ht', Nat.toBytesFixed_toNat_of_length hQ,
      Nat.toBytesFixed_toNat_of_length rfl, Nat.toBytesFixed_toNat_of_length (hG.trans hP.symm),
      Nat.toBytesFixed_toNat_of_length (hY.trans hP.symm)]
    simp

theorem field?_eq_of_decodeEc {c : Curve} {b : Bytes} {pk : PublicKey}
    (h : decodeEc c b = some pk) : pk.field? = some b := by
  obtain ⟨X, Y, rfl, hX, hY, -, rfl⟩ := decodeEc_eq_some h
  have hfit : ¬ ((decide (Nat.byteLen (Bytes.toNat X) > c.width) ||
      decide (Nat.byteLen (Bytes.toNat Y) > c.width)) = true) := by
    simp only [Bool.or_eq_true, decide_eq_true_eq, not_or, gt_iff_lt, Nat.not_lt]
    exact ⟨Nat.byteLen_toNat_le (Nat.le_of_eq hX), Nat.byteLen_toNat_le (Nat.le_of_eq hY)⟩
  simp only [field?]
  rw [if_neg hfit, Nat.toBytesFixed_toNat_of_length hX, Nat.toBytesFixed_toNat_of_length hY]

theorem field?_eq_iff_canonical {fam : KeyFamily} {b : Bytes} {pk : PublicKey}
    (h : decode fam b = some pk) : pk.field? = some b ↔ CanonicalField fam b := by
  cases fam with
  | rsa => exact field?_eq_of_decodeRsa h
  | dsa => exact field?_eq_of_decodeDsa h
  | ecdsa c => exact iff_of_true (field?_eq_of_decodeEc h) trivial

end PublicKey

theorem DnsKey.toPublicKey_eq_ok {k : DnsKey} {pk : PublicKey} :
    k.toPublicKey = .ok pk ↔ ∃ a, Algorithm.ofNumber? k.algorithm = some a ∧
      PublicKey.decode a.family k.publicKey = some pk := by
  unfold DnsKey.toPublicKey Algorithm.ofNumber
  cases Algorithm.ofNumber? k.algorithm with
  | none => simp
  | some a =>
    cases hd : PublicKey.decode a.family k.publicKey with
    | none => simp [hd]
    | some pk' => simp [hd]

/-- Re-encoding the key a DNSKEY decodes to, for the DNSKEY's algorithm, gives back its key field
exactly when the field is canonical: always for ECDSA, for DSA when `P` starts with a non-zero
byte, for RSA when the exponent and the modulus start with non-zero bytes and the exponent
length takes one byte exactly for an exponent shorter than 256 bytes.  Any other field comes
back different, or not at all. -/
theorem DnsKey.encode_toPublicKey_iff_canonical {k : DnsKey} {a : Algorithm} {pk : PublicKey}
    (halg : k.algorithm = a.number) (h : k.toPublicKey = .ok pk) :
    pk.encode a.number = .ok k.publicKey ↔ PublicKey.CanonicalField a.family k.publicKey := by
  -- the DNSKEY was decoded by `a`'s family, to a key of that family
  obtain ⟨a', ha', hdecode⟩ := DnsKey.toPublicKey_eq_ok.1 h
  rw [halg, Algorithm.ofNumber?_number, Option.some.injEq] at ha'
  subst ha'
  have hfam := PublicKey.family_decode hdecode
  rw [PublicKey.encode_number, if_pos hfam.symm, ← PublicKey.field?_eq_iff_canonical hdecode]
  cases pk.field? <;> simp


/-- A short RSA exponent behind the three-byte length form decodes, but the key is written back
with the one-byte form: the field is not canonical. -/
theorem DnsKey.encode_toPublicKey_long_form :
    DnsKey.toPublicKey ⟨Name.root, 256, 3, 8, [0, 0, 1, 3, 0xc5]⟩ = .ok (.rsa 0xc5 3) ∧
      (PublicKey.rsa 0xc5 3).encode 8 = .ok [1, 3, 0xc5] ∧
      ¬ PublicKey.CanonicalField .rsa [0, 0, 1, 3, 0xc5] := by
  have hdec : DnsKey.toPublicKey ⟨Name.root, 256, 3, 8, [0, 0, 1, 3, 0xc5]⟩ =
      .ok (.rsa 0xc5 3) := by decide +kernel
  have henc : (PublicKey.rsa 0xc5 3).encode 8 = .ok [1, 3, 0xc5] := by decide +kernel
  refine ⟨hdec, henc, fun hc => ?_⟩
  have hsame : (PublicKey.rsa 0xc5 3).encode 8 = .ok [0, 0, 1, 3, 0xc5] :=
    (DnsKey.encode_toPublicKey_iff_canonical (a := .rsaSha256) rfl hdec).2 hc
  rw [henc] at hsame
  simp at hsame

end Dnssec
