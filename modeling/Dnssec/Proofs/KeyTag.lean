import Mathlib.Algebra.GroupWithZero.Nat
import Dnssec.Proofs.KeyCodec
/-!
# `Dnssec.Proofs.KeyTag` — the key tag is the checksum of RFC 4034 Appendix B

RFC 4034 Appendix B sums the DNSKEY RDATA (flags, protocol, algorithm, key) byte by byte, a
byte at an even offset as a high byte and one at an odd offset as a low byte, and folds the
carry above 16 bits back in once.  `DnsKey.keyTag` does not walk the RDATA: it starts from the
flags, adds the protocol shifted into the high byte and then the algorithm, and walks the key
alone, counting positions from the key's first byte, all in 32-bit words.

* `DnsKey.toNat_tagSum` — for RDATA that fits an RDLENGTH, the 32-bit sum is the checksum of the
  RDATA exactly.  The four fixed bytes put the key at an even offset, so its positions have the
  parity of its RDATA offsets (`sum_tagWeight_zipIdx_add_two`), and no sum of at most 65535
  weights of at most 65280 reaches `2 ^ 32`, so no addition wraps (`toNat_foldl_tagStep`);
* `DnsKey.keyTag_checksum` — hence the key tag of RFC 4034 Appendix B, and for RSA/MD5 the two
  bytes before the last of the key, which are those of the modulus divided by 256
  (`Bytes.toNat_word16At_tail`).
-/

namespace Dnssec

/-- The weight of a byte at offset `i` in RFC 4034 Appendix B: a high byte at an even offset, a
low byte at an odd one. -/
def tagWeight (b : UInt8) (i : Nat) : Nat :=
  if i % 2 = 0 then b.toNat * 256 else b.toNat

/-- RFC 4034 Appendix B's sum over RDATA, before the carry is folded in. -/
def rdataChecksum (rdata : Bytes) : Nat :=
  (rdata.zipIdx.map fun p => tagWeight p.1 p.2).sum

theorem tagWeight_le (b : UInt8) (i : Nat) : tagWeight b i ≤ 65280 := by
  have := b.toNat_lt
  unfold tagWeight
  split <;> omega

theorem UInt8.toNat_toUInt32_shiftLeft_eight (b : UInt8) :
    (b.toUInt32 <<< 8).toNat = b.toNat * 256 := by
  have hb := b.toNat_lt
  have h8 : (8 : UInt32).toNat % 32 = 8 := rfl
  rw [UInt32.toNat_shiftLeft, h8, UInt8.toNat_toUInt32, Nat.shiftLeft_eq,
    Nat.mod_eq_of_lt (by omega)]

theorem toNat_tagStep (b : UInt8) (i : Nat) :
    (if i % 2 = 0 then b.toUInt32 <<< 8 else b.toUInt32).toNat = tagWeight b i := by
  unfold tagWeight
  split
  · exact UInt8.toNat_toUInt32_shiftLeft_eight b
  · exact UInt8.toNat_toUInt32 b

theorem sum_tagWeight_le (l : Bytes) (n : Nat) :
    ((l.zipIdx n).map fun p => tagWeight p.1 p.2).sum ≤ 65280 * l.length := by
  induction l generalizing n with
  | nil => simp
  | cons b l ih =>
    have := tagWeight_le b n
    have := ih (n + 1)
    simp only [List.zipIdx_cons, List.map_cons, List.sum_cons, List.length_cons]
    omega

/-- Weights depend on the parity of the offset only. -/
theorem sum_tagWeight_zipIdx_add_two (l : Bytes) (n : Nat) :
    ((l.zipIdx (n + 2)).map fun p => tagWeight p.1 p.2).sum =
      ((l.zipIdx n).map fun p => tagWeight p.1 p.2).sum := by
  induction l generalizing n with
  | nil => rfl
  | cons b l ih =>
    have hweight : tagWeight b (n + 2) = tagWeight b n := by
      simp only [tagWeight, Nat.add_mod_right]
    simp only [List.zipIdx_cons, List.map_cons, List.sum_cons]
    rw [hweight, Nat.add_right_comm n 2 1, ih (n + 1)]

/-- Summing in 32 bits gives the exact sum as long as that stays below `2 ^ 32`. -/
theorem toNat_foldl_tagStep (l : Bytes) (n : Nat) (acc : UInt32)
    (h : acc.toNat + ((l.zipIdx n).map fun p => tagWeight p.1 p.2).sum < 2 ^ 32) :
    ((l.zipIdx n).foldl (fun acc (b, i) =>
        acc + if i % 2 = 0 then b.toUInt32 <<< 8 else b.toUInt32) acc).toNat =
      acc.toNat + ((l.zipIdx n).map fun p => tagWeight p.1 p.2).sum := by
  induction l generalizing n acc with
  | nil => simp
  | cons b l ih =>
    simp only [List.zipIdx_cons, List.foldl_cons, List.map_cons, List.sum_cons] at h ⊢
    -- this byte's addition does not wrap, and neither do the later ones
    have hstep : (acc + if n % 2 = 0 then b.toUInt32 <<< 8 else b.toUInt32).toNat =
        acc.toNat + tagWeight b n := by
      rw [UInt32.toNat_add, toNat_tagStep, Nat.mod_eq_of_lt (by omega)]
    rw [ih (n + 1) _ (by rw [hstep]; omega), hstep]
    omega

namespace DnsKey

/-- The RDATA checksum is the fixed fields' part and the key's part, the key's offsets counted
from its first byte. -/
theorem rdataChecksum_rdata (k : DnsKey) :
    rdataChecksum k.rdata = k.flags.toNat + k.protocol.toNat * 256 + k.algorithm.toNat +
      ((k.publicKey.zipIdx.map fun p => tagWeight p.1 p.2).sum) := by
  obtain ⟨hi, lo, hbe⟩ : ∃ hi lo, Bytes.be16 k.flags = [hi, lo] := ⟨_, _, rfl⟩
  have hflags : hi.toNat * 256 + lo.toNat = k.flags.toNat := by
    have h16 := Bytes.toNat_be16 k.flags
    rw [hbe] at h16
    simpa [Bytes.toNat] using h16
  -- the key starts at offset 4, of even parity
  have hkey := sum_tagWeight_zipIdx_add_two k.publicKey 2
  rw [sum_tagWeight_zipIdx_add_two k.publicKey 0] at hkey
  have hhead : tagWeight hi 0 + (tagWeight lo 1 + (tagWeight k.protocol 2 +
      tagWeight k.algorithm 3)) = k.flags.toNat + k.protocol.toNat * 256 + k.algorithm.toNat := by
    simp only [tagWeight, Nat.reduceMod, if_true, Nat.one_ne_zero, if_false]
    omega
  simp only [rdataChecksum, rdata, hbe, List.cons_append, List.nil_append, List.zipIdx_cons,
    List.map_cons, List.sum_cons, Nat.reduceAdd]
  rw [hkey, ← hhead]
  omega

/-- An RDATA of at most 65535 bytes sums to less than `2 ^ 32`, the carry fold included. -/
theorem rdataChecksum_lt (k : DnsKey) (hlen : k.publicKey.length ≤ 65531) :
    rdataChecksum k.rdata + rdataChecksum k.rdata / 65536 < 2 ^ 32 := by
  have hsum := sum_tagWeight_le k.publicKey 0
  have hflags := k.flags.toNat_lt
  have hprotocol := k.protocol.toNat_lt
  have halgorithm := k.algorithm.toNat_lt
  rw [rdataChecksum_rdata]
  omega

/-- The 32-bit tag sum is the RDATA checksum exactly when the RDATA fits an RDLENGTH. -/
theorem toNat_tagSum (k : DnsKey) (hlen : k.publicKey.length ≤ 65531) :
    k.tagSum.toNat = rdataChecksum k.rdata := by
  have hbound := rdataChecksum_lt k hlen
  have hflags := k.flags.toNat_lt
  have hprotocol := k.protocol.toNat_lt
  have halgorithm := k.algorithm.toNat_lt
  -- the flags, protocol and algorithm start the sum without wrapping
  have hinit : (k.flags.toUInt32 + (k.protocol.toUInt32 <<< 8) + k.algorithm.toUInt32).toNat =
      k.flags.toNat + k.protocol.toNat * 256 + k.algorithm.toNat := by
    simp only [UInt32.toNat_add, UInt8.toNat_toUInt32_shiftLeft_eight, UInt16.toNat_toUInt32,
      UInt8.toNat_toUInt32]
    omega
  rw [rdataChecksum_rdata] at hbound ⊢
  rw [tagSum, toNat_foldl_tagStep _ _ _ (by rw [hinit]; omega), hinit]

/-- The key tag from the tag sum: the carry above 16 bits folded in once. -/
theorem toNat_keyTag_of_ne {k : DnsKey} (halg : k.algorithm ≠ 1)
    (hlen : k.publicKey.length ≤ 65531) :
    k.keyTag.toNat = (rdataChecksum k.rdata + ((rdataChecksum k.rdata >>> 16) &&& 0xffff)) &&&
      0xffff := by
  have hbound := rdataChecksum_lt k hlen
  have hsum := toNat_tagSum k hlen
  have hmask : ∀ x : Nat, x &&& 0xffff = x % 65536 := fun x =>
    Nat.and_two_pow_sub_one_eq_mod x 16
  have h16 : (16 : UInt32).toNat % 32 = 16 := rfl
  have hff : (0xffff : UInt32).toNat = 0xffff := rfl
  rw [keyTag, if_neg halg, UInt32.toNat_toUInt16, UInt32.toNat_add, UInt32.toNat_and,
    UInt32.toNat_shiftRight, h16, hff, hsum]
  simp only [hmask, Nat.shiftRight_eq_div_pow, Nat.reducePow]
  omega

end DnsKey

/-! ## RSA/MD5 -/

theorem Bytes.word16At_append_right (front back : Bytes) (i : Nat) :
    (front ++ back).word16At (front.length + i) = back.word16At i := by
  simp only [Bytes.word16At, Bytes.byteAt, List.getD_eq_getElem?_getD,
    List.getElem?_append_right (Nat.le_add_right _ _), Nat.add_sub_cancel_left,
    Nat.add_assoc]

theorem Bytes.toNat_word16At_tail {b : Bytes} (h : 3 ≤ b.length) :
    (b.word16At (b.length - 3)).toNat = Bytes.toNat b / 256 % 65536 := by
  -- cut off the last three bytes
  have hdrop : (b.drop (b.length - 3)).length = 3 := by
    rw [List.length_drop]
    omega
  obtain ⟨x, y, z, hxyz⟩ : ∃ x y z, b.drop (b.length - 3) = [x, y, z] := by
    match b.drop (b.length - 3), hdrop with
    | [x, y, z], _ => exact ⟨x, y, z, rfl⟩
  have hb : b = b.take (b.length - 3) ++ [x, y, z] := by
    rw [← hxyz, List.take_append_drop]
  generalize b.take (b.length - 3) = front at hb
  subst hb
  have hlen : (front ++ [x, y, z]).length - 3 = front.length := by simp
  have hx := x.toNat_lt
  have hy := y.toNat_lt
  have hz := z.toNat_lt
  rw [hlen, Bytes.word16At_append, Bytes.toNat_word16, Bytes.toNat_append]
  simp only [Bytes.toNat, List.foldl_cons, List.foldl_nil, List.length_cons, List.length_nil]
  omega

namespace DnsKey

theorem toNat_keyTag_rsaMd5 {k : DnsKey} (halg : k.algorithm = 1) :
    k.keyTag.toNat = if k.publicKey.length < 3 then 0
      else (k.publicKey.getD (k.publicKey.length - 3) 0).toNat * 256 +
        (k.publicKey.getD (k.publicKey.length - 2) 0).toNat := by
  rw [keyTag, if_pos halg]
  dsimp only
  split
  · rfl
  · rw [Bytes.word16At, Bytes.toNat_word16, Bytes.byteAt, Bytes.byteAt]
    congr 3
    omega

/-- For an RSA/MD5 key whose modulus field has at least three bytes, the key tag is the
modulus divided by 256, modulo `2 ^ 16`: the modulus is the end of the key field. -/
theorem toNat_keyTag_modulus {k : DnsKey} (halg : k.algorithm = 1) {m e : Nat}
    (hkey : k.toPublicKey = .ok (.rsa m e))
    (hmod : 3 ≤ (k.publicKey.drop ((PublicKey.rsaExponentSpan k.publicKey).1 +
      (PublicKey.rsaExponentSpan k.publicKey).2)).length) :
    k.keyTag.toNat = m / 256 % 65536 := by
  -- algorithm 1 is RSA/MD5, whose keys are read as RSA fields
  obtain ⟨a, ha, hdecode⟩ := toPublicKey_eq_ok.1 hkey
  have hmd5 : Algorithm.ofNumber? 1 = some .rsaMd5 := by decide
  rw [halg, hmd5, Option.some.injEq] at ha
  subst ha
  obtain ⟨head, E, M, hfield, hE, -, hpk, hhead⟩ := PublicKey.decodeRsa_eq_some hdecode
  cases hpk
  -- the modulus field is `M`, the end of the key field
  have hM : k.publicKey.drop ((PublicKey.rsaExponentSpan k.publicKey).1 +
      (PublicKey.rsaExponentSpan k.publicKey).2) = M := by
    rw [hfield, PublicKey.rsaExponentSpan_eq M hE hhead]
    exact List.drop_left' (List.length_append ..)
  rw [hM] at hmod
  have hlong : ¬ k.publicKey.length < 3 := by
    rw [hfield, List.length_append]
    omega
  have hpos : k.publicKey.length - 3 = (head ++ E).length + (M.length - 3) := by
    rw [hfield, List.length_append]
    omega
  rw [keyTag, if_pos halg]
  dsimp only
  rw [if_neg hlong, hpos, hfield, Bytes.word16At_append_right, Bytes.toNat_word16At_tail hmod]

/-- The key tag of RFC 4034 Appendix B.  For a key of any algorithm but RSA/MD5 whose RDATA fits
an RDLENGTH, the 32-bit sum the tag is computed in never wraps: it is exactly the RDATA checksum,
the sum of the RDATA bytes with those at even offsets as high bytes, folding its carry in stays
below `2 ^ 32`, and the tag is the folded sum cut to 16 bits.  An RSA/MD5 tag is the two bytes
before the last of the key field (zero for a shorter field), which are those of the modulus
divided by 256 whenever the modulus field has at least three bytes. -/
theorem keyTag_checksum (k : DnsKey) :
    (k.algorithm ≠ 1 → k.publicKey.length ≤ 65531 →
      k.tagSum.toNat = rdataChecksum k.rdata ∧
      rdataChecksum k.rdata + ((rdataChecksum k.rdata >>> 16) &&& 0xffff) < 2 ^ 32 ∧
      k.keyTag.toNat =
        (rdataChecksum k.rdata + ((rdataChecksum k.rdata >>> 16) &&& 0xffff)) &&& 0xffff) ∧
    (k.algorithm = 1 →
      k.keyTag.toNat = (if k.publicKey.length < 3 then 0
        else (k.publicKey.getD (k.publicKey.length - 3) 0).toNat * 256 +
          (k.publicKey.getD (k.publicKey.length - 2) 0).toNat) ∧
      ∀ m e, k.toPublicKey = .ok (.rsa m e) →
        3 ≤ (k.publicKey.drop ((PublicKey.rsaExponentSpan k.publicKey).1 +
          (PublicKey.rsaExponentSpan k.publicKey).2)).length →
        k.keyTag.toNat = m / 256 % 65536) := by
  refine ⟨fun halg hlen => ⟨toNat_tagSum k hlen, ?_, toNat_keyTag_of_ne halg hlen⟩,
    fun halg => ⟨toNat_keyTag_rsaMd5 halg,
      fun m e hkey hmod => toNat_keyTag_modulus halg hkey hmod⟩⟩
  -- the carry is at most the sum divided by `2 ^ 16`
  have hbound := rdataChecksum_lt k hlen
  have hcarry : (rdataChecksum k.rdata >>> 16) &&& 0xffff ≤ rdataChecksum k.rdata / 65536 := by
    rw [Nat.shiftRight_eq_div_pow, Nat.and_two_pow_sub_one_eq_mod _ 16]
    exact Nat.mod_le _ _
  omega

/-- The RSA/MD5 key of the tests takes its tag from its modulus, `0xaabb123456 / 256`; an
RSA/SHA-256 key takes the RDATA checksum. -/
theorem keyTag_checksum_rsaMd5 :
    (DnsKey.keyTag ⟨Name.root, 256, 3, 1, [3, 1, 0, 1, 0xaa, 0xbb, 0x12, 0x34, 0x56]⟩).toNat =
        0xaabb123456 / 256 % 65536 ∧
      (DnsKey.keyTag ⟨Name.root, 257, 3, 8, [1, 3, 0xc5]⟩).toNat =
        (rdataChecksum [1, 1, 3, 8, 1, 3, 0xc5] +
          ((rdataChecksum [1, 1, 3, 8, 1, 3, 0xc5] >>> 16) &&& 0xffff)) &&& 0xffff := by
  have hkey : DnsKey.toPublicKey
      ⟨Name.root, 256, 3, 1, [3, 1, 0, 1, 0xaa, 0xbb, 0x12, 0x34, 0x56]⟩ =
        .ok (.rsa 0xaabb123456 0x010001) := by
    decide +kernel
  refine ⟨((keyTag_checksum _).2 rfl).2 _ _ hkey (by decide +kernel), ?_⟩
  exact ((keyTag_checksum ⟨Name.root, 257, 3, 8, [1, 3, 0xc5]⟩).1 (by decide +kernel)
    (by decide +kernel)).2.2

end DnsKey

end Dnssec
