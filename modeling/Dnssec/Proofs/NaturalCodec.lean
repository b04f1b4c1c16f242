import Mathlib.Data.Nat.Digits.Defs
import Dnssec.Arith.Modular
import Dnssec.Proofs.KeyCodec
/-!
# `Dnssec.Proofs.NaturalCodec` — unsigned integers as big-endian bytes

Key and signature fields carry unsigned integers as big-endian bytes with no sign byte. A value
is written in its minimal form (`Nat.toBytes`, zero as no bytes at all) or at a field's fixed
width (`Nat.toBytesFixed`), and read back by `Bytes.toNat`. This module says what these are in
terms a reader can check against the base-256 numeral system, and collects their laws.

* `Nat.byteLen_eq_bitLen` — the minimal form takes `⌈bits / 8⌉` bytes: the binary digits of the
  value rounded up to whole bytes;
* `Bytes.toNat_eq_ofDigits`, `Nat.toBytes_eq_digits` — reading is the base-256 numeral with the
  most significant digit first, and the minimal form is exactly the base-256 digits of the value;
* `Nat.toBytesFixed_eq_cut_or_pad` — the fixed-width form is the minimal form cut to its last
  `w` bytes when it has at least `w`, and the minimal form behind zeros otherwise;
* `Nat.bigEndian_codec` — the laws of the codec together: the minimal form has no leading zero,
  its length, and reading it back; the minimal form of read bytes is the bytes without their
  leading zeros; the fixed-width form keeps the value modulo `256 ^ w`.

Bytes of one length are told apart by their value (`Bytes.eq_of_toNat_eq`), so each equation
between byte strings here is proved by comparing lengths and values.
-/

namespace Dnssec

/-! ## Reading bytes -/

theorem Bytes.eq_of_toNat_eq {a b : Bytes} (hlen : a.length = b.length)
    (h : Bytes.toNat a = Bytes.toNat b) : a = b := by
  rw [← Nat.toBytesFixed_toNat a, ← Nat.toBytesFixed_toNat b, hlen, h]

theorem Bytes.toNat_replicate_zero (k : Nat) : Bytes.toNat (List.replicate k 0) = 0 := by
  induction k with
  | zero => rfl
  | succ k ih => rw [List.replicate_succ, Bytes.toNat_cons_zero, ih]

theorem Bytes.toNat_replicate_zero_append (k : Nat) (b : Bytes) :
    Bytes.toNat (List.replicate k 0 ++ b) = Bytes.toNat b := by
  rw [Bytes.toNat_append, Bytes.toNat_replicate_zero, Nat.zero_mul, Nat.zero_add]

theorem Bytes.toNat_drop (i : Nat) (b : Bytes) :
    Bytes.toNat (b.drop i) = Bytes.toNat b % 256 ^ (b.length - i) := by
  have hsplit := Bytes.toNat_append (b.take i) (b.drop i)
  rw [List.take_append_drop, List.length_drop] at hsplit
  have hlt := Bytes.toNat_lt (b.drop i)
  rw [List.length_drop] at hlt
  rw [hsplit, Nat.mul_add_mod_of_lt hlt]

/-- Reading bytes is evaluating the base-256 numeral whose least significant digit comes last. -/
theorem Bytes.toNat_eq_ofDigits (b : Bytes) :
    Bytes.toNat b = Nat.ofDigits 256 (b.reverse.map UInt8.toNat) := by
  induction b using List.reverseRec with
  | nil => rfl
  | append_singleton b x ih =>
    rw [Bytes.toNat_append_single, ih, List.reverse_append, List.reverse_singleton,
      List.singleton_append, List.map_cons, Nat.ofDigits_cons]
    omega

/-! ## The minimal form -/

theorem Nat.head?_toBytes (n : Nat) : (Nat.toBytes n).head? ≠ some 0 := by
  -- the minimal form is the minimal form of its own value, which has its zeros stripped
  have hfix := Nat.toBytes_toNat (Nat.toBytes n)
  rw [Nat.toNat_toBytes] at hfix
  rw [hfix]
  exact Bytes.head?_stripZeros _

/-- The minimal form takes as many bytes as the value has binary digits, rounded up to whole
bytes. -/
theorem Nat.byteLen_eq_bitLen (n : Nat) : Nat.byteLen n = (Nat.bitLen n + 7) / 8 := by
  rcases Nat.eq_zero_or_pos n with rfl | hn
  · simp [Nat.byteLen_eq_zero, Nat.bitLen]
  · have hne : n ≠ 0 := Nat.pos_iff_ne_zero.1 hn
    have hpos : 0 < Nat.byteLen n := Nat.pos_of_ne_zero (mt Nat.byteLen_eq_zero.1 hne)
    -- `256 ^ (byteLen n - 1) ≤ n < 256 ^ byteLen n` read in powers of two
    have hlo : 8 * (Nat.byteLen n - 1) ≤ n.log2 := by
      rw [Nat.le_log2 hne, Nat.pow_mul]
      exact Nat.pow_byteLen_le hn
    have hhi : n.log2 < 8 * Nat.byteLen n := by
      rw [Nat.log2_lt hne, Nat.pow_mul]
      exact Nat.lt_pow_byteLen n
    rw [Nat.bitLen, if_neg hne]
    omega

/-- The minimal form is the base-256 digits of the value, most significant first; zero has no
digits. -/
theorem Nat.toBytes_eq_digits (n : Nat) :
    (Nat.toBytes n).map UInt8.toNat = (Nat.digits 256 n).reverse := by
  have hdigits : Nat.digits 256 n = (Nat.toBytes n).reverse.map UInt8.toNat := by
    conv_lhs => rw [← Nat.toNat_toBytes n, Bytes.toNat_eq_ofDigits]
    apply Nat.digits_ofDigits 256 (by omega)
    · intro d hd
      obtain ⟨x, -, rfl⟩ := List.mem_map.1 hd
      exact x.toNat_lt
    · -- the last digit is the first byte, which is not zero
      intro hne hzero
      have hcons : Nat.toBytes n ≠ [] := by simpa using hne
      rw [List.getLast_map, List.getLast_reverse] at hzero
      have hhead : (Nat.toBytes n).head hcons = 0 := UInt8.toNat_inj.1 hzero
      apply Nat.head?_toBytes n
      rw [List.head?_eq_some_head hcons, hhead]
  rw [hdigits, List.map_reverse, List.reverse_reverse]

/-! ## The fixed-width form -/

/-- The fixed-width form is the minimal form cut to its last `w` bytes when it is at least `w`
long, and the minimal form left-padded with zeros to `w` bytes otherwise. -/
theorem Nat.toBytesFixed_eq_cut_or_pad (w n : Nat) :
    Nat.toBytesFixed w n =
      if w ≤ (Nat.toBytes n).length then (Nat.toBytes n).drop ((Nat.toBytes n).length - w)
      else List.replicate (w - (Nat.toBytes n).length) 0 ++ Nat.toBytes n := by
  rw [Nat.length_toBytes]
  split
  case isTrue hcut =>
    apply Bytes.eq_of_toNat_eq
    · simp only [Nat.length_toBytesFixed, List.length_drop, Nat.length_toBytes]
      omega
    · rw [Nat.toNat_toBytesFixed, Bytes.toNat_drop, Nat.toNat_toBytes, Nat.length_toBytes,
        Nat.sub_sub_self hcut]
  case isFalse hpad =>
    apply Bytes.eq_of_toNat_eq
    · simp only [Nat.length_toBytesFixed, List.length_append, List.length_replicate,
        Nat.length_toBytes]
      omega
    · rw [Bytes.toNat_replicate_zero_append, Nat.toNat_toBytes]
      exact Nat.toNat_toBytesFixed_of_byteLen_le (by omega)

/-! ## The codec as a whole -/

/-- The laws of the big-endian codec of unsigned integers: the minimal form of a value has no
leading zero byte, `⌈bits / 8⌉` bytes, and reads back as the value; the minimal form of the value
of any bytes is those bytes without their leading zeros; the form at any width `w` has `w` bytes
and reads back as the value modulo `256 ^ w`. -/
theorem Nat.bigEndian_codec :
    (∀ v : Nat, (Nat.toBytes v).head? ≠ some 0 ∧ (Nat.toBytes v).length = Nat.byteLen v ∧
      Nat.byteLen v = (Nat.bitLen v + 7) / 8 ∧ Bytes.toNat (Nat.toBytes v) = v) ∧
    (∀ b : Bytes, Nat.toBytes (Bytes.toNat b) = Bytes.stripZeros b) ∧
    (∀ v w : Nat, (Nat.toBytesFixed w v).length = w ∧
      Bytes.toNat (Nat.toBytesFixed w v) = v % 256 ^ w) :=
  ⟨fun v => ⟨Nat.head?_toBytes v, Nat.length_toBytes v, Nat.byteLen_eq_bitLen v,
      Nat.toNat_toBytes v⟩,
    Nat.toBytes_toNat,
    fun v w => ⟨Nat.length_toBytesFixed w v, Nat.toNat_toBytesFixed w v⟩⟩

end Dnssec
