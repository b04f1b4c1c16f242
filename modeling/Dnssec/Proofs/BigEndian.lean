import Mathlib.Algebra.Group.Nat.Defs
import Mathlib.Data.List.Induction
import Dnssec.Bytes
/-!
# `Dnssec.Proofs.BigEndian` — the big-endian encoders read back

`Bytes.toNat` undoes the encoders of `Dnssec.Bytes`:

* `Nat.toNat_toBytesFixed` — the fixed-width form keeps `n` modulo `256 ^ w`, so a value that
  fits is read back unchanged and a longer one loses its high bytes;
* `Nat.lt_pow_byteLen` — `byteLen n` bytes are enough for `n`;
* `Nat.toNat_toBytes` — the minimal form reads back as the number itself;
* `Nat.toBytesFixed_toNat` — the other way round: bytes written back at their own width are
  themselves, leading zeros included;
* `Bytes.toNat_be16`, `Bytes.toNat_be32` — the wire words read back as their values, so the
  words are injective (`Bytes.be16_inj`, `Bytes.be32_inj`);
* `Bytes.word16At_be16`, `Bytes.be16_word16` — `Bytes.word16At` reads back the word `be16`
  wrote, and `be16` writes back the two bytes it read.

The width step is one appended byte (`Bytes.toNat_append_single`), so each law is one induction
on the width, or on the bytes from the right.
-/

namespace Dnssec

/-- `toBytesFixed` keeps `n` modulo `256 ^ w`. -/
theorem Nat.toNat_toBytesFixed (w n : Nat) :
    Bytes.toNat (Nat.toBytesFixed w n) = n % 256 ^ w := by
  induction w generalizing n with
  | zero => simp [Nat.toBytesFixed, Bytes.toNat, Nat.mod_one]
  | succ w ih =>
    have byte : (UInt8.ofNat (n % 256)).toNat = n % 256 := by simp
    rw [Nat.toBytesFixed, Bytes.toNat_append_single, ih, byte]
    rw [Nat.pow_succ, Nat.mul_comm (256 ^ w) 256, Nat.mod_mul]
    omega

/-- `byteLen n` bytes hold `n`. -/
theorem Nat.lt_pow_byteLen (n : Nat) : n < 256 ^ Nat.byteLen n := by
  induction n using Nat.strongRecOn with
  | ind n ih =>
    rw [Nat.byteLen]
    split
    · simp_all
    · have h := ih (n / 256) (by omega)
      rw [Nat.pow_succ]
      omega

theorem Nat.toNat_toBytesFixed_of_byteLen_le {w n : Nat} (h : Nat.byteLen n ≤ w) :
    Bytes.toNat (Nat.toBytesFixed w n) = n := by
  rw [Nat.toNat_toBytesFixed, Nat.mod_eq_of_lt]
  calc n < 256 ^ Nat.byteLen n := Nat.lt_pow_byteLen n
    _ ≤ 256 ^ w := Nat.pow_le_pow_right (by omega) h

/-- The minimal encoding reads back as the number itself. -/
theorem Nat.toNat_toBytes (n : Nat) : Bytes.toNat (Nat.toBytes n) = n := by
  rw [Nat.toBytes, Nat.toNat_toBytesFixed, Nat.mod_eq_of_lt (Nat.lt_pow_byteLen n)]

theorem Bytes.toNat_lt (bytes : Bytes) : Bytes.toNat bytes < 256 ^ bytes.length := by
  induction bytes using List.reverseRec with
  | nil => simp [Bytes.toNat]
  | append_singleton bytes b ih =>
    have hb : b.toNat < 256 := b.toNat_lt
    rw [Bytes.toNat_append_single, List.length_append, List.length_singleton, Nat.pow_succ]
    omega

/-- The bytes in front count `256 ^ n` times, `n` being the length of the rest. -/
theorem Bytes.toNat_append (front back : Bytes) :
    Bytes.toNat (front ++ back) = Bytes.toNat front * 256 ^ back.length + Bytes.toNat back := by
  induction back using List.reverseRec with
  | nil => simp [Bytes.toNat]
  | append_singleton back b ih =>
    rw [← List.append_assoc, Bytes.toNat_append_single, Bytes.toNat_append_single, ih,
      List.length_append, List.length_singleton, Nat.pow_succ, Nat.add_mul, Nat.mul_assoc,
      Nat.add_assoc]

/-- Bytes written back at their own width are themselves, leading zeros included. -/
theorem Nat.toBytesFixed_toNat (bytes : Bytes) :
    Nat.toBytesFixed bytes.length (Bytes.toNat bytes) = bytes := by
  induction bytes using List.reverseRec with
  | nil => rfl
  | append_singleton bytes b ih =>
    have hb : b.toNat < 256 := b.toNat_lt
    have hdiv : (Bytes.toNat bytes * 256 + b.toNat) / 256 = Bytes.toNat bytes := by omega
    have hmod : (Bytes.toNat bytes * 256 + b.toNat) % 256 = b.toNat := by omega
    rw [List.length_append, List.length_singleton, Nat.toBytesFixed, Bytes.toNat_append_single,
      hdiv, hmod, ih, UInt8.ofNat_toNat]

/-- A positive number needs all of its `byteLen` bytes: it is at least `256 ^ (byteLen n - 1)`. -/
theorem Nat.pow_byteLen_le {n : Nat} (hn : 0 < n) : 256 ^ (Nat.byteLen n - 1) ≤ n := by
  induction n using Nat.strongRecOn with
  | ind n ih =>
    rw [Nat.byteLen, if_neg (by omega), Nat.add_sub_cancel]
    by_cases h : n / 256 = 0
    · rw [h, Nat.byteLen, if_pos rfl, Nat.pow_zero]
      omega
    · have hle := ih (n / 256) (by omega) (by omega)
      have hpos : 0 < Nat.byteLen (n / 256) := by
        rw [Nat.byteLen, if_neg h]
        omega
      have hpow : 256 ^ Nat.byteLen (n / 256) = 256 ^ (Nat.byteLen (n / 256) - 1) * 256 := by
        rw [← Nat.pow_succ, Nat.succ_eq_add_one, Nat.sub_add_cancel hpos]
      omega

@[simp] theorem Bytes.toNat_be16 (w : UInt16) : Bytes.toNat (Bytes.be16 w) = w.toNat := by
  have hw := w.toNat_lt
  simp [Bytes.be16, Bytes.toNat, UInt16.toNat_shiftRight, Nat.shiftRight_eq_div_pow]
  omega

@[simp] theorem Bytes.toNat_be32 (w : UInt32) : Bytes.toNat (Bytes.be32 w) = w.toNat := by
  have hw := w.toNat_lt
  simp [Bytes.be32, Bytes.toNat, UInt32.toNat_shiftRight, Nat.shiftRight_eq_div_pow]
  omega

theorem Nat.toNat_toUInt8_of_lt {n : Nat} (h : n < 256) : n.toUInt8.toNat = n := by
  rw [Nat.toUInt8_eq, UInt8.toNat_ofNat_of_lt' h]

theorem Nat.toUInt8_ne_zero {n : Nat} (hpos : 0 < n) (h : n < 256) : n.toUInt8 ≠ 0 := by
  intro h0
  have hval := congrArg UInt8.toNat h0
  rw [Nat.toNat_toUInt8_of_lt h] at hval
  have hzero : (0 : UInt8).toNat = 0 := rfl
  omega

theorem Bytes.toNat_cons_zero (rest : Bytes) : Bytes.toNat (0 :: rest) = Bytes.toNat rest := by
  simp [Bytes.toNat]

theorem Bytes.be16_inj {v w : UInt16} (h : Bytes.be16 v = Bytes.be16 w) : v = w := by
  apply UInt16.toNat_inj.1
  rw [← Bytes.toNat_be16 v, h, Bytes.toNat_be16]

theorem Bytes.be32_inj {v w : UInt32} (h : Bytes.be32 v = Bytes.be32 w) : v = w := by
  apply UInt32.toNat_inj.1
  rw [← Bytes.toNat_be32 v, h, Bytes.toNat_be32]

theorem Bytes.toNat_word16 (x y : UInt8) :
    ((x.toUInt16 <<< 8) ||| y.toUInt16).toNat = x.toNat * 256 + y.toNat := by
  have hx := x.toNat_lt
  have hy := y.toNat_lt
  simp only [UInt16.toNat_or, UInt16.toNat_shiftLeft, UInt8.toNat_toUInt16]
  have h8 : (8 : UInt16).toNat % 16 = 8 := rfl
  have hshift : x.toNat <<< 8 = x.toNat * 256 := by rw [Nat.shiftLeft_eq]
  rw [h8, hshift, Nat.mod_eq_of_lt (by omega), ← hshift,
    ← Nat.shiftLeft_add_eq_or_of_lt (by simpa using hy), hshift]

theorem Bytes.be16_word16 (x y : UInt8) :
    Bytes.be16 ((x.toUInt16 <<< 8) ||| y.toUInt16) = [x, y] := by
  have hw := Bytes.toNat_word16 x y
  have hx := x.toNat_lt
  have hy := y.toNat_lt
  simp only [Bytes.be16, List.cons.injEq, and_true]
  constructor
  · apply UInt8.toNat_inj.1
    have h8 : (8 : UInt16).toNat % 16 = 8 := rfl
    rw [UInt16.toNat_toUInt8, UInt16.toNat_shiftRight, hw, h8, Nat.shiftRight_eq_div_pow]
    omega
  · apply UInt8.toNat_inj.1
    rw [UInt16.toNat_toUInt8, hw]
    omega

theorem Bytes.word16At_append (pre : Bytes) (x y : UInt8) (rest : Bytes) :
    (pre ++ x :: y :: rest).word16At pre.length = (x.toUInt16 <<< 8) ||| y.toUInt16 := by
  simp [Bytes.word16At, Bytes.byteAt]

/-- A word written at a position is read back there. -/
theorem Bytes.word16At_be16 (pre : Bytes) (v : UInt16) (rest : Bytes) :
    (pre ++ Bytes.be16 v ++ rest).word16At pre.length = v := by
  obtain ⟨x, y, hxy⟩ : ∃ x y, Bytes.be16 v = [x, y] := ⟨_, _, rfl⟩
  have hv := Bytes.toNat_be16 v
  rw [hxy] at hv ⊢
  rw [List.append_assoc, List.cons_append, List.cons_append, List.nil_append,
    Bytes.word16At_append]
  apply UInt16.toNat_inj.1
  rw [Bytes.toNat_word16, ← hv]
  simp [Bytes.toNat]

end Dnssec
