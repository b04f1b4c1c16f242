/-!
# `Dnssec.Bytes` — byte strings and the big-endian reading of naturals

Everything on the DNS wire and every cryptographic value here is a string of octets.  A byte
string is a plain `List UInt8`: records, names and digests are built by concatenation, and the
laws about them are laws about `++`.

* `Bytes.be16`, `Bytes.be32`, `Bytes.be64` — fixed-width big-endian words, as the wire writes them.
* `Bytes.toNat` — big-endian bytes read as a natural (leading zero bytes do not count).
* `Nat.toBytesFixed w n` — the low `w` bytes of `n`, big-endian: left-padded with zeros when `n`
  is short, cut to its least significant bytes when it is long.
* `Nat.byteLen n` — the number of bytes of `n` without leading zeros (`0` for zero), and
  `Nat.toBytes n` — exactly those bytes, the minimal big-endian form.

The reading laws of these encoders are in `Dnssec.Proofs.BigEndian`.
-/

namespace Dnssec

/-- A string of octets. -/
abbrev Bytes := List UInt8

namespace Bytes

/-- Big-endian bytes read as a natural number. -/
def toNat (bytes : Bytes) : Nat :=
  bytes.foldl (fun acc b => acc * 256 + b.toNat) 0

/-- The two bytes of a 16-bit word, most significant first. -/
def be16 (w : UInt16) : Bytes :=
  [(w >>> 8).toUInt8, w.toUInt8]

/-- The four bytes of a 32-bit word, most significant first. -/
def be32 (w : UInt32) : Bytes :=
  [(w >>> 24).toUInt8, (w >>> 16).toUInt8, (w >>> 8).toUInt8, w.toUInt8]

/-- The eight bytes of a 64-bit word, most significant first. -/
def be64 (w : UInt64) : Bytes :=
  [(w >>> 56).toUInt8, (w >>> 48).toUInt8, (w >>> 40).toUInt8, (w >>> 32).toUInt8,
   (w >>> 24).toUInt8, (w >>> 16).toUInt8, (w >>> 8).toUInt8, w.toUInt8]

/-- The byte at position `i`, or zero past the end. -/
def byteAt (bytes : Bytes) (i : Nat) : UInt8 :=
  bytes.getD i 0

/-- The big-endian 16-bit word at positions `i` and `i + 1` (zero past the end). -/
def word16At (bytes : Bytes) (i : Nat) : UInt16 :=
  ((bytes.byteAt i).toUInt16 <<< 8) ||| (bytes.byteAt (i + 1)).toUInt16

/-- Drops the leading zero bytes. -/
def stripZeros : Bytes → Bytes
  | [] => []
  | b :: rest => if b = 0 then stripZeros rest else b :: rest

@[simp] theorem length_be16 (w : UInt16) : (be16 w).length = 2 := rfl

@[simp] theorem length_be32 (w : UInt32) : (be32 w).length = 4 := rfl

theorem toNat_append_single (bytes : Bytes) (b : UInt8) :
    toNat (bytes ++ [b]) = toNat bytes * 256 + b.toNat := by
  simp [toNat, List.foldl_append]

end Bytes

/-- The low `w` bytes of `n`, big-endian. -/
def Nat.toBytesFixed : Nat → Nat → Bytes
  | 0, _ => []
  | w + 1, n => Nat.toBytesFixed w (n / 256) ++ [UInt8.ofNat (n % 256)]

/-- The number of bytes of `n` in big-endian form without leading zeros. -/
def Nat.byteLen (n : Nat) : Nat :=
  if n = 0 then 0 else Nat.byteLen (n / 256) + 1
termination_by n
decreasing_by omega

/-- The minimal big-endian bytes of `n`; zero has none. -/
def Nat.toBytes (n : Nat) : Bytes :=
  Nat.toBytesFixed (Nat.byteLen n) n

@[simp] theorem Nat.length_toBytesFixed (w n : Nat) : (Nat.toBytesFixed w n).length = w := by
  induction w generalizing n with
  | zero => rfl
  | succ w ih => simp [Nat.toBytesFixed, ih]

@[simp] theorem Nat.length_toBytes (n : Nat) : (Nat.toBytes n).length = Nat.byteLen n := by
  simp [Nat.toBytes]

end Dnssec
