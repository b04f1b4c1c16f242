import Dnssec.Bytes

/-!
# `Dnssec.Hash.Block` — blocks, padding and words for iterated hash functions

MD5, SHA-1 and the SHA-2 family all read their input in fixed-size blocks after the same
padding: a single `0x80` byte, zeros, and the message length in bits in the last bytes of the
final block.  MD5 writes that length and its words least significant byte first, the SHA family
most significant byte first.

* `Bytes.chunks n bs` — consecutive pieces of `n` bytes.
* `mdPad` — the padded message, a whole number of blocks long.
* `wordsBE32`, `wordsLE32`, `wordsBE64` — a block read as machine words, and their inverses
  `UInt32.bytesBE`, `UInt32.bytesLE`, `UInt64.bytesBE`.
-/

namespace Dnssec

/-- Splits a byte string into consecutive pieces of `n` bytes; only the last may be shorter.
A width of zero gives no pieces. -/
def Bytes.chunks (n : Nat) (bs : Bytes) : List Bytes :=
  if _ : n = 0 then []
  else
    match bs with
    | [] => []
    | b :: rest => (b :: rest).take n :: Bytes.chunks n ((b :: rest).drop n)
termination_by bs.length
decreasing_by simp only [List.length_drop, List.length_cons]; omega

namespace Hash

/-- The number of zero bytes that bring a message of `len` bytes, after its `0x80` marker and
a length field of `lenLen` bytes, to a multiple of `blockLen`. -/
def zeroPad (blockLen lenLen len : Nat) : Nat :=
  (2 * blockLen - len % blockLen - 1 - lenLen) % blockLen

/-- Merkle–Damgård padding: the message, `0x80`, zeros, and the bit length in `lenLen` bytes,
most significant first when `bigEndian` holds and least significant first otherwise. -/
def mdPad (blockLen lenLen : Nat) (bigEndian : Bool) (msg : Bytes) : Bytes :=
  let bits := Nat.toBytesFixed lenLen (8 * msg.length)
  msg ++ [0x80] ++ List.replicate (zeroPad blockLen lenLen msg.length) 0 ++
    (if bigEndian then bits else bits.reverse)

/-- A block read as 32-bit words, most significant byte first. -/
def wordsBE32 : Bytes → List UInt32
  | a :: b :: c :: d :: rest =>
    ((a.toUInt32 <<< 24) ||| (b.toUInt32 <<< 16) ||| (c.toUInt32 <<< 8) ||| d.toUInt32) ::
      wordsBE32 rest
  | _ => []

/-- A block read as 32-bit words, least significant byte first. -/
def wordsLE32 : Bytes → List UInt32
  | a :: b :: c :: d :: rest =>
    ((d.toUInt32 <<< 24) ||| (c.toUInt32 <<< 16) ||| (b.toUInt32 <<< 8) ||| a.toUInt32) ::
      wordsLE32 rest
  | _ => []

/-- A block read as 64-bit words, most significant byte first. -/
def wordsBE64 : Bytes → List UInt64
  | a :: b :: c :: d :: e :: f :: g :: h :: rest =>
    ((a.toUInt64 <<< 56) ||| (b.toUInt64 <<< 48) ||| (c.toUInt64 <<< 40) |||
      (d.toUInt64 <<< 32) ||| (e.toUInt64 <<< 24) ||| (f.toUInt64 <<< 16) |||
      (g.toUInt64 <<< 8) ||| h.toUInt64) :: wordsBE64 rest
  | _ => []

/-- The four bytes of a word, least significant first. -/
def bytesLE32 (w : UInt32) : Bytes :=
  [w.toUInt8, (w >>> 8).toUInt8, (w >>> 16).toUInt8, (w >>> 24).toUInt8]

/-- Rotation of a 32-bit word by `n` places to the right, for `0 < n < 32`. -/
def rotr32 (x : UInt32) (n : UInt32) : UInt32 :=
  (x >>> n) ||| (x <<< (32 - n))

/-- Rotation of a 32-bit word by `n` places to the left, for `0 < n < 32`. -/
def rotl32 (x : UInt32) (n : UInt32) : UInt32 :=
  (x <<< n) ||| (x >>> (32 - n))

/-- Rotation of a 64-bit word by `n` places to the right, for `0 < n < 64`. -/
def rotr64 (x : UInt64) (n : UInt64) : UInt64 :=
  (x >>> n) ||| (x <<< (64 - n))

end Hash

end Dnssec
