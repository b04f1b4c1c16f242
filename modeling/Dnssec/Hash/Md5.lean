import Dnssec.Hash.Block

/-!
# `Dnssec.Hash.Md5` — the MD5 hash function (RFC 1321)

MD5 pads like the SHA family but writes the bit length, its message words and its digest least
significant byte first.  Four chaining words go through 64 steps in four rounds of sixteen, each
round with its own boolean function, word order and rotation amounts.
-/

namespace Dnssec.Hash.Md5

/-- The step constants: `floor (2 ^ 32 * abs (sin i))` for `i = 1 .. 64`. -/
def stepConstants : Array UInt32 := #[
  0xd76aa478, 0xe8c7b756, 0x242070db, 0xc1bdceee, 0xf57c0faf, 0x4787c62a,
  0xa8304613, 0xfd469501, 0x698098d8, 0x8b44f7af, 0xffff5bb1, 0x895cd7be,
  0x6b901122, 0xfd987193, 0xa679438e, 0x49b40821, 0xf61e2562, 0xc040b340,
  0x265e5a51, 0xe9b6c7aa, 0xd62f105d, 0x02441453, 0xd8a1e681, 0xe7d3fbc8,
  0x21e1cde6, 0xc33707d6, 0xf4d50d87, 0x455a14ed, 0xa9e3e905, 0xfcefa3f8,
  0x676f02d9, 0x8d2a4c8a, 0xfffa3942, 0x8771f681, 0x6d9d6122, 0xfde5380c,
  0xa4beea44, 0x4bdecfa9, 0xf6bb4b60, 0xbebfbc70, 0x289b7ec6, 0xeaa127fa,
  0xd4ef3085, 0x04881d05, 0xd9d4d039, 0xe6db99e5, 0x1fa27cf8, 0xc4ac5665,
  0xf4292244, 0x432aff97, 0xab9423a7, 0xfc93a039, 0x655b59c3, 0x8f0ccc92,
  0xffeff47d, 0x85845dd1, 0x6fa87e4f, 0xfe2ce6e0, 0xa3014314, 0x4e0811a1,
  0xf7537e82, 0xbd3af235, 0x2ad7d2bb, 0xeb86d391]

/-- The rotation amount of each step. -/
def rotations : Array UInt32 := #[
  7, 12, 17, 22, 7, 12, 17, 22, 7, 12, 17, 22, 7, 12, 17, 22,
  5, 9, 14, 20, 5, 9, 14, 20, 5, 9, 14, 20, 5, 9, 14, 20,
  4, 11, 16, 23, 4, 11, 16, 23, 4, 11, 16, 23, 4, 11, 16, 23,
  6, 10, 15, 21, 6, 10, 15, 21, 6, 10, 15, 21, 6, 10, 15, 21]

/-- The four chaining words of MD5. -/
structure State where
  a : UInt32
  b : UInt32
  c : UInt32
  d : UInt32

/-- The initial chaining value. -/
def State.initial : State := ⟨0x67452301, 0xefcdab89, 0x98badcfe, 0x10325476⟩

/-- Word-wise sum of two chaining values. -/
def State.add (s t : State) : State := ⟨s.a + t.a, s.b + t.b, s.c + t.c, s.d + t.d⟩

/-- The boolean function of step `i` applied to `b c d`, and the index of the message word the
step reads. -/
def mix (i : Nat) (b c d : UInt32) : UInt32 × Nat :=
  if i < 16 then ((b &&& c) ||| (~~~b &&& d), i)
  else if i < 32 then ((d &&& b) ||| (~~~d &&& c), (5 * i + 1) % 16)
  else if i < 48 then (b ^^^ c ^^^ d, (3 * i + 5) % 16)
  else (c ^^^ (b ||| ~~~d), (7 * i) % 16)

/-- One step over the message words `m`. -/
def step (m : Array UInt32) (s : State) (i : Nat) : State :=
  let (f, g) := mix i s.b s.c s.d
  let x := s.a + f + stepConstants.getD i 0 + m.getD g 0
  ⟨s.d, s.b + rotl32 x (rotations.getD i 0), s.b, s.c⟩

/-- The compression function: 64 steps over one block, added to the incoming chaining value. -/
def compress (s : State) (block : Bytes) : State :=
  let m := (wordsLE32 block).toArray
  s.add ((List.range 64).foldl (step m) s)

/-- The MD5 digest of a message, 16 bytes. -/
def digest (msg : Bytes) : Bytes :=
  let s := (Bytes.chunks 64 (mdPad 64 8 false msg)).foldl compress State.initial
  [s.a, s.b, s.c, s.d].flatMap bytesLE32

end Dnssec.Hash.Md5
