import Dnssec.Hash.Block

/-!
# `Dnssec.Hash.Sha1` — the SHA-1 hash function (FIPS 180-4, section 6.1)

Five chaining words, 64-byte blocks expanded into 80 words by a one-bit rotation of the exclusive
or of four earlier words, and 80 steps in four rounds of twenty, each with its own boolean
function and constant.
-/

namespace Dnssec.Hash.Sha1

/-- The five chaining words of SHA-1. -/
structure State where
  a : UInt32
  b : UInt32
  c : UInt32
  d : UInt32
  e : UInt32

/-- The initial chaining value. -/
def State.initial : State := ⟨0x67452301, 0xefcdab89, 0x98badcfe, 0x10325476, 0xc3d2e1f0⟩

/-- Word-wise sum of two chaining values. -/
def State.add (s t : State) : State :=
  ⟨s.a + t.a, s.b + t.b, s.c + t.c, s.d + t.d, s.e + t.e⟩

/-- The 80-word schedule of one block. -/
def schedule (block : Bytes) : Array UInt32 :=
  (List.range 64).foldl (fun w t =>
    w.push (rotl32 (w.getD (t + 13) 0 ^^^ w.getD (t + 8) 0 ^^^ w.getD (t + 2) 0 ^^^
      w.getD t 0) 1)) (wordsBE32 block).toArray

/-- The boolean function and constant of step `t`. -/
def mix (t : Nat) (b c d : UInt32) : UInt32 × UInt32 :=
  if t < 20 then ((b &&& c) ||| (~~~b &&& d), 0x5a827999)
  else if t < 40 then (b ^^^ c ^^^ d, 0x6ed9eba1)
  else if t < 60 then ((b &&& c) ||| (b &&& d) ||| (c &&& d), 0x8f1bbcdc)
  else (b ^^^ c ^^^ d, 0xca62c1d6)

/-- One step with schedule word `w`. -/
def step (s : State) (t : Nat) (w : UInt32) : State :=
  let (f, k) := mix t s.b s.c s.d
  ⟨rotl32 s.a 5 + f + s.e + k + w, s.a, rotl32 s.b 30, s.c, s.d⟩

/-- The compression function: 80 steps over one block, added to the incoming chaining value. -/
def compress (s : State) (block : Bytes) : State :=
  let w := schedule block
  s.add ((List.range 80).foldl (fun v t => step v t (w.getD t 0)) s)

/-- The SHA-1 digest of a message, 20 bytes. -/
def digest (msg : Bytes) : Bytes :=
  let s := (Bytes.chunks 64 (mdPad 64 8 true msg)).foldl compress State.initial
  [s.a, s.b, s.c, s.d, s.e].flatMap Bytes.be32

end Dnssec.Hash.Sha1
