import Dnssec.Signature.Format
import Dnssec.Signature.Nonce

/-!
# `Dnssec.Signature.Dsa` — DSA over SHA-1 (FIPS 186)

A group `(p, q, g)` is accepted when `p ≥ 2`, `q ≥ 2` and `0 < g ≤ p`, a public value `y` when
`y ≥ 2` and `y ^ q ≡ 1 (mod p)`, a private exponent `x` when `0 < x ≤ q`; anything else is the
primitive's `signature` fault.

The hash enters as the number `z` of its first `min(⌊bits(q) / 8⌋, 20)` bytes.  A signature
`(r, s)` verifies when `0 < r, s < q` and `(g ^ (z·w) · y ^ (r·w) mod p) mod q = r` for
`w = s⁻¹ mod q`.  Signing takes `k` from the RFC 6979 generator over SHA-1 seeded with the
minimal bytes of `x` and the hash prefix reduced modulo `q`, then `r = (g ^ k mod p) mod q` and
`s = k⁻¹ · (z + x·r) mod q`.
-/

namespace Dnssec.Dsa

/-- Accepts the group and public value, or refuses them as the primitive's `signature` fault. -/
def checkKey (p q g y : Nat) : Except Error Unit :=
  if p < 2 || q < 2 || g = 0 || g > p then .error (.primitive .signature)
  else if y < 2 || Nat.powMod y q p != 1 then .error (.primitive .signature)
  else .ok ()

/-- The number of hash bytes that count: the whole bytes of `q`, at most the hash length. -/
def hashPrefix (q : Nat) (hash : Bytes) : Bytes :=
  hash.take (Nat.bitLen q / 8)

/-- Checks a DER signature over `data`. -/
def verify (p q g y : Nat) (der data : Bytes) : Except Error Unit := do
  checkKey p q g y
  let some (r, s) := Der.values? der | throw .verificationFailed
  if r = 0 || s = 0 || r ≥ q || s ≥ q then throw .verificationFailed
  let some w := Nat.invMod? s q | throw .verificationFailed
  let z := Bytes.toNat (hashPrefix q (HashFunction.sha1.digest data))
  let u1 := z * w % q
  let u2 := r * w % q
  let v := Nat.powMod g u1 p * Nat.powMod y u2 p % p % q
  if v = r then pure () else throw .verificationFailed

/-- The big-endian bytes of `v`, a single zero byte for zero. -/
def bytesOrZero (v : Nat) : Bytes :=
  if v = 0 then [0] else Nat.toBytes v

/-- The DER signature of `data` under private exponent `x`. -/
def sign (p q g y x : Nat) (data : Bytes) : Except Error Bytes := do
  checkKey p q g y
  if x = 0 || x > q then throw (.primitive .signature)
  let hash := HashFunction.sha1.digest data
  let size := Nat.bitLen q / 8
  let reduced := bytesOrZero (Bytes.toNat (hashPrefix q hash) % q)
  let nonce := List.replicate (size - reduced.length) 0 ++ reduced
  let drbg := Drbg.init .sha1 (bytesOrZero x) nonce []
  let some (k, kInv) := Nonce.search q size Nonce.attempts drbg
    | throw (.primitive .signature)
  let z := Bytes.toNat (hashPrefix q hash)
  let r := Nat.powMod g k p % q
  let s := kInv * (z + x * r) % q
  if r = 0 || s = 0 then throw (.primitive .signature)
  pure (Der.pair (Nat.toBytes r) (Nat.toBytes s))

end Dnssec.Dsa
