import Dnssec.Key.Private
import Dnssec.Signature.Nonce

/-!
# `Dnssec.Signature.Ecdsa` — ECDSA over P-256 with SHA-256 and P-384 with SHA-384

The hash `z` of the data, one field width long, is read as a number.  A signature `(r, s)`
verifies against the public point `Q` when `r` and `s` lie in `[1, n)` and the point
`(z·w)·G + (r·w)·Q`, for `w = s⁻¹ mod n`, is finite with `x ≡ r (mod n)`.  Signing takes `k`
from the RFC 6979 generator seeded with the scalar and `z mod n`, both in field-width bytes, and
sets `r = x(k·G) mod n`, `s = k⁻¹ · (z + r·d) mod n`.
-/

namespace Dnssec.Ecdsa

/-- The hash function of the curve's algorithm. -/
def hash : Curve → HashFunction
  | .p256 => .sha256
  | .p384 => .sha384

/-- Checks a DER signature over `data` against the public point `(x, y)`. -/
def verify (c : Curve) (x y : Nat) (der data : Bytes) : Except Error Unit := do
  let C := c.params
  let some (r, s) := Der.values? der | throw .verificationFailed
  if r = 0 || s = 0 || r ≥ C.n || s ≥ C.n then throw .verificationFailed
  let some w := Nat.invMod? s C.n | throw .verificationFailed
  let z := Bytes.toNat ((hash c).digest data) % C.n
  let pt := JPoint.add C (JPoint.mul C (z * w % C.n) c.generator)
    (JPoint.mul C (r * w % C.n) (JPoint.ofAffine x y))
  match pt.toAffine C with
  | some (px, _) => if px % C.n = r then pure () else throw .verificationFailed
  | none => throw .verificationFailed

/-- The DER signature of `data` under the private scalar `d`. -/
def sign (c : Curve) (d : Nat) (data : Bytes) : Except Error Bytes := do
  let C := c.params
  let some key := PrivateKey.ecScalar? c d | throw (.primitive .signature)
  let z := Bytes.toNat ((hash c).digest data) % C.n
  let drbg := Drbg.init (hash c) (Nat.toBytesFixed C.width key) (Nat.toBytesFixed C.width z) []
  let some (k, kInv) := Nonce.search C.n C.width Nonce.attempts drbg
    | throw (.primitive .signature)
  let some (px, _) := c.mulBase k | throw (.primitive .signature)
  let r := px % C.n
  let s := kInv * (z + r * key) % C.n
  if r = 0 || s = 0 then throw (.primitive .signature)
  pure (Der.pair (Nat.toBytes r) (Nat.toBytes s))

end Dnssec.Ecdsa
