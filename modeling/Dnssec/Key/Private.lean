import Dnssec.Signature.Format

/-!
# `Dnssec.Key.Private` — private keys

A private key of each family, with the public key it belongs to.  The public point of an ECDSA
key is `d·G` for the scalar `d` taken as a field-width string of bytes (the low bytes of a longer
value); a scalar that is zero or not below the group order is refused by the primitive.
-/

namespace Dnssec

/-- A private key. -/
inductive PrivateKey
  /-- An RSA key: modulus, public and private exponents, and the prime factors. -/
  | rsa (n e d : Nat) (primes : List Nat)
  /-- A DSA key: the group `p`, `q`, `g`, the public value `y` and the private exponent `x`. -/
  | dsa (p q g y x : Nat)
  /-- An ECDSA key: the curve and the private scalar. -/
  | ec (curve : Curve) (d : Nat)
  deriving DecidableEq, Repr

namespace PrivateKey

/-- The key family the key signs for. -/
def family : PrivateKey → KeyFamily
  | rsa .. => .rsa
  | dsa .. => .dsa
  | ec c _ => .ecdsa c

/-- The signature format of the key's signatures. -/
def sigFormat : PrivateKey → SigFormat
  | rsa .. => .rsa
  | dsa p .. => .dsa (dsaT p)
  | ec c _ => .ecdsa c

/-- The ECDSA scalar of `d` on curve `c`: its low field-width bytes, if in `[1, n)`. -/
def ecScalar? (c : Curve) (d : Nat) : Option Nat :=
  let k := Bytes.toNat (Nat.toBytesFixed c.width d)
  if k = 0 || k ≥ c.params.n then none else some k

/-- The public half of the key. -/
def publicKey : PrivateKey → Except Error PublicKey
  | rsa n e _ _ => .ok (.rsa n e)
  | dsa p q g y _ => .ok (.dsa p q g y)
  | ec c d =>
    match ecScalar? c d with
    | none => .error (.primitive .signature)
    | some k =>
      match c.mulBase k with
      | some (x, y) => .ok (.ec c x y)
      | none => .error .malformedKey

end PrivateKey

end Dnssec
