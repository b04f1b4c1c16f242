import Dnssec.Algorithm
import Dnssec.Record

/-!
# `Dnssec.Key.Public` — public keys and their DNSKEY encodings

The public key field of a DNSKEY has one fixed layout per key family:

* RSA (RFC 3110): the exponent length in one byte, or a zero byte and then two bytes; the
  exponent; the modulus in the remaining bytes.  Both must be non-empty.
* DSA (RFC 2536): `T` (at most 8), `Q` in 20 bytes, then `P`, `G` and `Y` in `64 + 8·T` bytes
  each, and nothing more.
* ECDSA (RFC 6605): `X` and `Y`, each as wide as the curve's field, forming a point of the curve.

`DnsKey.toPublicKey` decodes a key by its algorithm and `PublicKey.encode` writes one for an
algorithm, with minimal RSA fields and fixed-width DSA and ECDSA fields.
-/

namespace Dnssec

/-- The width of DSA's `Q` field. -/
def dsaQWidth : Nat := 20

/-- A public key. -/
inductive PublicKey
  | rsa (modulus exponent : Nat)
  | dsa (p q g y : Nat)
  | ec (curve : Curve) (x y : Nat)
  deriving DecidableEq, Repr

namespace PublicKey

/-- The key family the key signs for. -/
def family : PublicKey → KeyFamily
  | rsa .. => .rsa
  | dsa .. => .dsa
  | ec c .. => .ecdsa c

/-- The RSA key of a key field: exponent length, exponent, modulus. -/
def decodeRsa (field : Bytes) : Option PublicKey :=
  let body (len : Nat) (rest : Bytes) : Option PublicKey :=
    if rest.length < len then none
    else
      let e := rest.take len
      let m := rest.drop len
      if e.isEmpty || m.isEmpty then none else some (rsa (Bytes.toNat m) (Bytes.toNat e))
  match field with
  | 0 :: hi :: lo :: rest => body (hi.toNat * 256 + lo.toNat) rest
  | 0 :: _ => none
  | len :: rest => body len.toNat rest
  | [] => none

/-- The DSA key of a key field: `T`, `Q`, `P`, `G`, `Y`. -/
def decodeDsa : Bytes → Option PublicKey
  | [] => none
  | t :: rest =>
    let len := 64 + 8 * t.toNat
    if t.toNat > 8 || rest.length != dsaQWidth + 3 * len then none
    else
      let q := rest.take dsaQWidth
      let rest := rest.drop dsaQWidth
      some (dsa (Bytes.toNat (rest.take len)) (Bytes.toNat q)
        (Bytes.toNat ((rest.drop len).take len)) (Bytes.toNat (rest.drop (2 * len))))

/-- The ECDSA key of a key field: `X` then `Y`, a point of the curve. -/
def decodeEc (c : Curve) (field : Bytes) : Option PublicKey :=
  if field.length != 2 * c.width then none
  else
    let x := Bytes.toNat (field.take c.width)
    let y := Bytes.toNat (field.drop c.width)
    if c.onCurve x y then some (ec c x y) else none

/-- The key of a key field for a key family. -/
def decode : KeyFamily → Bytes → Option PublicKey
  | .rsa, f => decodeRsa f
  | .dsa, f => decodeDsa f
  | .ecdsa c, f => decodeEc c f

/-- The key field of a key, or `none` when a value does not fit the layout. -/
def field? : PublicKey → Option Bytes
  | rsa m e =>
    let eb := Nat.toBytes e
    let mb := Nat.toBytes m
    if eb.isEmpty || mb.isEmpty then none
    else if eb.length < 256 then some (eb.length.toUInt8 :: eb ++ mb)
    else if eb.length < 65536 then some (0 :: Bytes.be16 eb.length.toUInt16 ++ eb ++ mb)
    else none
  | dsa p q g y =>
    let len := Nat.byteLen p
    if len < 64 || (len - 64) % 8 != 0 || (len - 64) / 8 > 8 then none
    else if Nat.byteLen q > dsaQWidth || Nat.byteLen g > len || Nat.byteLen y > len then none
    else some (((len - 64) / 8).toUInt8 :: Nat.toBytesFixed dsaQWidth q ++
      Nat.toBytesFixed len p ++ Nat.toBytesFixed len g ++ Nat.toBytesFixed len y)
  | ec c x y =>
    if Nat.byteLen x > c.width || Nat.byteLen y > c.width then none
    else some (Nat.toBytesFixed c.width x ++ Nat.toBytesFixed c.width y)

/-- The key field of `pk` for algorithm number `alg`: `unsupportedAlgorithm` or
`incompatibleKey` when the algorithm cannot use the key, `malformedKey` when a value does not fit
the layout. -/
def encode (pk : PublicKey) (alg : UInt8) : Except Error Bytes := do
  let _ ← pk.family.check alg
  match pk.field? with
  | some f => pure f
  | none => throw .malformedKey

end PublicKey

/-- The public key of a DNSKEY, decoded by its algorithm: `unsupportedAlgorithm` for an unknown
algorithm, `malformedKey` when the field does not have the algorithm's layout. -/
def DnsKey.toPublicKey (k : DnsKey) : Except Error PublicKey := do
  let a ← Algorithm.ofNumber k.algorithm
  match PublicKey.decode a.family k.publicKey with
  | some pk => pure pk
  | none => throw .malformedKey

end Dnssec
