import Dnssec.Signature.Format
import Dnssec.Arith.Modular

/-!
# `Dnssec.Signature.Rsa` — RSASSA-PKCS1-v1_5 (RFC 8017, section 8.2)

The signed value is the `DigestInfo` of the data's hash, padded to the modulus length `k` as
`00 01 FF … FF 00 DigestInfo` with at least eight `FF` bytes; the signature is that padded value
raised to the private exponent, written in exactly `k` bytes.

A public key is accepted only with a modulus of at most 4096 bits and an odd exponent between 2
and `2 ^ 33 - 1` below an odd modulus; `checkPublic` says which rule a key breaks first.
-/

namespace Dnssec.Rsa

/-- The DER header of the `DigestInfo` of each hash function. -/
def digestInfoPrefix : HashFunction → Bytes
  | .md5 => [0x30, 0x20, 0x30, 0x0c, 0x06, 0x08, 0x2a, 0x86, 0x48, 0x86, 0xf7, 0x0d, 0x02, 0x05,
      0x05, 0x00, 0x04, 0x10]
  | .sha1 => [0x30, 0x21, 0x30, 0x09, 0x06, 0x05, 0x2b, 0x0e, 0x03, 0x02, 0x1a, 0x05, 0x00, 0x04,
      0x14]
  | .sha256 => [0x30, 0x31, 0x30, 0x0d, 0x06, 0x09, 0x60, 0x86, 0x48, 0x01, 0x65, 0x03, 0x04, 0x02,
      0x01, 0x05, 0x00, 0x04, 0x20]
  | .sha384 => [0x30, 0x41, 0x30, 0x0d, 0x06, 0x09, 0x60, 0x86, 0x48, 0x01, 0x65, 0x03, 0x04, 0x02,
      0x02, 0x05, 0x00, 0x04, 0x30]
  | .sha512 => [0x30, 0x51, 0x30, 0x0d, 0x06, 0x09, 0x60, 0x86, 0x48, 0x01, 0x65, 0x03, 0x04, 0x02,
      0x03, 0x05, 0x00, 0x04, 0x40]

/-- The `DigestInfo` of the data: the header, then the hash. -/
def digestInfo (h : HashFunction) (data : Bytes) : Bytes :=
  digestInfoPrefix h ++ h.digest data

/-- The encoded message of length `k` for `DigestInfo` `t`. -/
def encode (k : Nat) (t : Bytes) : Bytes :=
  [0x00, 0x01] ++ List.replicate (k - t.length - 3) 0xff ++ [0x00] ++ t

/-- The first rule of an acceptable public key that `(n, e)` breaks, checked in this order:
modulus size (at most 4096 bits), exponent size (below `2 ^ 64`), odd modulus above the exponent,
odd exponent, exponent bounds (from 2 to `2 ^ 33 - 1`). -/
def checkPublic (n e : Nat) : Except PrimitiveFault Unit :=
  if Nat.bitLen n > 4096 then .error .modulusTooLarge
  else if e ≥ 18446744073709551616 then .error .exponentTooLarge
  else if e ≥ n || n % 2 = 0 then .error .invalidModulus
  else if e % 2 = 0 then .error .invalidExponent
  else if e < 2 then .error .exponentTooSmall
  else if e > 8589934591 then .error .exponentTooLarge
  else .ok ()

/-- Checks an RSA signature over `data`: the key must be acceptable (else a primitive fault),
and the signature exactly as long as the modulus, below it, and raised to `e` equal to the
encoded `DigestInfo` (else `verificationFailed`). -/
def verify (n e : Nat) (h : HashFunction) (sig data : Bytes) : Except Error Unit := do
  match checkPublic n e with
  | .error f => throw (.primitive f)
  | .ok () => pure ()
  let k := Nat.byteLen n
  let t := digestInfo h data
  let s := Bytes.toNat sig
  if sig.length != k || s ≥ n || k < t.length + 11 then throw .verificationFailed
  if Nat.toBytesFixed k (Nat.powMod s e n) == encode k t then pure ()
  else throw .verificationFailed

/-- The RSA signature of `data` under modulus `n` and private exponent `d`; `messageTooLong`
when the encoded `DigestInfo` does not fit the modulus. -/
def sign (n d : Nat) (h : HashFunction) (data : Bytes) : Except Error Bytes :=
  let k := Nat.byteLen n
  let t := digestInfo h data
  if k < t.length + 11 then .error (.primitive .messageTooLong)
  else .ok (Nat.toBytesFixed k (Nat.powMod (Bytes.toNat (encode k t)) d n))

end Dnssec.Rsa
