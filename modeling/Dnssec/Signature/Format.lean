import Dnssec.Key.Public

/-!
# `Dnssec.Signature.Format` — signatures on the wire and in DER

On the DNS wire an RSA signature is the bare signature value, a DSA signature is `T` followed by
`r` and `s` in 20 bytes each (RFC 2536), and an ECDSA signature is `r` and `s` each as wide as
the curve's field (RFC 6605).  Signature primitives read and write DSA and ECDSA signatures as
the DER encoding of `SEQUENCE { INTEGER r, INTEGER s }`.

* `SigFormat.toDer` — wire form to DER, with minimal non-negative INTEGERs.
* `SigFormat.ofDer` — DER to wire form.  It accepts only a SEQUENCE with a short-form length
  equal to the rest of the input, holding exactly two INTEGERs with short-form lengths of 1 to
  127 bytes, non-negative, each at most the width, or the width plus one with a leading zero;
  integers shorter than the width are padded.  Every other input is `verificationFailed`.
-/

namespace Dnssec

/-- How signatures of a key are laid out on the wire. -/
inductive SigFormat
  | rsa
  /-- DSA, with the key's `T` parameter repeated in front of each signature. -/
  | dsa (t : UInt8)
  | ecdsa (curve : Curve)
  deriving DecidableEq, Repr

/-- The width of each DSA signature half. -/
def dsaHalfWidth : Nat := 20

/-- The `T` of a DSA prime: `(byteLen p - 64) / 8`, zero for primes under 64 bytes. -/
def dsaT (p : Nat) : UInt8 := ((Nat.byteLen p - 64) / 8).toUInt8

/-- The signature format of a public key. -/
def PublicKey.sigFormat : PublicKey → SigFormat
  | .rsa .. => .rsa
  | .dsa p .. => .dsa (dsaT p)
  | .ec c .. => .ecdsa c

namespace Der

/-- A DER INTEGER holding the big-endian value of `int`: leading zeros dropped, and one zero
byte put back when the value is zero or its first byte has the top bit set. -/
def integer (int : Bytes) : Bytes :=
  let v := Bytes.stripZeros int
  let pad := v.isEmpty || v.headD 0 ≥ 0x80
  let body := (if pad then [0] else []) ++ v
  0x02 :: body.length.toUInt8 :: body

/-- A DER SEQUENCE of the INTEGERs of `r` and `s`. -/
def pair (r s : Bytes) : Bytes :=
  let body := integer r ++ integer s
  0x30 :: body.length.toUInt8 :: body

/-- Reads one non-negative INTEGER of at most `width` bytes (or `width + 1` with a leading zero),
as `width` bytes, and the rest of the input. -/
def readInteger (width : Nat) : Bytes → Option (Bytes × Bytes)
  | 0x02 :: len :: rest =>
    if len = 0 || len ≥ 0x80 || rest.length < len.toNat then none
    else
      let int := rest.take len.toNat
      if int.headD 0 ≥ 0x80 then none
      else if int.length = width + 1 && int.headD 0 != 0 then none
      else
        let int := if int.length = width + 1 then int.drop 1 else int
        if int.length > width then none
        else some (Nat.toBytesFixed width (Bytes.toNat int), rest.drop len.toNat)
  | _ => none

/-- Reads a SEQUENCE of two INTEGERs that fills the whole input. -/
def readPair (width : Nat) : Bytes → Option (Bytes × Bytes)
  | 0x30 :: len :: rest =>
    if len ≥ 0x80 || len.toNat != rest.length then none
    else do
      let (r, rest) ← readInteger width rest
      let (s, rest) ← readInteger width rest
      if rest.isEmpty then some (r, s) else none
  | _ => none

/-- The two values of a SEQUENCE of two non-negative INTEGERs with short-form lengths. -/
def values? (der : Bytes) : Option (Nat × Nat) :=
  (readPair 0x7f der).map fun (r, s) => (Bytes.toNat r, Bytes.toNat s)

end Der

namespace SigFormat

/-- The DER form of a wire signature; `verificationFailed` when a DSA signature is not 41 bytes
or an ECDSA signature not twice the field width. -/
def toDer (wire : Bytes) : SigFormat → Except Error Bytes
  | .rsa => .ok wire
  | .dsa _ =>
    if wire.length != 1 + 2 * dsaHalfWidth then .error .verificationFailed
    else .ok (Der.pair ((wire.drop 1).take dsaHalfWidth) (wire.drop (1 + dsaHalfWidth)))
  | .ecdsa c =>
    if wire.length != 2 * c.width then .error .verificationFailed
    else .ok (Der.pair (wire.take c.width) (wire.drop c.width))

/-- The wire form of a DER signature; `verificationFailed` when the DER is not as described
above. -/
def ofDer (der : Bytes) : SigFormat → Except Error Bytes
  | .rsa => .ok der
  | .dsa t =>
    match Der.readPair dsaHalfWidth der with
    | some (r, s) => .ok (t :: r ++ s)
    | none => .error .verificationFailed
  | .ecdsa c =>
    match Der.readPair c.width der with
    | some (r, s) => .ok (r ++ s)
    | none => .error .verificationFailed

end SigFormat

end Dnssec
