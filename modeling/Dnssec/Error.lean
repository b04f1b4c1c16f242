/-!
# `Dnssec.Error` — why a DNSSEC operation fails

Every fallible operation of the library returns `Except Error`.  The constructors name causes;
`Error.message` holds all the wording.  Failures of the public-key primitives are one
constructor, `primitive`, carrying a `PrimitiveFault`.
-/

namespace Dnssec

/-- What a public-key primitive refused. -/
inductive PrimitiveFault
  /-- A key or signature value outside the primitive's domain. -/
  | signature
  /-- The encoded digest does not fit the RSA modulus. -/
  | messageTooLong
  /-- The RSA public exponent is below 2. -/
  | exponentTooSmall
  /-- The RSA public exponent exceeds `2 ^ 33 - 1`. -/
  | exponentTooLarge
  /-- The RSA public exponent is even. -/
  | invalidExponent
  /-- The RSA modulus is even or not above the exponent. -/
  | invalidModulus
  /-- The RSA modulus is longer than 4096 bits. -/
  | modulusTooLarge
  deriving DecidableEq, Repr

/-- The description of a primitive fault. -/
def PrimitiveFault.message : PrimitiveFault → String
  | .signature => "signature error"
  | .messageTooLong => "message too long"
  | .exponentTooSmall => "public exponent too small"
  | .exponentTooLarge => "public exponent too large"
  | .invalidExponent => "invalid exponent"
  | .invalidModulus => "invalid modulus"
  | .modulusTooLarge => "modulus too large"

/-- The failure of a DNSSEC operation. -/
inductive Error
  /-- The algorithm number is not one this library implements. -/
  | unsupportedAlgorithm (alg : UInt8)
  /-- The DS digest type is not one this library implements. -/
  | unsupportedDigestType (digestType : UInt8)
  /-- A DNSKEY public key field does not have its algorithm's layout. -/
  | malformedKey
  /-- A key belongs to another family or curve than the algorithm. -/
  | incompatibleKey
  /-- The signature names another algorithm, key tag or signer than the key. -/
  | keyMismatch (sigAlg keyAlg : UInt8) (sigTag keyTag : UInt16)
  /-- The time of the check is after the signature's expiration. -/
  | expired (expiration now : UInt64)
  /-- The time of the check is before the signature's inception. -/
  | notYetValid (inception now : UInt64)
  /-- The signature is malformed or does not verify. -/
  | verificationFailed
  /-- A message to verify carries no SIG(0) record. -/
  | noSignature
  /-- The records do not form one RRset, or a record is too long to sign. -/
  | malformedRRset
  /-- A message is shorter than its header, already signed, or has an impossible ARCOUNT. -/
  | malformedMessage
  /-- A public-key primitive refused its input. -/
  | primitive (fault : PrimitiveFault)
  deriving DecidableEq, Repr

/-- The description of an error. -/
def Error.message : Error → String
  | .unsupportedAlgorithm alg => "unsupported DNSSEC algorithm " ++ toString alg.toNat
  | .unsupportedDigestType t => "unsupported DS digest type " ++ toString t.toNat
  | .malformedKey => "malformed DNSSEC public key"
  | .incompatibleKey => "key is incompatible with the requested algorithm"
  | .keyMismatch sa ka st kt =>
    "signature was not made by this key (algorithm " ++ toString sa.toNat ++ "/" ++
      toString ka.toNat ++ ", tag " ++ toString st.toNat ++ "/" ++ toString kt.toNat ++ ")"
  | .expired e now =>
    "signature expired at " ++ toString e.toNat ++ ", now " ++ toString now.toNat
  | .notYetValid i now =>
    "signature not valid before " ++ toString i.toNat ++ ", now " ++ toString now.toNat
  | .verificationFailed => "DNSSEC signature verification failed"
  | .noSignature => "message has no SIG(0) signature"
  | .malformedRRset => "records do not form a single RRset"
  | .malformedMessage => "malformed DNS message"
  | .primitive f => "signature primitive failed: " ++ f.message

end Dnssec
