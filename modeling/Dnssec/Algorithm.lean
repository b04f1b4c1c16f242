import Dnssec.Error
import Dnssec.Hash.Function
import Dnssec.Curve.Basic

/-!
# `Dnssec.Algorithm` — the DNSSEC algorithm numbers this library implements

Records carry an algorithm as a number.  `Algorithm` lists the nine this library signs and
verifies with; each has a mnemonic, a key family (RSA, DSA, or ECDSA on a curve), a hash function
and a signature scheme.  `DigestType` lists the DS digest types.

* `Algorithm.ofNumber` — the algorithm of a number, or `unsupportedAlgorithm`.
* `Algorithm.parse?` — the algorithm a text names: a mnemonic in any ASCII case, one of the two
  older NSEC3 aliases, or a decimal number.
* `KeyFamily.check` — the algorithm of a number, provided that it signs with keys of a family.
-/

namespace Dnssec

/-- The kind of key an algorithm signs with. -/
inductive KeyFamily
  | rsa
  | dsa
  | ecdsa (curve : Curve)
  deriving DecidableEq, Repr

/-- The family's name: `rsa`, `dsa`, or `ecdsa-` and the curve. -/
def KeyFamily.name : KeyFamily → String
  | .rsa => "rsa"
  | .dsa => "dsa"
  | .ecdsa c => "ecdsa-" ++ c.name

/-- A DNSSEC signing algorithm. -/
inductive Algorithm
  | rsaMd5
  | dsa
  | rsaSha1
  | dsaNsec3Sha1
  | rsaSha1Nsec3Sha1
  | rsaSha256
  | rsaSha512
  | ecdsaP256Sha256
  | ecdsaP384Sha384
  deriving DecidableEq, Repr

namespace Algorithm

/-- Every implemented algorithm, in the order of their numbers. -/
def all : List Algorithm :=
  [rsaMd5, dsa, rsaSha1, dsaNsec3Sha1, rsaSha1Nsec3Sha1, rsaSha256, rsaSha512, ecdsaP256Sha256,
    ecdsaP384Sha384]

/-- The IANA number. -/
def number : Algorithm → UInt8
  | rsaMd5 => 1
  | dsa => 3
  | rsaSha1 => 5
  | dsaNsec3Sha1 => 6
  | rsaSha1Nsec3Sha1 => 7
  | rsaSha256 => 8
  | rsaSha512 => 10
  | ecdsaP256Sha256 => 13
  | ecdsaP384Sha384 => 14

/-- The mnemonic. -/
def mnemonic : Algorithm → String
  | rsaMd5 => "RSAMD5"
  | dsa => "DSA"
  | rsaSha1 => "RSASHA1"
  | dsaNsec3Sha1 => "DSA-NSEC3-SHA1"
  | rsaSha1Nsec3Sha1 => "RSASHA1-NSEC3-SHA1"
  | rsaSha256 => "RSASHA256"
  | rsaSha512 => "RSASHA512"
  | ecdsaP256Sha256 => "ECDSAP256SHA256"
  | ecdsaP384Sha384 => "ECDSAP384SHA384"

/-- The key family. -/
def family : Algorithm → KeyFamily
  | rsaMd5 | rsaSha1 | rsaSha1Nsec3Sha1 | rsaSha256 | rsaSha512 => .rsa
  | dsa | dsaNsec3Sha1 => .dsa
  | ecdsaP256Sha256 => .ecdsa .p256
  | ecdsaP384Sha384 => .ecdsa .p384

/-- The hash function over the signed data. -/
def hash : Algorithm → HashFunction
  | rsaMd5 => .md5
  | dsa | rsaSha1 | dsaNsec3Sha1 | rsaSha1Nsec3Sha1 => .sha1
  | rsaSha256 | ecdsaP256Sha256 => .sha256
  | rsaSha512 => .sha512
  | ecdsaP384Sha384 => .sha384

/-- The signature scheme, hash and primitive. -/
def scheme (a : Algorithm) : String :=
  a.hash.name ++ "with" ++
    match a.family with
    | .rsa => "RSA"
    | .dsa => "DSA"
    | .ecdsa _ => "ECDSA"

/-- The algorithm with a number, if implemented. -/
def ofNumber? (n : UInt8) : Option Algorithm :=
  all.find? (·.number == n)

/-- The algorithm with a number, or `unsupportedAlgorithm`. -/
def ofNumber (n : UInt8) : Except Error Algorithm :=
  match ofNumber? n with
  | some a => .ok a
  | none => .error (.unsupportedAlgorithm n)

/-- Equality of texts ignoring ASCII case. -/
def sameIgnoringCase (a b : String) : Bool :=
  a.toList.map Char.toLower == b.toList.map Char.toLower

/-- A decimal byte: an optional `+`, then at least one ASCII digit, at most 255 in value. -/
def parseByte? (s : String) : Option UInt8 :=
  let digits := match s.toList with
    | '+' :: rest => rest
    | cs => cs
  if digits.isEmpty || !digits.all Char.isDigit then none
  else
    let n : Nat := digits.foldl (fun acc c => acc * 10 + (c.toNat - 48)) 0
    if n ≤ 255 then some n.toUInt8 else none

/-- Older mnemonics of the NSEC3 variants. -/
def aliases : List (String × Algorithm) :=
  [("NSEC3DSA", dsaNsec3Sha1), ("NSEC3RSASHA1", rsaSha1Nsec3Sha1)]

/-- The algorithm a text names: its mnemonic or an alias in any ASCII case, or its number. -/
def parse? (s : String) : Option Algorithm :=
  match all.find? (fun a => sameIgnoringCase a.mnemonic s) with
  | some a => some a
  | none =>
    match aliases.find? (fun p => sameIgnoringCase p.1 s) with
    | some p => some p.2
    | none => (parseByte? s).bind ofNumber?

end Algorithm

/-- The algorithm of number `alg`, provided that it signs with keys of `family`:
`unsupportedAlgorithm` for an unknown number, `incompatibleKey` for another family or curve. -/
def KeyFamily.check (family : KeyFamily) (alg : UInt8) : Except Error Algorithm := do
  let a ← Algorithm.ofNumber alg
  if a.family = family then pure a else throw .incompatibleKey

/-- A DS digest type. -/
inductive DigestType
  | sha1
  | sha256
  | sha384
  deriving DecidableEq, Repr

namespace DigestType

/-- The IANA number. -/
def number : DigestType → UInt8
  | sha1 => 1
  | sha256 => 2
  | sha384 => 4

/-- The digest type with a number, or `unsupportedDigestType`. -/
def ofNumber (n : UInt8) : Except Error DigestType :=
  if n = 1 then .ok sha1
  else if n = 2 then .ok sha256
  else if n = 4 then .ok sha384
  else .error (.unsupportedDigestType n)

/-- The hash function. -/
def hash : DigestType → HashFunction
  | sha1 => .sha1
  | sha256 => .sha256
  | sha384 => .sha384

/-- The digest type's name. -/
def name : DigestType → String
  | sha1 => "Sha1"
  | sha256 => "Sha256"
  | sha384 => "Sha384"

end DigestType

end Dnssec
