import Dnssec.SignedData
import Dnssec.Signature.Rsa
import Dnssec.Signature.Dsa
import Dnssec.Signature.Ecdsa

/-!
# `Dnssec.Validation` — signing and verifying RRsets and SIG(0) messages

Verification checks, in this order and stopping at the first failure: the key is the one the
signature names (algorithm, key tag, signer ignoring case), the time lies within the validity
period (expiration before inception, both bounds inclusive), the signature covers the RRset's
type, and finally the signature verifies over the signed data.

Timestamps are 32-bit: following RFC 2065, a value before 1997 (`851472000`, 27 years of 365
days) is read as lying past 2106, `2 ^ 32` seconds later.

Signing first checks that the key's algorithm can use the private key, then builds the signed
fields from the RRset (its owner's label count, less one for a wildcard owner) and the key, and
signs the signed data.
-/

namespace Dnssec

/-- The UNIX time of a 32-bit DNSSEC timestamp. -/
def resolveTime (t : UInt32) : UInt64 :=
  if t.toNat < 851472000 then t.toUInt64 + 4294967296 else t.toUInt64

theorem toNat_resolveTime (t : UInt32) :
    (resolveTime t).toNat = if t.toNat < 851472000 then t.toNat + 4294967296 else t.toNat := by
  have ht := t.toNat_lt
  unfold resolveTime
  split
  · have hc : (4294967296 : UInt64).toNat = 4294967296 := rfl
    rw [UInt64.toNat_add, UInt32.toNat_toUInt64, hc]
    omega
  · simp

/-- `keyMismatch` unless the key has the signature's algorithm, key tag and (ignoring case)
signer name. -/
def checkKey (s : SigData) (k : DnsKey) : Except Error Unit :=
  if s.algorithm != k.algorithm || s.keyTag != k.keyTag || !s.signer.equivCase k.name then
    .error (.keyMismatch s.algorithm k.algorithm s.keyTag k.keyTag)
  else .ok ()

/-- `expired` after the expiration, else `notYetValid` before the inception. -/
def checkTime (s : SigData) (now : UInt64) : Except Error Unit :=
  if now > resolveTime s.expiration then .error (.expired (resolveTime s.expiration) now)
  else if now < resolveTime s.inception then .error (.notYetValid (resolveTime s.inception) now)
  else .ok ()

/-- Checks a DER signature over `data` with the primitive of a public key; `h` is the hash RSA
pads with (DSA always hashes with SHA-1, ECDSA with its curve's hash). -/
def PublicKey.verifyDer (pk : PublicKey) (h : HashFunction) (der data : Bytes) :
    Except Error Unit :=
  match pk with
  | .rsa n e => Rsa.verify n e h der data
  | .dsa p q g y => Dsa.verify p q g y der data
  | .ec c x y => Ecdsa.verify c x y der data

/-- The DER signature the primitive of a private key makes over `data`, with `h` as above. -/
def PrivateKey.signDer (pk : PrivateKey) (h : HashFunction) (data : Bytes) : Except Error Bytes :=
  match pk with
  | .rsa n _ d _ => Rsa.sign n d h data
  | .dsa p q g y x => Dsa.sign p q g y x data
  | .ec c d => Ecdsa.sign c d data

/-- Checks the wire signature `sig` over `data` with the key's algorithm and public key. -/
def verifySignature (data sig : Bytes) (k : DnsKey) : Except Error Unit := do
  let a ← Algorithm.ofNumber k.algorithm
  let pk ← k.toPublicKey
  let der ← pk.sigFormat.toDer sig
  pk.verifyDer a.hash der data

/-- The wire signature of `data` under the private key, hashing as algorithm `a` does. -/
def createSignature (data : Bytes) (a : Algorithm) (pk : PrivateKey) : Except Error Bytes := do
  let der ← pk.signDer a.hash data
  pk.sigFormat.ofDer der

/-- Verifies an RRSIG over an RRset with a key, as if the time were `now`. -/
def verifyAt (set : RRset) (sig : SigRecord) (k : DnsKey) (now : UInt64) : Except Error Unit := do
  checkKey sig.data k
  checkTime sig.data now
  if sig.data.typeCovered != set.rrType then throw .verificationFailed
  let data ← SignedData.rrset sig.data set
  verifySignature data sig.signature k

/-- The label count an RRSIG records for an owner: its labels, not counting a leading `*`. -/
def Name.signedLabels (n : Name) : UInt8 :=
  if n.isWildcard then (n.labelCount - 1).toUInt8 else n.labelCount.toUInt8

/-- Signs an RRset with the private half of key `k`, valid from `inception` to `expiration`. -/
def sign (set : RRset) (k : DnsKey) (pk : PrivateKey) (inception expiration : UInt32) :
    Except Error SigRecord := do
  let a ← pk.family.check k.algorithm
  let s : SigData := {
    name := set.name, typeCovered := set.rrType, algorithm := k.algorithm,
    labels := set.name.signedLabels, originalTtl := set.ttl, expiration, inception,
    keyTag := k.keyTag, signer := k.name }
  let data ← SignedData.rrset s set
  let signature ← createSignature data a pk
  pure ⟨s, signature⟩

/-- Signs a message with the private half of key `k`, chained after the signature `previous` if
given, and appends the SIG(0); returns the SIG and the signed message. -/
def Message.sign (m : Message) (k : DnsKey) (pk : PrivateKey) (inception expiration : UInt32)
    (previous : Option Bytes) : Except Error (SigRecord × Message) := do
  let a ← pk.family.check k.algorithm
  if m.signed.isSome then throw .malformedMessage
  let s : SigData := {
    name := Name.root, typeCovered := 0, algorithm := k.algorithm, labels := 0,
    originalTtl := 0, expiration, inception, keyTag := k.keyTag, signer := k.name }
  let signature ← createSignature (SignedData.message s m.wire previous) a pk
  let sig : SigRecord := ⟨s, signature⟩
  let m' ← m.append sig
  pure (sig, m')

/-- `Message.sign` in place, on the message the caller holds: the same steps, the SIG appended by
`Message.appendInPlace`. -/
def Message.signInPlace (k : DnsKey) (pk : PrivateKey) (inception expiration : UInt32)
    (previous : Option Bytes) : EStateM Error Message SigRecord := do
  let a ← liftExcept (pk.family.check k.algorithm)
  let m ← get
  if m.signed.isSome then throw .malformedMessage
  let s : SigData := {
    name := Name.root, typeCovered := 0, algorithm := k.algorithm, labels := 0,
    originalTtl := 0, expiration, inception, keyTag := k.keyTag, signer := k.name }
  let signature ← liftExcept (createSignature (SignedData.message s m.wire previous) a pk)
  let sig : SigRecord := ⟨s, signature⟩
  Message.appendInPlace sig
  pure sig

/-- Verifies the SIG(0) of a message with a key, chained after the signature `previous` if
given, as if the time were `now`. -/
def Message.verifyAt (m : Message) (k : DnsKey) (previous : Option Bytes) (now : UInt64) :
    Except Error Unit := do
  let some sig := m.signature | throw .noSignature
  checkKey sig.data k
  checkTime sig.data now
  let data ← SignedData.signedMessage sig.data m previous
  verifySignature data sig.signature k

/-- The DS digest of a key: the hash of its canonical owner name and its RDATA, fed to the hash
field by field (owner name, flags, protocol, algorithm, public key). -/
def DnsKey.dsDigest (k : DnsKey) (t : DigestType) : Bytes :=
  let ctx := (HashFunction.Context.new t.hash).update k.name.wire
  let ctx := ctx.update (Bytes.be16 k.flags)
  let ctx := ctx.update [k.protocol]
  let ctx := ctx.update [k.algorithm]
  (ctx.update k.publicKey).finish

/-- The DS record delegating to a key. -/
def DsRecord.ofKey (k : DnsKey) (t : DigestType) : DsRecord :=
  ⟨k.name, k.keyTag, k.algorithm, t.number, k.dsDigest t⟩

end Dnssec
