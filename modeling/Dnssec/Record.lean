import Dnssec.Name

/-!
# `Dnssec.Record` — resource records and their canonical RDATA

The records that signing and verification consume: TXT, DNSKEY, DS, RRSIG and SIG, and a
raw record whose RDATA is given already in canonical form.  A record has an owner name, a type,
a class and RDATA; RDATA are written here only in the canonical form of RFC 4034 section 6.2,
which is what digests and key tags are computed over.

* `txtRdata` — text split into character-strings of at most 255 bytes, each behind its length.
* `DnsKey.rdata`, `DnsKey.keyTag` — the DNSKEY layout and the key tag of RFC 4034 Appendix B.
* `SigData.header` — the RRSIG/SIG RDATA before the signature field.
-/

namespace Dnssec

/-- The class IN. -/
def classIn : UInt16 := 1

/-- The class ANY, the class of SIG(0) records. -/
def classAny : UInt16 := 255

/-- TXT RDATA: the data cut into character-strings of 255 bytes, the last one shorter, each
behind its length byte; empty data is a single empty character-string. -/
def txtRdata (data : Bytes) : Bytes :=
  if data.length ≤ 255 then data.length.toUInt8 :: data
  else 255 :: (data.take 255 ++ txtRdata (data.drop 255))
termination_by data.length
decreasing_by simp only [List.length_drop]; omega

@[simp] theorem txtRdata_nil : txtRdata [] = [0] := by
  simp [txtRdata]

/-- A DNSKEY (or KEY) record. -/
structure DnsKey where
  name : Name
  flags : UInt16
  protocol : UInt8
  algorithm : UInt8
  /-- The public key in its algorithm's DNS encoding. -/
  publicKey : Bytes
  deriving DecidableEq, Repr

namespace DnsKey

/-- The canonical RDATA: flags, protocol, algorithm, public key. -/
def rdata (k : DnsKey) : Bytes :=
  Bytes.be16 k.flags ++ [k.protocol, k.algorithm] ++ k.publicKey

/-- The key tag sum in 32 bits, added up field by field: the flags, the protocol as a high byte,
the algorithm, then the key bytes, those at even positions of the key as high bytes and the
others as low bytes. -/
def tagSum (k : DnsKey) : UInt32 :=
  k.publicKey.zipIdx.foldl (fun acc (b, i) =>
      acc + if i % 2 = 0 then b.toUInt32 <<< 8 else b.toUInt32)
    (k.flags.toUInt32 + (k.protocol.toUInt32 <<< 8) + k.algorithm.toUInt32)

/-- The key tag.  RSA/MD5 keys (algorithm 1) take the third- and second-last bytes of the key
field (RFC 4034 Appendix B.1), and zero when it is shorter; the others fold the carries of the
tag sum into its low 16 bits. -/
def keyTag (k : DnsKey) : UInt16 :=
  if k.algorithm = 1 then
    let n := k.publicKey.length
    if n < 3 then 0 else k.publicKey.word16At (n - 3)
  else
    let ac := k.tagSum
    (ac + ((ac >>> 16) &&& 0xffff)).toUInt16

end DnsKey

/-- A DS record. -/
structure DsRecord where
  name : Name
  keyTag : UInt16
  algorithm : UInt8
  digestType : UInt8
  digest : Bytes
  deriving DecidableEq, Repr

/-- The canonical RDATA: key tag, algorithm, digest type, digest. -/
def DsRecord.rdata (d : DsRecord) : Bytes :=
  Bytes.be16 d.keyTag ++ [d.algorithm, d.digestType] ++ d.digest

/-- The fields of an RRSIG or SIG record that its signature covers. -/
structure SigData where
  /-- The owner of the record. -/
  name : Name
  /-- The type covered (zero for SIG(0)). -/
  typeCovered : UInt16
  algorithm : UInt8
  /-- The label count of the signed owner, without the root and a leading `*`. -/
  labels : UInt8
  originalTtl : UInt32
  expiration : UInt32
  inception : UInt32
  keyTag : UInt16
  /-- The owner of the signing key. -/
  signer : Name
  deriving DecidableEq, Repr

/-- The RDATA of an RRSIG or SIG record up to its signature: type covered, algorithm, labels,
original TTL, expiration, inception, key tag, and the signer's canonical wire name. -/
def SigData.header (s : SigData) : Bytes :=
  Bytes.be16 s.typeCovered ++ [s.algorithm, s.labels] ++ Bytes.be32 s.originalTtl ++
    Bytes.be32 s.expiration ++ Bytes.be32 s.inception ++ Bytes.be16 s.keyTag ++ s.signer.wire

/-- Signed fields with their signature: an RRSIG or SIG record's content. -/
structure SigRecord where
  data : SigData
  /-- The signature in DNS wire form. -/
  signature : Bytes
  deriving DecidableEq, Repr

/-- The canonical RDATA: the header, then the signature. -/
def SigRecord.rdata (r : SigRecord) : Bytes := r.data.header ++ r.signature

/-- A resource record. -/
inductive Record
  | txt (name : Name) (data : Bytes)
  | dnskey (key : DnsKey)
  | ds (ds : DsRecord)
  /-- A record of any type and class with RDATA given in canonical form. -/
  | raw (name : Name) (rrType rrClass : UInt16) (data : Bytes)
  /-- An RRSIG record (type 46, class IN). -/
  | rrsig (sig : SigRecord)
  /-- A SIG record (type 24, class ANY). -/
  | sig (sig : SigRecord)
  deriving DecidableEq, Repr

namespace Record

/-- The owner name. -/
def name : Record → Name
  | txt n _ => n
  | dnskey k => k.name
  | ds d => d.name
  | raw n _ _ _ => n
  | rrsig s => s.data.name
  | sig s => s.data.name

/-- The type number. -/
def rrType : Record → UInt16
  | txt .. => 16
  | dnskey _ => 48
  | ds _ => 43
  | raw _ t _ _ => t
  | rrsig _ => 46
  | sig _ => 24

/-- The class number. -/
def rrClass : Record → UInt16
  | raw _ _ c _ => c
  | sig _ => classAny
  | _ => classIn

/-- The canonical RDATA. -/
def rdata : Record → Bytes
  | txt _ d => txtRdata d
  | dnskey k => k.rdata
  | ds d => d.rdata
  | raw _ _ _ d => d
  | rrsig s => s.rdata
  | sig s => s.rdata

end Record

end Dnssec
