import Dnssec.RRset
import Dnssec.Message

/-!
# `Dnssec.SignedData` — the bytes a signature is computed over

* `SignedData.rrset` — RFC 4034 section 3.1.8.1: the RRSIG RDATA up to its signature, then each
  distinct canonical RDATA of the set in ascending byte order, each behind the owner (replaced by
  the wildcard it was expanded from when it has more labels than the signature counts), type,
  class, original TTL and RDATA length.
* `SignedData.message` — RFC 2931 section 3.1: the SIG RDATA up to its signature, the previous
  signature when messages are chained, and the message before the SIG was appended.
* `SignedData.signedMessage` — the same bytes, recovered by the verifier from the signed message:
  ARCOUNT one lower and everything from the SIG on removed.
-/

namespace Dnssec

/-- Lexicographic order on byte strings, a proper prefix first. -/
def Bytes.lexLe : Bytes → Bytes → Bool
  | [], _ => true
  | _ :: _, [] => false
  | a :: as, b :: bs => a < b || (a == b && Bytes.lexLe as bs)

/-- A sorted list without adjacent repeats. -/
def dedupSorted : List Bytes → List Bytes
  | a :: b :: rest => if a = b then dedupSorted (b :: rest) else a :: dedupSorted (b :: rest)
  | l => l

namespace SignedData

/-- The distinct canonical RDATAs of the records, in ascending order. -/
def canonicalRdatas (records : List Record) : List Bytes :=
  dedupSorted ((records.map Record.rdata).mergeSort Bytes.lexLe)

/-- The owner a signature with `labels` labels was made over: the name itself, or the wildcard
keeping its last `labels` labels; `verificationFailed` when the name has fewer labels. -/
def signedOwner (name : Name) (labels : UInt8) : Except Error Name :=
  if labels.toNat > name.labelCount then .error .verificationFailed
  else if labels.toNat = name.labelCount then .ok name
  else .ok (name.wildcard labels.toNat)

/-- The data an RRSIG with fields `s` signs over `set`; `malformedRRset` when an RDATA is longer
than 65535 bytes. -/
def rrset (s : SigData) (set : RRset) : Except Error Bytes := do
  let rdatas := canonicalRdatas set.records
  let owner ← signedOwner set.name s.labels
  let header := owner.wire ++ Bytes.be16 set.rrType ++ Bytes.be16 set.rrClass ++
    Bytes.be32 s.originalTtl
  if rdatas.any (·.length > 65535) then throw .malformedRRset
  pure (s.header ++ rdatas.flatMap fun r => header ++ Bytes.be16 r.length.toUInt16 ++ r)

/-- The data a SIG(0) with fields `s` signs over the unsigned `message`, chained after the
signature `previous` if given. -/
def message (s : SigData) (message : Bytes) (previous : Option Bytes) : Bytes :=
  s.header ++ previous.getD [] ++ message

/-- The data the SIG(0) of a signed message was made over, with fields `s`:
`noSignature` for an unsigned message, `malformedMessage` when ARCOUNT is zero. -/
def signedMessage (s : SigData) (m : Message) (previous : Option Bytes) : Except Error Bytes :=
  match m.sigStart with
  | none => .error .noSignature
  | some start =>
    if m.arcount = 0 then .error .malformedMessage
    else
      let header := setArcount (m.wire.take headerLen) (m.arcount - 1)
      .ok (s.header ++ previous.getD [] ++ header ++ (m.wire.take start).drop headerLen)

end SignedData

end Dnssec
