import Dnssec.Validation
import Dnssec.Proofs.Name
/-!
# `Dnssec.Proofs.DsRecord` — the DS record of a key

RFC 4034 section 5.1.4 defines the DS digest as the hash of the key's canonical owner name
followed by its DNSKEY RDATA.  `DnsKey.dsDigest` does not build that RDATA: it feeds the owner's
wire form and then each field of the key to a streaming hash on its own.  The two agree because
the stream hashes the concatenation of what it is fed, in order, and the fields are fed in the
order and widths of `DnsKey.rdata` (`dsDigest_eq`).  Since the owner enters only through its
wire form, the digest does not see the owner's ASCII case (`dsDigest_congr`).

`DsRecord.ofKey_digest` states this together with the fields of the DS record built for a key and
the record's canonical RDATA.
-/

namespace Dnssec

namespace DnsKey

/-- Feeding the owner name and then the key's fields one by one hashes the owner name followed by
the DNSKEY RDATA. -/
theorem dsDigest_eq (k : DnsKey) (t : DigestType) :
    k.dsDigest t = t.hash.digest (k.name.wire ++ k.rdata) := by
  unfold dsDigest
  rw [HashFunction.Context.finish_eq]
  simp only [HashFunction.Context.hash_update, HashFunction.Context.hash_new,
    HashFunction.Context.absorbed_update, HashFunction.Context.absorbed_new, List.nil_append]
  -- the stream holds the owner, flags, protocol, algorithm and key, in the order of `rdata`
  have hfed : k.name.wire ++ Bytes.be16 k.flags ++ [k.protocol] ++ [k.algorithm] ++ k.publicKey =
      k.name.wire ++ k.rdata := by
    simp only [rdata, List.append_assoc, List.cons_append, List.nil_append]
  rw [hfed]

/-- The DS digest sees the owner name only ignoring ASCII case. -/
theorem dsDigest_congr (k : DnsKey) (t : DigestType) {n : Name} (h : n.equivCase k.name = true) :
    { k with name := n }.dsDigest t = k.dsDigest t := by
  rw [dsDigest_eq, dsDigest_eq]
  have hwire : n.wire = k.name.wire := Name.wire_eq_of_equivCase h
  simp only [rdata, hwire]

end DnsKey

/-- The digest a DS record carries for a key is the hash, by the digest type's function, of the
key's canonical owner name followed by the key's DNSKEY RDATA, so it does not depend on the case
of the owner.  The DS record names the key's owner, key tag and algorithm and the digest type's
number (1 for SHA-1, 2 for SHA-256, 4 for SHA-384); its canonical RDATA is the key tag in two
bytes, the algorithm, the digest type and the digest. -/
theorem DsRecord.ofKey_digest (k : DnsKey) (t : DigestType) :
    k.dsDigest t = t.hash.digest (k.name.wire ++ (Record.dnskey k).rdata) ∧
    (∀ n : Name, n.equivCase k.name = true → { k with name := n }.dsDigest t = k.dsDigest t) ∧
    DsRecord.ofKey k t = ⟨k.name, k.keyTag, k.algorithm, t.number, k.dsDigest t⟩ ∧
    (t.hash, t.number) ∈ [(HashFunction.sha1, 1), (.sha256, 2), (.sha384, 4)] ∧
    (Record.ds (DsRecord.ofKey k t)).rdata =
      Bytes.be16 k.keyTag ++ [k.algorithm, t.number] ++ k.dsDigest t := by
  refine ⟨DnsKey.dsDigest_eq k t, fun n hn => DnsKey.dsDigest_congr k t hn, rfl, ?_, rfl⟩
  cases t <;> simp [DigestType.hash, DigestType.number]

end Dnssec
