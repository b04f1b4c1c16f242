import Dnssec.Proofs.BigEndian
import Dnssec.Proofs.Name
import Dnssec.Proofs.CanonicalOrder
/-!
# `Dnssec.Proofs.SignedData` — what an RRSIG signs, exactly and unambiguously

RFC 4034 section 3.1.8.1 fixes the bytes an RRSIG signs: the RRSIG RDATA up to the signature,
then one record per distinct RDATA of the set, in canonical order, each written as
`signedRecord`: owner, type, class, original TTL, RDATA length, RDATA.  The owner is the set's
name, or the wildcard it was expanded from when the signature counts fewer labels.

* `SignedData.rrset_signedData` — `SignedData.rrset` is that layout, for every signature and
  every set: it fails with `verificationFailed` when the signature counts more labels than the
  owner has, with `malformedRRset` when an RDATA does not fit its 16-bit length, and otherwise
  returns the bytes above.  The signature header is the RRSIG (and SIG) RDATA up to the
  signature, and the result does not depend on the order of the records, on repeats, on the
  case of the owner or on the set's own TTL.
* `SignedData.rrset_unambiguous` — the layout is a code: equal signed data come from the same
  signature fields (the signer up to case), the same type, class and signed owner (up to case)
  and the same RDATAs.  This needs the names to be valid, so that the wire form of a name is
  self-delimiting, and the sets to be non-empty, as `RRset.make` builds them.

The decoding goes field by field: the fixed-width fields split off with `List.append_inj`, the
names with `Name.Valid.wire_append_inj`, and the records by induction on the RDATA list, each
RDATA behind its length.
-/

namespace Dnssec

/-- The signature header can be read back from the front of any byte string: its fixed-width
fields, and the signer up to case. -/
theorem SigData.header_append_inj {s₁ s₂ : SigData} {x₁ x₂ : Bytes} (hk₁ : s₁.signer.Valid)
    (hk₂ : s₂.signer.Valid) (h : s₁.header ++ x₁ = s₂.header ++ x₂) :
    s₁.typeCovered = s₂.typeCovered ∧ s₁.algorithm = s₂.algorithm ∧ s₁.labels = s₂.labels ∧
      s₁.originalTtl = s₂.originalTtl ∧ s₁.expiration = s₂.expiration ∧
      s₁.inception = s₂.inception ∧ s₁.keyTag = s₂.keyTag ∧
      s₁.signer.equivCase s₂.signer = true ∧ x₁ = x₂ := by
  simp only [SigData.header, List.append_assoc] at h
  obtain ⟨hty, h⟩ := List.append_inj h (by simp)
  obtain ⟨halg, h⟩ := List.append_inj h rfl
  obtain ⟨httl, h⟩ := List.append_inj h (by simp)
  obtain ⟨hexp, h⟩ := List.append_inj h (by simp)
  obtain ⟨hinc, h⟩ := List.append_inj h (by simp)
  obtain ⟨htag, h⟩ := List.append_inj h (by simp)
  obtain ⟨hsig, hx⟩ := hk₁.wire_append_inj hk₂ h
  simp only [List.cons.injEq, and_true] at halg
  exact ⟨Bytes.be16_inj hty, halg.1, halg.2, Bytes.be32_inj httl, Bytes.be32_inj hexp,
    Bytes.be32_inj hinc, Bytes.be16_inj htag, hsig, hx⟩

namespace SignedData

/-- One record of RRset signed data: the owner's canonical wire name, type, class, original TTL,
RDATA length and RDATA. -/
def signedRecord (owner : Name) (type cls : UInt16) (ttl : UInt32) (rdata : Bytes) : Bytes :=
  owner.wire ++ Bytes.be16 type ++ Bytes.be16 cls ++ Bytes.be32 ttl ++
    Bytes.be16 rdata.length.toUInt16 ++ rdata

theorem signedRecord_congr {o o' : Name} (h : o.wire = o'.wire) :
    signedRecord o = signedRecord o' := by
  funext type cls ttl rdata
  simp only [signedRecord, h]

theorem signedOwner_eq (name : Name) (labels : UInt8) :
    signedOwner name labels =
      if name.labelCount < labels.toNat then .error .verificationFailed
      else .ok (if labels.toNat = name.labelCount then name else name.wildcard labels.toNat) := by
  unfold signedOwner
  by_cases hlt : name.labelCount < labels.toNat
  · rw [if_pos hlt, if_pos hlt]
  · rw [if_neg hlt, if_neg hlt]
    by_cases heq : labels.toNat = name.labelCount
    · rw [if_pos heq, if_pos heq]
    · rw [if_neg heq, if_neg heq]

theorem signedOwner_valid {name o : Name} {labels : UInt8} (hn : name.Valid)
    (h : signedOwner name labels = .ok o) : o.Valid := by
  rw [signedOwner_eq] at h
  by_cases hlt : name.labelCount < labels.toNat
  · simp [hlt] at h
  · simp only [hlt, if_false, Except.ok.injEq] at h
    subst h
    by_cases heq : labels.toNat = name.labelCount
    · rw [if_pos heq]
      exact hn
    · rw [if_neg heq]
      exact hn.wildcard (by omega)

theorem rrset_eq (s : SigData) (set : RRset) :
    rrset s set =
      match signedOwner set.name s.labels with
      | .error e => .error e
      | .ok o =>
        if ∃ r ∈ canonicalRdatas set.records, 65535 < r.length then .error .malformedRRset
        else .ok (s.header ++
          (canonicalRdatas set.records).flatMap (signedRecord o set.rrType set.rrClass
            s.originalTtl)) := by
  simp only [rrset]
  cases signedOwner set.name s.labels with
  | error e => rfl
  | ok o =>
    by_cases hlong : ∃ r ∈ canonicalRdatas set.records, 65535 < r.length
    · have hany : (canonicalRdatas set.records).any (·.length > 65535) = true := by
        simpa using hlong
      simp only [hlong, if_true, hany]
      rfl
    · have hany : (canonicalRdatas set.records).any (·.length > 65535) = false := by
        simpa using hlong
      simp only [hlong, if_false, hany]
      rfl

theorem rrset_eq_ok {s : SigData} {set : RRset} {d : Bytes} (h : rrset s set = .ok d) :
    ∃ o, signedOwner set.name s.labels = .ok o ∧
      (∀ r ∈ canonicalRdatas set.records, r.length ≤ 65535) ∧
      d = s.header ++ (canonicalRdatas set.records).flatMap
        (signedRecord o set.rrType set.rrClass s.originalTtl) := by
  rw [rrset_eq] at h
  cases ho : signedOwner set.name s.labels with
  | error e => simp [ho] at h
  | ok o =>
    simp only [ho] at h
    by_cases hlong : ∃ r ∈ canonicalRdatas set.records, 65535 < r.length
    · simp [hlong] at h
    · simp only [hlong, if_false, Except.ok.injEq] at h
      refine ⟨o, rfl, fun r hr => ?_, h.symm⟩
      by_contra hr'
      exact hlong ⟨r, hr, by omega⟩

/-- Two sets with the same type, class and RDATAs, whose signed owners have one wire form,
have the same signed data. -/
theorem rrset_congr {s : SigData} {set set' : RRset} {o o' : Name}
    (ho : signedOwner set.name s.labels = .ok o) (ho' : signedOwner set'.name s.labels = .ok o')
    (hwire : o'.wire = o.wire) (htype : set'.rrType = set.rrType)
    (hcls : set'.rrClass = set.rrClass)
    (hrdata : ∀ r, r ∈ set'.records.map Record.rdata ↔ r ∈ set.records.map Record.rdata) :
    rrset s set' = rrset s set := by
  simp only [rrset_eq, ho, ho']
  rw [canonicalRdatas_congr hrdata, htype, hcls, signedRecord_congr hwire]

/-- The RRset signed data is RFC 4034's layout over the distinct RDATAs in ascending order. -/
theorem rrset_eq_of_sorted (s : SigData) (set : RRset) {R : List Bytes}
    (hsorted : R.Pairwise (· < ·)) (hmem : ∀ r, r ∈ R ↔ r ∈ set.records.map Record.rdata) :
    rrset s set =
      if set.name.labelCount < s.labels.toNat then .error .verificationFailed
      else if ∃ r ∈ R, 65535 < r.length then .error .malformedRRset
      else .ok (s.header ++ R.flatMap (signedRecord
        (if s.labels.toNat = set.name.labelCount then set.name
          else set.name.wildcard s.labels.toNat)
        set.rrType set.rrClass s.originalTtl)) := by
  rw [rrset_eq, signedOwner_eq, canonicalRdatas_eq hsorted hmem]
  by_cases hlt : set.name.labelCount < s.labels.toNat
  · simp only [hlt, if_true]
  · simp only [hlt, if_false]

/-- The signed data of an RRset is the RRSIG RDATA up to the signature followed by RFC 4034's
records, over the distinct RDATAs in ascending order; the RRSIG and SIG records of those fields
have that header in front of their signature; and the result does not change when the records
are reordered or repeated, the owner's case changes, or the set has another TTL. -/
theorem rrset_signedData (s : SigData) (set : RRset) :
    (∀ R : List Bytes, R.Pairwise (· < ·) →
      (∀ r, r ∈ R ↔ r ∈ set.records.map Record.rdata) →
      rrset s set =
        if set.name.labelCount < s.labels.toNat then .error .verificationFailed
        else if ∃ r ∈ R, 65535 < r.length then .error .malformedRRset
        else .ok (s.header ++ R.flatMap (signedRecord
          (if s.labels.toNat = set.name.labelCount then set.name
            else set.name.wildcard s.labels.toNat)
          set.rrType set.rrClass s.originalTtl))) ∧
    (∀ signature : Bytes, (Record.rrsig ⟨s, signature⟩).rdata = s.header ++ signature ∧
      (Record.sig ⟨s, signature⟩).rdata = s.header ++ signature) ∧
    (∀ set' : RRset, set'.rrType = set.rrType → set'.rrClass = set.rrClass →
      set'.name.equivCase set.name = true →
      (∀ r, r ∈ set'.records.map Record.rdata ↔ r ∈ set.records.map Record.rdata) →
      rrset s set' = rrset s set) := by
  refine ⟨fun R hsorted hmem => rrset_eq_of_sorted s set hsorted hmem,
    fun signature => ⟨rfl, rfl⟩, ?_⟩
  intro set' htype hcls hname hrdata
  have hcount := Name.labelCount_eq_of_equivCase hname
  -- the signed owners agree ignoring case: both are the names, or both their wildcards
  have howner : (if s.labels.toNat = set'.name.labelCount then set'.name
      else set'.name.wildcard s.labels.toNat).wire =
      (if s.labels.toNat = set.name.labelCount then set.name
        else set.name.wildcard s.labels.toNat).wire := by
    rw [hcount]
    split
    · exact Name.wire_eq_of_equivCase hname
    · exact Name.wire_eq_of_equivCase (Name.equivCase_wildcard hname _)
  have hsorted := pairwise_canonicalRdatas set.records
  rw [rrset_eq_of_sorted s set' hsorted (fun r => by rw [mem_canonicalRdatas, hrdata]),
    rrset_eq_of_sorted s set hsorted (fun r => mem_canonicalRdatas), signedRecord_congr howner,
    hcount, htype, hcls]

theorem rrset_signedData_txt :
    rrset ⟨⟨[[0x65, 0x78]]⟩, 16, 8, 1, 3600, 0, 0, 1, ⟨[[0x65, 0x78]]⟩⟩
        ⟨⟨[[0x45, 0x58]]⟩, 16, 1, 60,
          [.txt ⟨[[0x45, 0x58]]⟩ [0x62], .txt ⟨[[0x45, 0x58]]⟩ [0x61],
            .txt ⟨[[0x45, 0x58]]⟩ [0x62]]⟩ =
      rrset ⟨⟨[[0x65, 0x78]]⟩, 16, 8, 1, 3600, 0, 0, 1, ⟨[[0x65, 0x78]]⟩⟩
        ⟨⟨[[0x65, 0x78]]⟩, 16, 1, 3600,
          [.txt ⟨[[0x65, 0x78]]⟩ [0x61], .txt ⟨[[0x65, 0x78]]⟩ [0x62]]⟩ :=
  (rrset_signedData _ _).2.2 _ rfl rfl (by decide)
    (fun r => by simp only [List.map, Record.rdata, List.mem_cons, List.not_mem_nil]; tauto)

theorem signedRecord_ne_nil (o : Name) (type cls : UInt16) (ttl : UInt32) (rdata : Bytes) :
    signedRecord o type cls ttl rdata ≠ [] := by
  simp [signedRecord, Name.wire_eq]

/-- A record of the signed data can be read back from the front of any byte string: the owner
up to case, the fixed-width fields, and the RDATA behind its length. -/
theorem signedRecord_append_inj {o₁ o₂ : Name} {t₁ t₂ c₁ c₂ : UInt16} {l₁ l₂ : UInt32}
    {r₁ r₂ x₁ x₂ : Bytes} (ho₁ : o₁.Valid) (ho₂ : o₂.Valid) (hr₁ : r₁.length ≤ 65535)
    (hr₂ : r₂.length ≤ 65535)
    (h : signedRecord o₁ t₁ c₁ l₁ r₁ ++ x₁ = signedRecord o₂ t₂ c₂ l₂ r₂ ++ x₂) :
    o₁.equivCase o₂ = true ∧ t₁ = t₂ ∧ c₁ = c₂ ∧ l₁ = l₂ ∧ r₁ = r₂ ∧ x₁ = x₂ := by
  simp only [signedRecord, List.append_assoc] at h
  obtain ⟨ho, h⟩ := ho₁.wire_append_inj ho₂ h
  obtain ⟨ht, h⟩ := List.append_inj h (by simp)
  obtain ⟨hc, h⟩ := List.append_inj h (by simp)
  obtain ⟨hl, h⟩ := List.append_inj h (by simp)
  obtain ⟨hlen, h⟩ := List.append_inj h (by simp)
  -- the length field holds the RDATA length itself, as it fits in 16 bits
  have hr : r₁.length = r₂.length := by
    have := congrArg UInt16.toNat (Bytes.be16_inj hlen)
    simp only [Nat.toUInt16_eq, UInt16.toNat_ofNat'] at this
    omega
  obtain ⟨rfl, rfl⟩ := List.append_inj h hr
  exact ⟨ho, Bytes.be16_inj ht, Bytes.be16_inj hc, Bytes.be32_inj hl, rfl, rfl⟩

theorem flatMap_signedRecord_inj {o : Name} {t c : UInt16} {l : UInt32} {R₁ R₂ : List Bytes}
    (ho : o.Valid) (hR₁ : ∀ r ∈ R₁, r.length ≤ 65535) (hR₂ : ∀ r ∈ R₂, r.length ≤ 65535)
    (h : R₁.flatMap (signedRecord o t c l) = R₂.flatMap (signedRecord o t c l)) : R₁ = R₂ := by
  induction R₁ generalizing R₂ with
  | nil =>
    cases R₂ with
    | nil => rfl
    | cons r R₂ => simp [signedRecord_ne_nil] at h
  | cons r₁ R₁ ih =>
    cases R₂ with
    | nil => simp [signedRecord_ne_nil] at h
    | cons r₂ R₂ =>
      rw [List.flatMap_cons, List.flatMap_cons] at h
      obtain ⟨-, -, -, -, rfl, htail⟩ := signedRecord_append_inj ho ho
        (hR₁ r₁ List.mem_cons_self) (hR₂ r₂ List.mem_cons_self) h
      rw [ih (fun r hr => hR₁ r (List.mem_cons_of_mem _ hr))
        (fun r hr => hR₂ r (List.mem_cons_of_mem _ hr)) htail]

/-- Equal RRset signed data determine the signature fields but the owner, the signer up to case,
the set's type and class, its signed owner up to case, and its RDATAs. -/
theorem rrset_unambiguous {s₁ s₂ : SigData} {A B : RRset} {d : Bytes}
    (hk₁ : s₁.signer.Valid) (hk₂ : s₂.signer.Valid) (hA : A.name.Valid) (hB : B.name.Valid)
    (hA' : A.records ≠ []) (hB' : B.records ≠ [])
    (h₁ : rrset s₁ A = .ok d) (h₂ : rrset s₂ B = .ok d) :
    s₁.typeCovered = s₂.typeCovered ∧ s₁.algorithm = s₂.algorithm ∧ s₁.labels = s₂.labels ∧
      s₁.originalTtl = s₂.originalTtl ∧ s₁.expiration = s₂.expiration ∧
      s₁.inception = s₂.inception ∧ s₁.keyTag = s₂.keyTag ∧
      s₁.signer.equivCase s₂.signer = true ∧
      A.rrType = B.rrType ∧ A.rrClass = B.rrClass ∧
      (∃ o₁ o₂, signedOwner A.name s₁.labels = .ok o₁ ∧ signedOwner B.name s₂.labels = .ok o₂ ∧
        o₁.equivCase o₂ = true) ∧
      ∀ r, r ∈ A.records.map Record.rdata ↔ r ∈ B.records.map Record.rdata := by
  obtain ⟨o₁, ho₁, hlen₁, rfl⟩ := rrset_eq_ok h₁
  obtain ⟨o₂, ho₂, hlen₂, hd⟩ := rrset_eq_ok h₂
  have hv₁ := signedOwner_valid hA ho₁
  have hv₂ := signedOwner_valid hB ho₂
  obtain ⟨hty, halg, hlab, httl, hexp, hinc, htag, hsig, hrecords⟩ :=
    SigData.header_append_inj hk₁ hk₂ hd
  -- the first records agree on owner, type and class, so every record has one prefix
  obtain ⟨r₁, R₁, hR₁⟩ := List.exists_cons_of_ne_nil (canonicalRdatas_ne_nil hA')
  obtain ⟨r₂, R₂, hR₂⟩ := List.exists_cons_of_ne_nil (canonicalRdatas_ne_nil hB')
  have hr₁ : r₁.length ≤ 65535 := hlen₁ r₁ (by rw [hR₁]; exact List.mem_cons_self)
  have hr₂ : r₂.length ≤ 65535 := hlen₂ r₂ (by rw [hR₂]; exact List.mem_cons_self)
  have hfirst := hrecords
  rw [hR₁, hR₂, List.flatMap_cons, List.flatMap_cons] at hfirst
  obtain ⟨hown, htype, hcls, -, -, -⟩ := signedRecord_append_inj hv₁ hv₂ hr₁ hr₂ hfirst
  rw [signedRecord_congr (Name.wire_eq_of_equivCase hown), ← htype, ← hcls, ← httl] at hrecords
  have hrdatas := flatMap_signedRecord_inj hv₂ hlen₁ hlen₂ hrecords
  refine ⟨hty, halg, hlab, httl, hexp, hinc, htag, hsig, htype, hcls, ⟨o₁, o₂, ho₁, ho₂, hown⟩,
    fun r => ?_⟩
  rw [← mem_canonicalRdatas, hrdatas, mem_canonicalRdatas]

theorem rrset_unambiguous_owner :
    ∃ o₁ o₂, signedOwner ⟨[[0x45, 0x58]]⟩ 1 = .ok o₁ ∧ signedOwner ⟨[[0x65, 0x78]]⟩ 1 = .ok o₂ ∧
      o₁.equivCase o₂ = true := by
  -- two signatures differing in their owner and the signer's case, over two sets differing in
  -- the owner's case and the TTL, sign the same data
  have h₁ : rrset ⟨⟨[[0x61]]⟩, 1, 8, 1, 3600, 0, 0, 1, ⟨[[0x65, 0x78]]⟩⟩
      ⟨⟨[[0x45, 0x58]]⟩, 1, 1, 60, [.raw ⟨[[0x45, 0x58]]⟩ 1 1 [10, 0, 0, 1]]⟩ =
      .ok (SigData.header ⟨⟨[[0x61]]⟩, 1, 8, 1, 3600, 0, 0, 1, ⟨[[0x65, 0x78]]⟩⟩ ++
        signedRecord ⟨[[0x65, 0x78]]⟩ 1 1 3600 [10, 0, 0, 1]) := by
    decide +kernel
  have h₂ : rrset ⟨⟨[[0x62]]⟩, 1, 8, 1, 3600, 0, 0, 1, ⟨[[0x45, 0x58]]⟩⟩
      ⟨⟨[[0x65, 0x78]]⟩, 1, 1, 3600, [.raw ⟨[[0x65, 0x78]]⟩ 1 1 [10, 0, 0, 1]]⟩ =
      .ok (SigData.header ⟨⟨[[0x61]]⟩, 1, 8, 1, 3600, 0, 0, 1, ⟨[[0x65, 0x78]]⟩⟩ ++
        signedRecord ⟨[[0x65, 0x78]]⟩ 1 1 3600 [10, 0, 0, 1]) := by
    decide +kernel
  obtain ⟨-, -, -, -, -, -, -, -, -, -, howner, -⟩ := rrset_unambiguous
    (by decide +kernel) (by decide +kernel) (by decide +kernel)
    (by decide +kernel) (by simp) (by simp) h₁ h₂
  exact howner

end SignedData

end Dnssec
