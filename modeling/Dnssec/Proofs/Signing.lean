import Dnssec.Proofs.SignedData
import Dnssec.Proofs.SigFormat
import Dnssec.Proofs.KeyField
import Dnssec.Proofs.Rsa
/-!
# `Dnssec.Proofs.Signing` — an RRSIG made by `sign` verifies

`sign` fills in the RRSIG fields, signs the RRset signed data with the private key and writes
the signature for the wire; `verifyAt` checks the key and the time, rebuilds the signed data from
the RRset it is given and checks the signature with the DNSKEY's public key.  The primitives are
trusted for one thing, `PrivateKey.Sound`: what the private key signs, its public half verifies.
Under that, and with the DNSKEY holding the public half written for its own algorithm:

* `verifySignature_createSignature` — the signature verifies over the data it was made for: the
  DNSKEY decodes to the public half (`DnsKey.toPublicKey_of_encode`), and the wire signature goes
  back to DER with the values the verifier reads (`PublicKey.verifyDer_toDer_ofDer`);
* `sign_verifyAt` — an RRSIG verifies, within its validity period, for every RRset with the same
  type, class and RDATAs whose owner it matches (`Name.Matches`): the owner ignoring case, or
  any expansion of a wildcard owner.  The signed data agree because the signed owners do
  (`signedOwner_signedLabels`).

`PrivateKey.sound_rsa` discharges the trust for RSA: a multi-prime key is sound.
-/

namespace Dnssec

/-- What the signature primitives are trusted for, for a private key: every DER signature it makes
over some data verifies, for the same hash, under its public half, and the public point of an
ECDSA key lies on its curve. -/
structure PrivateKey.Sound (sk : PrivateKey) : Prop where
  verify_signDer : ∀ pub hf data der, sk.publicKey = .ok pub → sk.signDer hf data = .ok der →
    pub.verifyDer hf der data = .ok ()
  onCurve : ∀ c x y, sk.publicKey = .ok (.ec c x y) → c.onCurve x y = true

namespace PrivateKey

theorem sigFormat_publicKey {sk : PrivateKey} {pub : PublicKey} (h : sk.publicKey = .ok pub) :
    pub.sigFormat = sk.sigFormat := by
  cases sk with
  | rsa n e d primes =>
    cases h
    rfl
  | dsa p q g y x =>
    cases h
    rfl
  | ec c d =>
    simp only [publicKey] at h
    split at h
    · contradiction
    · split at h
      · cases h
        rfl
      · contradiction

/-- A multi-prime RSA key is sound: `Rsa.verify` accepts what `Rsa.sign` makes. -/
theorem sound_rsa {n e d : ℕ} {primes : List ℕ} (h : Rsa.ValidKey n e d primes) :
    (rsa n e d primes).Sound where
  verify_signDer pub hf data der hpub hsign := by
    cases hpub
    exact Rsa.verify_sign h.checkPublic_ok h.pow_modEq hsign
  onCurve c x y hpub := by cases hpub

end PrivateKey

/-- A signature made with a sound private key verifies with a DNSKEY holding its public half,
written for the key's algorithm. -/
theorem verifySignature_createSignature {sk : PrivateKey} {pub : PublicKey} {k : DnsKey}
    {a : Algorithm} {data sig : Bytes} (hsound : sk.Sound) (hpub : sk.publicKey = .ok pub)
    (henc : pub.encode k.algorithm = .ok k.publicKey) (hcheck : sk.family.check k.algorithm = .ok a)
    (h : createSignature data a sk = .ok sig) : verifySignature data sig k = .ok () := by
  obtain ⟨hnum, -⟩ := KeyFamily.check_eq_ok.1 hcheck
  have hkey : k.toPublicKey = .ok pub :=
    DnsKey.toPublicKey_of_encode henc fun c x y hxy => hsound.onCurve c x y (hxy ▸ hpub)
  obtain ⟨der, hder, hwire⟩ := Except.bind_eq_ok.1 h
  rw [← PrivateKey.sigFormat_publicKey hpub] at hwire
  obtain ⟨der', hder', hsame⟩ := pub.verifyDer_toDer_ofDer a.hash data hwire
  simp only [verifySignature, hnum, hkey, hder', Except.ok_bind]
  rw [hsame]
  exact hsound.verify_signDer pub a.hash data der hpub hder

/-- The owners the RRSIG of an RRset named `n` verifies for: `n` itself ignoring case, and, when
`n` is a wildcard `*.W`, every name of more labels than `W` whose last labels are `W` ignoring
case (RFC 4035, section 5.3.2). -/
def Name.Matches (o n : Name) : Prop :=
  o.equivCase n = true ∨
    (n.isWildcard = true ∧ n.labelCount - 1 < o.labelCount ∧
      o.canonicalLabels.drop (o.labelCount - (n.labelCount - 1)) = n.canonicalLabels.tail)

instance (o n : Name) : Decidable (o.Matches n) := inferInstanceAs (Decidable (_ ∨ _))

theorem Name.labelCount_pos_of_isWildcard {n : Name} (h : n.isWildcard = true) :
    0 < n.labelCount := by
  obtain ⟨_ | ⟨l, L⟩⟩ := n
  · simp [isWildcard] at h
  · simp [labelCount]

theorem Name.toNat_signedLabels {n : Name} (hn : n.Valid) :
    n.signedLabels.toNat = if n.isWildcard then n.labelCount - 1 else n.labelCount := by
  have hcount := hn.labelCount_le
  unfold signedLabels
  split
  · exact Nat.toNat_toUInt8_of_lt (by omega)
  · exact Nat.toNat_toUInt8_of_lt (by omega)

/-- Every owner an RRSIG of a valid owner matches has a signed owner with the wire form of the
signer's: the owner itself ignoring case, or both wildcards over the same labels. -/
theorem signedOwner_signedLabels {n o : Name} (hn : n.Valid) (hm : o.Matches n) :
    ∃ on oo, SignedData.signedOwner n n.signedLabels = .ok on ∧
      SignedData.signedOwner o n.signedLabels = .ok oo ∧ oo.wire = on.wire := by
  rw [SignedData.signedOwner_eq, SignedData.signedOwner_eq, Name.toNat_signedLabels hn]
  by_cases hw : n.isWildcard = true
  · have hpos := Name.labelCount_pos_of_isWildcard hw
    simp only [hw, if_true]
    -- both ways of matching leave `o` more labels than the `*` covers
    have hlt : n.labelCount - 1 < o.labelCount := by
      rcases hm with hcase | ⟨-, hlt, -⟩
      · rw [Name.labelCount_eq_of_equivCase hcase]
        omega
      · exact hlt
    refine ⟨n.wildcard (n.labelCount - 1), o.wildcard (n.labelCount - 1), ?_, ?_, ?_⟩
    · rw [if_neg (by omega), if_neg (by omega)]
    · rw [if_neg (by omega), if_neg (by omega)]
    · apply Name.wire_eq_of_equivCase
      rcases hm with hcase | ⟨-, -, hdrop⟩
      · exact Name.equivCase_wildcard hcase _
      · -- the wildcard of `o` keeps the labels it shares with `n` after the `*`
        rw [Name.equivCase_iff, Name.canonicalLabels_wildcard, Name.canonicalLabels_wildcard,
          hdrop, Nat.sub_sub_self hpos, List.drop_one]
  · have hnw : n.isWildcard = false := by simpa using hw
    simp only [hnw, Bool.false_eq_true, if_false]
    rcases hm with hcase | ⟨hw', -, -⟩
    · have hc := Name.labelCount_eq_of_equivCase hcase
      refine ⟨n, o, ?_, ?_, Name.wire_eq_of_equivCase hcase⟩
      · simp
      · simp [hc]
    · exact absurd hw' hw

theorem checkKey_of_eq {s : SigData} {k : DnsKey} (halg : s.algorithm = k.algorithm)
    (htag : s.keyTag = k.keyTag) (hsigner : s.signer.equivCase k.name = true) :
    checkKey s k = .ok () := by
  simp [checkKey, halg, htag, hsigner]

theorem checkTime_of_le {s : SigData} {now : UInt64} (hinc : resolveTime s.inception ≤ now)
    (hexp : now ≤ resolveTime s.expiration) : checkTime s now = .ok () := by
  rw [UInt64.le_iff_toNat_le] at hinc hexp
  simp only [checkTime, gt_iff_lt, UInt64.lt_iff_toNat_lt]
  rw [if_neg (by omega), if_neg (by omega)]

/-- The fields `sign` fills in for an RRset and a key. -/
def SigData.forRRset (set : RRset) (k : DnsKey) (inception expiration : UInt32) : SigData :=
  { name := set.name, typeCovered := set.rrType, algorithm := k.algorithm,
    labels := set.name.signedLabels, originalTtl := set.ttl, expiration, inception,
    keyTag := k.keyTag, signer := k.name }

theorem sign_eq_ok {set : RRset} {k : DnsKey} {sk : PrivateKey} {inception expiration : UInt32}
    {sig : SigRecord} (h : sign set k sk inception expiration = .ok sig) :
    ∃ a data signature, sk.family.check k.algorithm = .ok a ∧
      SignedData.rrset (SigData.forRRset set k inception expiration) set = .ok data ∧
      createSignature data a sk = .ok signature ∧
      sig = ⟨SigData.forRRset set k inception expiration, signature⟩ := by
  simp only [sign] at h
  obtain ⟨a, ha, h⟩ := Except.bind_eq_ok.1 h
  obtain ⟨data, hdata, h⟩ := Except.bind_eq_ok.1 h
  obtain ⟨signature, hsig, h⟩ := Except.bind_eq_ok.1 h
  cases h
  exact ⟨a, data, signature, ha, hdata, hsig, rfl⟩

/-- The `T` in front of a DSA signature is the one in front of the key field. -/
theorem head_createSignature_dsa {p q g y x : ℕ} {k : DnsKey} {a : Algorithm} {data sig : Bytes}
    (henc : (PublicKey.dsa p q g y).encode k.algorithm = .ok k.publicKey)
    (h : createSignature data a (.dsa p q g y x) = .ok sig) : sig.head? = k.publicKey.head? := by
  obtain ⟨-, hfield⟩ := PublicKey.encode_eq_ok.1 henc
  obtain ⟨der, -, hwire⟩ := Except.bind_eq_ok.1 h
  rw [SigFormat.head_ofDer_dsa hwire, PublicKey.head_field_dsa hfield]

/-- Signing an RRset and verifying: the RRSIG carries the set's owner, type and TTL, the key's
algorithm, tag and owner, the validity period and the owner's label count (less a leading `*`);
a DSA signature starts with the key's `T`; and throughout the validity period the signature
verifies with the key over every set of the same type, class and RDATAs whose owner it matches,
with any TTL. -/
theorem sign_verifyAt {set : RRset} {k : DnsKey} {sk : PrivateKey} {pub : PublicKey}
    {inception expiration : UInt32} {sig : SigRecord} (hname : set.name.Valid)
    (hsound : sk.Sound) (hpub : sk.publicKey = .ok pub)
    (henc : pub.encode k.algorithm = .ok k.publicKey)
    (h : sign set k sk inception expiration = .ok sig) :
    sig.data.name = set.name ∧ sig.data.typeCovered = set.rrType ∧
      sig.data.algorithm = k.algorithm ∧
      sig.data.labels.toNat =
        (if set.name.isWildcard then set.name.labelCount - 1 else set.name.labelCount) ∧
      sig.data.originalTtl = set.ttl ∧ sig.data.keyTag = k.keyTag ∧ sig.data.signer = k.name ∧
      sig.data.expiration = expiration ∧ sig.data.inception = inception ∧
      (sk.family = .dsa → sig.signature.head? = k.publicKey.head?) ∧
      ∀ now, resolveTime inception ≤ now → now ≤ resolveTime expiration →
        ∀ set' : RRset, set'.rrType = set.rrType → set'.rrClass = set.rrClass →
          (∀ r, r ∈ set'.records.map Record.rdata ↔ r ∈ set.records.map Record.rdata) →
          set'.name.Matches set.name → verifyAt set' sig k now = .ok () := by
  obtain ⟨a, data, signature, hcheck, hdata, hcreate, rfl⟩ := sign_eq_ok h
  refine ⟨rfl, rfl, rfl, Name.toNat_signedLabels hname, rfl, rfl, rfl, rfl, rfl, ?_, ?_⟩
  · intro hfam
    cases sk with
    | dsa p q g y x =>
      cases hpub
      exact head_createSignature_dsa henc hcreate
    | rsa => cases hfam
    | ec => cases hfam
  · intro now hinc hexp set' htype hcls hrdata hmatch
    obtain ⟨on, oo, hon, hoo, hwire⟩ := signedOwner_signedLabels hname hmatch
    have hrrset := SignedData.rrset_congr (s := SigData.forRRset set k inception expiration) hon hoo
      hwire htype hcls hrdata
    have hkey : checkKey (SigData.forRRset set k inception expiration) k = .ok () :=
      checkKey_of_eq rfl rfl (Name.equivCase_refl k.name)
    have htime : checkTime (SigData.forRRset set k inception expiration) now = .ok () :=
      checkTime_of_le hinc hexp
    have htype' : (SigData.forRRset set k inception expiration).typeCovered = set'.rrType :=
      htype.symm
    simp only [verifyAt, hkey, htime, htype', bne_self_eq_false, Bool.false_eq_true, if_false,
      hrrset, hdata, Except.ok_bind]
    exact verifySignature_createSignature hsound hpub henc hcheck hcreate

/-- A wildcard RRset signed with the example key verifies for a name the wildcard expands to, in
another case and with another TTL. -/
theorem sign_verifyAt_wildcard :
    ∃ sig, sign ⟨⟨[[0x2a], [0x65, 0x78]]⟩, 16, 1, 300, [.txt ⟨[[0x2a], [0x65, 0x78]]⟩ [0x61]]⟩
        ⟨⟨[[0x65, 0x78]]⟩, 256, 3, 8,
          (PublicKey.rsa Rsa.examplePrimes.prod 1379511467).field?.getD []⟩
        (.rsa Rsa.examplePrimes.prod 1379511467 3 Rsa.examplePrimes) 1700000000 1800000000 =
        .ok sig ∧
      verifyAt ⟨⟨[[0x77, 0x77, 0x77], [0x45, 0x58]]⟩, 16, 1, 60,
          [.txt ⟨[[0x77, 0x77, 0x77], [0x45, 0x58]]⟩ [0x61]]⟩ sig
        ⟨⟨[[0x65, 0x78]]⟩, 256, 3, 8,
          (PublicKey.rsa Rsa.examplePrimes.prod 1379511467).field?.getD []⟩ 1750000000 =
        .ok () := by
  have hok : (sign ⟨⟨[[0x2a], [0x65, 0x78]]⟩, 16, 1, 300, [.txt ⟨[[0x2a], [0x65, 0x78]]⟩ [0x61]]⟩
      ⟨⟨[[0x65, 0x78]]⟩, 256, 3, 8,
        (PublicKey.rsa Rsa.examplePrimes.prod 1379511467).field?.getD []⟩
      (.rsa Rsa.examplePrimes.prod 1379511467 3 Rsa.examplePrimes) 1700000000
        1800000000).isOk = true := by
    decide +kernel
  obtain ⟨sig, hsig⟩ := Except.exists_eq_ok_of_isOk hok
  obtain ⟨-, -, -, -, -, -, -, -, -, -, hverify⟩ := sign_verifyAt (by decide +kernel)
    (PrivateKey.sound_rsa Rsa.examplePrimes_valid) rfl (by decide +kernel) hsig
  exact ⟨sig, hsig, hverify 1750000000 (by decide) (by decide) _ rfl rfl (fun _ => Iff.rfl)
    (by decide)⟩

end Dnssec
