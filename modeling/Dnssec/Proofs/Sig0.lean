import Dnssec.Proofs.Signing
/-!
# `Dnssec.Proofs.Sig0` — a SIG(0) made by `Message.sign` verifies

`Message.sign` signs the message as it stands, chained after a previous signature if one is
given, and appends the SIG record as the last additional record, one more in ARCOUNT.  The
verifier has only the signed message: it takes ARCOUNT back down by one and cuts the wire where
the SIG starts.  `signedMessage_append` says that this gives back exactly the data that was
signed, for every message: the header splits around its ARCOUNT word
(`exists_arcount_split`), `setArcount` rewrites only that word, and the word reads back as
written (`Bytes.word16At_be16`, `Bytes.be16_word16`).

* `Message.sign_sig0_verifyAt` — the SIG carries the SIG(0) fields, sits where the message used to
  end, is what `Message.received` finds again on the wire, and verifies within its validity
  period under the same chaining.
-/

namespace Dnssec

theorem setArcount_append {pre : Bytes} (hpre : pre.length = arcountOffset) (x y : UInt8)
    (rest : Bytes) (v : UInt16) :
    setArcount (pre ++ x :: y :: rest) v = pre ++ Bytes.be16 v ++ rest := by
  have hheader : headerLen = pre.length + 2 := by rw [hpre]; rfl
  rw [setArcount, ← hpre, hheader, List.take_left' rfl, List.drop_append,
    List.drop_eq_nil_of_le (by omega), Nat.add_sub_cancel_left, List.nil_append,
    List.drop_succ_cons, List.drop_succ_cons, List.drop_zero]

theorem exists_arcount_split {wire : Bytes} (h : headerLen ≤ wire.length) :
    ∃ pre x y rest, wire = pre ++ x :: y :: rest ∧ pre.length = arcountOffset := by
  have h10 : arcountOffset < wire.length := by simp only [headerLen, arcountOffset] at *; omega
  have h11 : arcountOffset + 1 < wire.length := by simp only [headerLen, arcountOffset] at *; omega
  refine ⟨wire.take arcountOffset, wire[arcountOffset], wire[arcountOffset + 1],
    wire.drop (arcountOffset + 2), ?_, by simp; omega⟩
  rw [← List.drop_eq_getElem_cons h11, ← List.drop_eq_getElem_cons h10, List.take_append_drop]

namespace Message

/-- What `append` did: the message was unsigned with ARCOUNT below its maximum, and now has the
SIG record at its old end and ARCOUNT one higher. -/
theorem append_eq_ok {m m' : Message} {sig : SigRecord} (h : m.append sig = .ok m') :
    m.signed = none ∧ m.arcount ≠ 0xffff ∧
      m'.wire = setArcount m.wire (m.arcount + 1) ++ sigRecordWire sig sig.rdata ∧
      m'.signed = some (m.wire.length, sig) := by
  unfold append at h
  split_ifs at h with hsigned hlong harc
  cases h
  exact ⟨by simpa using hsigned, harc, rfl, rfl⟩

theorem sigStart_bounds {m : Message} {start : Nat} (h : m.sigStart = some start) :
    headerLen ≤ start ∧ start ≤ m.wire.length := by
  obtain ⟨p, hp, rfl⟩ := Option.map_eq_some_iff.1 h
  exact m.start_ok p hp

theorem ext {m m' : Message} (hw : m.wire = m'.wire) (hs : m.signed = m'.signed) : m = m' := by
  cases m
  cases m'
  cases hw
  cases hs
  rfl

/-- What `received` rebuilds at a signed message's SIG offset, from any wire as long as the
message's (the message's own, or one tampered with byte by byte) and with any SIG: a message of
that wire, signed at that offset. -/
theorem received_of_length {m : Message} {start : Nat} (h : m.sigStart = some start)
    {wire : Bytes} (hlen : wire.length = m.wire.length) (sig : SigRecord) :
    ∃ r, received wire start sig = .ok r ∧ r.wire = wire ∧ r.signed = some (start, sig) := by
  obtain ⟨hstart, hend⟩ := sigStart_bounds h
  rw [received, dif_pos ⟨hlen ▸ m.header_le, hstart, hlen ▸ hend⟩]
  exact ⟨_, rfl, rfl, rfl⟩

theorem received_of_signed {m : Message} {start : Nat} {sig : SigRecord}
    (h : m.signed = some (start, sig)) : received m.wire start sig = .ok m := by
  have hstart : m.sigStart = some start := by simp [sigStart, h]
  obtain ⟨r, hr, hw, hs⟩ := received_of_length hstart rfl sig
  rw [hr, ext hw (hs.trans h.symm)]

end Message

/-- The data a SIG(0) appended to a message covers is the data it was made over: the verifier's
ARCOUNT, one less, and its cut at the SIG give back the message as it was signed. -/
theorem signedMessage_append {m m' : Message} {sig : SigRecord} (s : SigData)
    (previous : Option Bytes) (h : m.append sig = .ok m') :
    SignedData.signedMessage s m' previous = .ok (SignedData.message s m.wire previous) := by
  obtain ⟨-, harc, hwire, hsigned⟩ := Message.append_eq_ok h
  obtain ⟨pre, x, y, rest, hsplit, hpre⟩ := exists_arcount_split m.header_le
  have hold : m.arcount = (x.toUInt16 <<< 8) ||| y.toUInt16 := by
    rw [Message.arcount, hsplit, ← hpre, Bytes.word16At_append]
  have hbumped : setArcount m.wire (m.arcount + 1) = pre ++ Bytes.be16 (m.arcount + 1) ++ rest := by
    rw [hsplit, setArcount_append hpre]
  have hnew : m'.arcount = m.arcount + 1 := by
    rw [Message.arcount, hwire, hbumped, ← hpre, List.append_assoc (pre ++ _),
      Bytes.word16At_be16]
  have hne : m'.arcount ≠ 0 := by
    rw [hnew]
    intro h0
    apply harc
    apply UInt16.toNat_inj.1
    have := congrArg UInt16.toNat h0
    simp only [UInt16.toNat_add] at this
    have := m.arcount.toNat_lt
    simp only [UInt16.toNat_ofNat] at *
    omega
  have hbody : (pre ++ Bytes.be16 (m.arcount + 1)).length = headerLen := by
    simp [hpre, headerLen, arcountOffset]
  -- the verifier cuts the header and the records before the SIG back out of the wire
  have htake : m'.wire.take headerLen = pre ++ Bytes.be16 (m.arcount + 1) := by
    rw [hwire, hbumped, List.append_assoc, List.take_left' hbody]
  have hcut : (m'.wire.take m.wire.length).drop headerLen = rest := by
    rw [hwire, List.take_left' (length_setArcount _ _ m.header_le), hbumped,
      List.drop_left' hbody]
  -- and puts the old ARCOUNT back into the header
  have hrestore : setArcount (pre ++ Bytes.be16 (m.arcount + 1)) (m'.arcount - 1) ++ rest =
      m.wire := by
    obtain ⟨x', y', hxy⟩ : ∃ x' y', Bytes.be16 (m.arcount + 1) = [x', y'] := ⟨_, _, rfl⟩
    rw [hxy, setArcount_append hpre, hnew, UInt16.add_sub_cancel, hold, Bytes.be16_word16,
      hsplit]
    simp
  simp only [SignedData.signedMessage, Message.sigStart, hsigned, Option.map_some, hne,
    if_false, htake, hcut, SignedData.message, List.append_assoc, hrestore]

/-- The fields `Message.sign` fills in for a key: the root owner and zero type, labels and TTL of
a SIG(0). -/
def SigData.forMessage (k : DnsKey) (inception expiration : UInt32) : SigData :=
  { name := Name.root, typeCovered := 0, algorithm := k.algorithm, labels := 0, originalTtl := 0,
    expiration, inception, keyTag := k.keyTag, signer := k.name }

theorem Message.sign_eq_ok {m m' : Message} {k : DnsKey} {sk : PrivateKey}
    {inception expiration : UInt32} {previous : Option Bytes} {sig : SigRecord}
    (h : m.sign k sk inception expiration previous = .ok (sig, m')) :
    ∃ a signature, sk.family.check k.algorithm = .ok a ∧
      createSignature (SignedData.message (SigData.forMessage k inception expiration) m.wire
        previous) a sk = .ok signature ∧
      sig = ⟨SigData.forMessage k inception expiration, signature⟩ ∧ m.append sig = .ok m' := by
  simp only [Message.sign] at h
  obtain ⟨a, ha, h⟩ := Except.bind_eq_ok.1 h
  split at h
  · contradiction
  · obtain ⟨signature, hsig, h⟩ := Except.bind_eq_ok.1 h
    obtain ⟨m'', happend, h⟩ := Except.bind_eq_ok.1 h
    cases h
    exact ⟨a, signature, ha, hsig, rfl, happend⟩

/-- Signing a message with SIG(0) and verifying it: the SIG has the root owner, zero type, labels
and TTL, and the key's algorithm, tag and owner; it is the message's signature, starting where
the message used to end; the signed message is what `received` rebuilds from its wire; and
throughout the validity period it verifies with the key, chained after the same previous
signature. -/
theorem Message.sign_sig0_verifyAt {m m' : Message} {k : DnsKey} {sk : PrivateKey}
    {pub : PublicKey} {inception expiration : UInt32} {previous : Option Bytes} {sig : SigRecord}
    (hsound : sk.Sound) (hpub : sk.publicKey = .ok pub)
    (henc : pub.encode k.algorithm = .ok k.publicKey)
    (h : m.sign k sk inception expiration previous = .ok (sig, m')) :
    m'.signature = some sig ∧ m'.sigStart = some m.wire.length ∧
      sig.data.name = Name.root ∧ sig.data.typeCovered = 0 ∧ sig.data.labels = 0 ∧
      sig.data.originalTtl = 0 ∧ sig.data.algorithm = k.algorithm ∧
      sig.data.keyTag = k.keyTag ∧ sig.data.signer = k.name ∧
      sig.data.expiration = expiration ∧ sig.data.inception = inception ∧
      Message.received m'.wire m.wire.length sig = .ok m' ∧
      ∀ now, resolveTime inception ≤ now → now ≤ resolveTime expiration →
        m'.verifyAt k previous now = .ok () := by
  obtain ⟨a, signature, hcheck, hcreate, rfl, happend⟩ := Message.sign_eq_ok h
  obtain ⟨-, -, -, hsigned⟩ := Message.append_eq_ok happend
  have hsignature : m'.signature = some ⟨SigData.forMessage k inception expiration, signature⟩ := by
    simp [Message.signature, hsigned]
  refine ⟨hsignature, by simp [Message.sigStart, hsigned], rfl, rfl, rfl, rfl, rfl, rfl, rfl, rfl,
    rfl, Message.received_of_signed hsigned, ?_⟩
  intro now hinc hexp
  have hkey : checkKey (SigData.forMessage k inception expiration) k = .ok () :=
    checkKey_of_eq rfl rfl (Name.equivCase_refl k.name)
  have htime : checkTime (SigData.forMessage k inception expiration) now = .ok () :=
    checkTime_of_le hinc hexp
  simp only [Message.verifyAt, hsignature, hkey, htime, Except.ok_bind,
    signedMessage_append _ previous happend]
  exact verifySignature_createSignature hsound hpub henc hcheck hcreate

/-- A message signed with the example key, chained after a previous signature, verifies as sent
and as received. -/
theorem Message.sign_sig0_verifyAt_chained :
    ∃ sig m', Message.sign ⟨[0xab, 0xcd, 0x01, 0x00, 0, 1, 0, 0, 0, 0, 0, 0], none, by decide,
        by simp⟩ ⟨⟨[[0x65, 0x78]]⟩, 512, 3, 8,
          (PublicKey.rsa Rsa.examplePrimes.prod 1379511467).field?.getD []⟩
        (.rsa Rsa.examplePrimes.prod 1379511467 3 Rsa.examplePrimes) 1700000000 1800000000
        (some [1, 2, 3]) = .ok (sig, m') ∧
      Message.received m'.wire 12 sig = .ok m' ∧
      m'.verifyAt ⟨⟨[[0x65, 0x78]]⟩, 512, 3, 8,
          (PublicKey.rsa Rsa.examplePrimes.prod 1379511467).field?.getD []⟩
        (some [1, 2, 3]) 1750000000 = .ok () := by
  have hok : (Message.sign ⟨[0xab, 0xcd, 0x01, 0x00, 0, 1, 0, 0, 0, 0, 0, 0], none, by decide,
      by simp⟩ ⟨⟨[[0x65, 0x78]]⟩, 512, 3, 8,
        (PublicKey.rsa Rsa.examplePrimes.prod 1379511467).field?.getD []⟩
      (.rsa Rsa.examplePrimes.prod 1379511467 3 Rsa.examplePrimes) 1700000000 1800000000
      (some [1, 2, 3])).isOk = true := by
    decide +kernel
  obtain ⟨⟨sig, m'⟩, hsign⟩ := Except.exists_eq_ok_of_isOk hok
  obtain ⟨-, -, -, -, -, -, -, -, -, -, -, hreceived, hverify⟩ := Message.sign_sig0_verifyAt
    (PrivateKey.sound_rsa Rsa.examplePrimes_valid) rfl (by decide +kernel) hsign
  exact ⟨sig, m', hsign, hreceived, hverify 1750000000 (by decide) (by decide)⟩

end Dnssec
