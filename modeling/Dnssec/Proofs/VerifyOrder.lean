import Dnssec.Proofs.KeyCodec
import Dnssec.Proofs.SignedData
/-!
# `Dnssec.Proofs.VerifyOrder` — the order in which verification refuses

`verifyAt` (an RRSIG over an RRset) and `Message.verifyAt` (a SIG(0) over a message) stop at the
first check that fails, and every check has an error of its own:

* `Message.verifyAt` first needs a SIG (`noSignature`);
* both then check that the key is the one the signature names (`keyMismatch`, with the
  signature's and the key's algorithm and tag) and that the time lies in the validity period,
  bounds included, with timestamps read the RFC 2065 way (`expired` first, then `notYetValid`,
  with the bound and the time): `DecidesKeyThenTime`;
* `verifyAt` then needs the covered type and at most the owner's labels (`verificationFailed`),
  and no RDATA over 65535 bytes (`malformedRRset`); `Message.verifyAt` needs a non-zero ARCOUNT
  (`malformedMessage`);
* both end with the signature check, `verifySignature`: the algorithm table, the key field, the
  wire length of the signature, the primitive's checks of the key, and its verdict:
  `DecidesSignature`.

`verify_checkOrder` puts these together.  The first refusals are exact: no later check raises
their errors (`Error.Early`).  The program's signature check has one more arm, `incompatibleKey`
for a key of another family than the algorithm; it is dead, since a field is decoded by its
algorithm's family into a key of that family (`PublicKey.family_decode`), and the model leaves it
out.
-/

namespace Dnssec

/-- The key is the one the signature names: its algorithm, its key tag and, ignoring case, its
owner. -/
def SigData.NamesKey (s : SigData) (k : DnsKey) : Prop :=
  s.algorithm = k.algorithm ∧ s.keyTag = k.keyTag ∧ s.signer.equivCase k.name = true

instance (s : SigData) (k : DnsKey) : Decidable (s.NamesKey k) :=
  inferInstanceAs (Decidable (_ ∧ _ ∧ _))

/-- The errors of the checks made before any signed data is built: a missing signature, another
key, a time outside the validity period. -/
def Error.Early : Error → Prop
  | .noSignature | .keyMismatch .. | .expired .. | .notYetValid .. => True
  | _ => False

/-- A run that raises none of the early errors. -/
def NoEarlyError {α : Type} (run : Except Error α) : Prop := ∀ e, run = .error e → ¬ e.Early

theorem NoEarlyError.bind {α β : Type} {x : Except Error α} {f : α → Except Error β}
    (hx : NoEarlyError x) (hf : ∀ a, NoEarlyError (f a)) : NoEarlyError (x >>= f) := by
  intro e h
  cases hxc : x with
  | error e' =>
    rw [hxc, Except.error_bind] at h
    rw [← Except.error.inj h]
    exact hx e' hxc
  | ok a =>
    rw [hxc, Except.ok_bind] at h
    exact hf a e h

theorem noEarlyError_ok {α : Type} (a : α) : NoEarlyError (.ok a : Except Error α) := by
  intro e h
  cases h

theorem noEarlyError_error {α : Type} {e : Error} (he : ¬ e.Early) :
    NoEarlyError (.error e : Except Error α) := by
  intro e' h
  cases h
  exact he

theorem noEarlyError_of_verdict {run : Except Error Unit}
    (h : run = .ok () ∨ run = .error .verificationFailed) : NoEarlyError run := by
  rcases h with rfl | rfl
  · exact noEarlyError_ok ()
  · exact noEarlyError_error id

theorem noEarlyError_ite {α : Type} {c : Prop} [Decidable c] {e : Error} (he : ¬ e.Early)
    {run : Except Error α} (hrun : NoEarlyError run) :
    NoEarlyError (if c then .error e else run) := by
  split_ifs
  · exact noEarlyError_error he
  · exact hrun

/-- How a verification `run` decides with the signed fields `s`, the key `k` and the time `now`:
`keyMismatch`, with the signature's and the key's algorithm and tag, exactly when `k` is not the
key `s` names; for the named key, `expired`, with the resolved expiration and `now`, exactly when
`now` is past the expiration; up to the expiration, `notYetValid`, with the resolved inception
and `now`, exactly when `now` is before the inception; and within the validity period, bounds
included, what the checks after these decide, `rest`. -/
structure DecidesKeyThenTime (run : Except Error Unit) (s : SigData) (k : DnsKey) (now : UInt64)
    (rest : Except Error Unit) : Prop where
  keyMismatch_iff :
    run = .error (.keyMismatch s.algorithm k.algorithm s.keyTag k.keyTag) ↔ ¬ s.NamesKey k
  expired_iff : s.NamesKey k →
    (run = .error (.expired (resolveTime s.expiration) now) ↔ resolveTime s.expiration < now)
  notYetValid_iff : s.NamesKey k → now ≤ resolveTime s.expiration →
    (run = .error (.notYetValid (resolveTime s.inception) now) ↔ now < resolveTime s.inception)
  eq_rest : s.NamesKey k → resolveTime s.inception ≤ now → now ≤ resolveTime s.expiration →
    run = rest

/-- How the check `run` of a wire signature `w` with the DNSKEY `k` decides, in order:
`unsupportedAlgorithm` for an algorithm outside the table; `malformedKey` for a key field the
algorithm's family cannot read; `verificationFailed` for a DSA signature that is not 41 bytes or
an ECDSA signature that is not twice the field width; the primitive's fault for an RSA key it
refuses, and its `signature` fault for a DSA group or public value it refuses; and past all of
these, success or `verificationFailed`, as the primitive decides. -/
structure DecidesSignature (run : Except Error Unit) (k : DnsKey) (w : Bytes) : Prop where
  unsupported : (∀ a : Algorithm, a.number ≠ k.algorithm) →
    run = .error (.unsupportedAlgorithm k.algorithm)
  malformedKey : (∃ a : Algorithm, a.number = k.algorithm) → (∀ pk, k.toPublicKey ≠ .ok pk) →
    run = .error .malformedKey
  dsa_length : ∀ p q g y, k.toPublicKey = .ok (.dsa p q g y) →
    w.length ≠ 1 + 2 * dsaHalfWidth → run = .error .verificationFailed
  ecdsa_length : ∀ c x y, k.toPublicKey = .ok (.ec c x y) →
    w.length ≠ 2 * c.width → run = .error .verificationFailed
  rsa_key : ∀ n e f, k.toPublicKey = .ok (.rsa n e) → Rsa.checkPublic n e = .error f →
    run = .error (.primitive f)
  dsa_key : ∀ p q g y, k.toPublicKey = .ok (.dsa p q g y) → w.length = 1 + 2 * dsaHalfWidth →
    Dsa.checkKey p q g y ≠ .ok () → run = .error (.primitive .signature)
  verdict : ∀ pk, k.toPublicKey = .ok pk →
    (∀ n e, pk = .rsa n e → Rsa.checkPublic n e = .ok ()) →
    (∀ p q g y, pk = .dsa p q g y →
      w.length = 1 + 2 * dsaHalfWidth ∧ Dsa.checkKey p q g y = .ok ()) →
    (∀ c x y, pk = .ec c x y → w.length = 2 * c.width) →
    run = .ok () ∨ run = .error .verificationFailed

/-! ## The key and the validity period -/

theorem checkKey_eq (s : SigData) (k : DnsKey) :
    checkKey s k =
      if s.NamesKey k then .ok ()
      else .error (.keyMismatch s.algorithm k.algorithm s.keyTag k.keyTag) := by
  unfold checkKey
  by_cases h : s.NamesKey k
  · obtain ⟨halg, htag, hname⟩ := h
    simp [SigData.NamesKey, halg, htag, hname]
  · rw [if_neg h, if_pos]
    simp only [SigData.NamesKey, not_and_or] at h
    simpa [bne_iff_ne, or_assoc] using h

theorem checkTime_eq (s : SigData) (now : UInt64) :
    checkTime s now =
      if resolveTime s.expiration < now then .error (.expired (resolveTime s.expiration) now)
      else if now < resolveTime s.inception then
        .error (.notYetValid (resolveTime s.inception) now)
      else .ok () := rfl

theorem decidesKeyThenTime_bind {s : SigData} {k : DnsKey} {now : UInt64}
    {rest : Except Error Unit} (hrest : NoEarlyError rest) :
    DecidesKeyThenTime (checkKey s k >>= fun _ => checkTime s now >>= fun _ => rest) s k now
      rest := by
  -- what comes after the time check is never one of its errors or the key check's
  have hne : ∀ e, e.Early → rest ≠ .error e := fun e he hr => hrest e hr he
  have hmis := hne (.keyMismatch s.algorithm k.algorithm s.keyTag k.keyTag) trivial
  have hexp := hne (.expired (resolveTime s.expiration) now) trivial
  have hinc := hne (.notYetValid (resolveTime s.inception) now) trivial
  rw [checkKey_eq, checkTime_eq]
  constructor
  · by_cases hkey : s.NamesKey k
    · simp only [hkey, if_true, not_true_eq_false, iff_false, Except.ok_bind]
      split_ifs <;> simp [hmis]
    · simp [hkey]
  · intro hkey
    simp only [hkey, if_true, Except.ok_bind]
    split_ifs with h₁ <;> simp [h₁, hexp]
  · intro hkey hle
    have hnot : ¬ resolveTime s.expiration < now := UInt64.not_lt.2 hle
    simp only [hkey, hnot, if_true, if_false, Except.ok_bind]
    split_ifs with h₂ <;> simp [h₂, hinc]
  · intro hkey hinc hexp
    have h₁ : ¬ resolveTime s.expiration < now := UInt64.not_lt.2 hexp
    have h₂ : ¬ now < resolveTime s.inception := UInt64.not_lt.2 hinc
    simp [hkey, h₁, h₂]

/-! ## The signature -/

theorem Rsa.verify_of_checkPublic_error {n e : Nat} {f : PrimitiveFault}
    (h : Rsa.checkPublic n e = .error f) (hf : HashFunction) (sig data : Bytes) :
    Rsa.verify n e hf sig data = .error (.primitive f) := by
  simp [Rsa.verify, h]

/-- Past its key checks, each primitive accepts or answers `verificationFailed`. -/
theorem Rsa.verify_verdict {n e : Nat} (h : Rsa.checkPublic n e = .ok ()) (hf : HashFunction)
    (sig data : Bytes) :
    Rsa.verify n e hf sig data = .ok () ∨
      Rsa.verify n e hf sig data = .error .verificationFailed := by
  simp only [Rsa.verify, h]
  split_ifs <;> simp

theorem Dsa.verify_of_checkKey_ne {p q g y : Nat} (h : Dsa.checkKey p q g y ≠ .ok ())
    (der data : Bytes) : Dsa.verify p q g y der data = .error (.primitive .signature) := by
  -- both refusals of the group and the public value are the primitive's `signature` fault
  have hk : Dsa.checkKey p q g y = .error (.primitive .signature) := by
    unfold Dsa.checkKey at h ⊢
    split_ifs at h ⊢ <;> simp_all
  simp [Dsa.verify, hk]

theorem Dsa.verify_verdict {p q g y : Nat} (h : Dsa.checkKey p q g y = .ok ()) (der data : Bytes) :
    Dsa.verify p q g y der data = .ok () ∨
      Dsa.verify p q g y der data = .error .verificationFailed := by
  simp only [Dsa.verify, h, Except.ok_bind]
  split
  · split_ifs
    · simp
    · split
      · split_ifs <;> simp
      · simp
  · simp

theorem Ecdsa.verify_verdict (c : Curve) (x y : Nat) (der data : Bytes) :
    Ecdsa.verify c x y der data = .ok () ∨
      Ecdsa.verify c x y der data = .error .verificationFailed := by
  simp only [Ecdsa.verify]
  split
  · split_ifs
    · simp
    · split
      · split
        · split_ifs <;> simp
        · simp
      · simp
  · simp

/-- Once the key field is read, the signature is checked by its wire length, then by the
primitive with the algorithm's hash. -/
theorem verifySignature_of_toPublicKey {k : DnsKey} {pk : PublicKey} (h : k.toPublicKey = .ok pk)
    (data w : Bytes) :
    ∃ a : Algorithm, a.number = k.algorithm ∧
      verifySignature data w k =
        pk.sigFormat.toDer w >>= fun der => pk.verifyDer a.hash der data := by
  obtain ⟨a, ha, -⟩ := DnsKey.toPublicKey_eq_ok.1 h
  refine ⟨a, Algorithm.ofNumber?_eq_some.1 ha, ?_⟩
  simp only [verifySignature, Algorithm.ofNumber, ha, h, Except.ok_bind]

theorem verifySignature_decides (data w : Bytes) (k : DnsKey) :
    DecidesSignature (verifySignature data w k) k w where
  unsupported h := by
    simp [verifySignature, Algorithm.ofNumber, Algorithm.ofNumber?_eq_none.2 h]
  malformedKey := by
    rintro ⟨a, ha⟩ hnone
    have hnum : Algorithm.ofNumber? k.algorithm = some a := Algorithm.ofNumber?_eq_some.2 ha
    -- the field does not decode by the family, else the DNSKEY would give a key
    have hdecode : PublicKey.decode a.family k.publicKey = none := by
      cases hd : PublicKey.decode a.family k.publicKey with
      | none => rfl
      | some pk => exact absurd (DnsKey.toPublicKey_eq_ok.2 ⟨a, hnum, hd⟩) (hnone pk)
    simp [verifySignature, DnsKey.toPublicKey, Algorithm.ofNumber, hnum, hdecode]
  dsa_length p q g y h hlen := by
    obtain ⟨a, -, hv⟩ := verifySignature_of_toPublicKey h data w
    simp [hv, PublicKey.sigFormat, SigFormat.toDer, hlen]
  ecdsa_length c x y h hlen := by
    obtain ⟨a, -, hv⟩ := verifySignature_of_toPublicKey h data w
    simp [hv, PublicKey.sigFormat, SigFormat.toDer, hlen]
  rsa_key n e f h hcheck := by
    obtain ⟨a, -, hv⟩ := verifySignature_of_toPublicKey h data w
    simp [hv, PublicKey.sigFormat, SigFormat.toDer, PublicKey.verifyDer,
      Rsa.verify_of_checkPublic_error hcheck]
  dsa_key p q g y h hlen hcheck := by
    obtain ⟨a, -, hv⟩ := verifySignature_of_toPublicKey h data w
    simp [hv, PublicKey.sigFormat, SigFormat.toDer, hlen, PublicKey.verifyDer,
      Dsa.verify_of_checkKey_ne hcheck]
  verdict pk h hrsa hdsa hec := by
    obtain ⟨a, -, hv⟩ := verifySignature_of_toPublicKey h data w
    rw [hv]
    cases pk with
    | rsa n e =>
      simpa [PublicKey.sigFormat, SigFormat.toDer, PublicKey.verifyDer] using
        Rsa.verify_verdict (hrsa n e rfl) a.hash w data
    | dsa p q g y =>
      obtain ⟨hlen, hcheck⟩ := hdsa p q g y rfl
      simpa [PublicKey.sigFormat, SigFormat.toDer, hlen, PublicKey.verifyDer] using
        Dsa.verify_verdict hcheck _ data
    | ec c x y =>
      simpa [PublicKey.sigFormat, SigFormat.toDer, hec c x y rfl, PublicKey.verifyDer] using
        Ecdsa.verify_verdict c x y _ data

theorem noEarlyError_verifyDer (pk : PublicKey) (hf : HashFunction) (der data : Bytes) :
    NoEarlyError (pk.verifyDer hf der data) := by
  cases pk with
  | rsa n e =>
    cases hc : Rsa.checkPublic n e with
    | error f =>
      rw [PublicKey.verifyDer, Rsa.verify_of_checkPublic_error hc]
      exact noEarlyError_error id
    | ok u => exact noEarlyError_of_verdict (Rsa.verify_verdict hc hf der data)
  | dsa p q g y =>
    by_cases hc : Dsa.checkKey p q g y = .ok ()
    · exact noEarlyError_of_verdict (Dsa.verify_verdict hc der data)
    · rw [PublicKey.verifyDer, Dsa.verify_of_checkKey_ne hc]
      exact noEarlyError_error id
  | ec c x y => exact noEarlyError_of_verdict (Ecdsa.verify_verdict c x y der data)

theorem noEarlyError_verifySignature (data w : Bytes) (k : DnsKey) :
    NoEarlyError (verifySignature data w k) := by
  have hnumber : ∀ n, NoEarlyError (Algorithm.ofNumber n) := by
    intro n
    unfold Algorithm.ofNumber
    split
    · exact noEarlyError_ok _
    · exact noEarlyError_error id
  have hkey : NoEarlyError k.toPublicKey := by
    refine (hnumber _).bind fun a => ?_
    split
    · exact noEarlyError_ok _
    · exact noEarlyError_error id
  have hwire : ∀ fmt : SigFormat, NoEarlyError (fmt.toDer w) := by
    intro fmt
    cases fmt with
    | rsa => exact noEarlyError_ok _
    | dsa t => exact noEarlyError_ite id (noEarlyError_ok _)
    | ecdsa c => exact noEarlyError_ite id (noEarlyError_ok _)
  exact (hnumber _).bind fun a => hkey.bind fun pk =>
    (hwire _).bind fun der => noEarlyError_verifyDer pk a.hash der data

/-! ## The RRset and the message -/

theorem SignedData.exists_long_canonicalRdatas (records : List Record) :
    (∃ r ∈ SignedData.canonicalRdatas records, 65535 < r.length) ↔
      ∃ r ∈ records, 65535 < r.rdata.length := by
  simp [SignedData.mem_canonicalRdatas]

theorem SignedData.noEarlyError_rrset (s : SigData) (set : RRset) :
    NoEarlyError (SignedData.rrset s set) := by
  rw [SignedData.rrset_eq]
  cases ho : SignedData.signedOwner set.name s.labels with
  | error e =>
    -- the signed owner refuses only with `verificationFailed`
    rw [SignedData.signedOwner_eq] at ho
    split_ifs at ho
    cases ho
    exact noEarlyError_error id
  | ok o => exact noEarlyError_ite id (noEarlyError_ok _)

theorem SignedData.rrset_exists_ok {s : SigData} {set : RRset}
    (hlabels : ¬ set.name.labelCount < s.labels.toNat)
    (hlong : ∀ r ∈ set.records, r.rdata.length ≤ 65535) :
    ∃ data, SignedData.rrset s set = .ok data := by
  have hshort : ¬ ∃ r ∈ SignedData.canonicalRdatas set.records, 65535 < r.length := by
    rw [SignedData.exists_long_canonicalRdatas]
    rintro ⟨r, hr, hlt⟩
    exact Nat.lt_irrefl _ (Nat.lt_of_le_of_lt (hlong r hr) hlt)
  rw [SignedData.rrset_eq, SignedData.signedOwner_eq, if_neg hlabels]
  simp only [if_neg hshort]
  exact ⟨_, rfl⟩

/-- `verifyAt` after its key and time checks, in terms of the RRset: the covered type and the
owner's labels, then the lengths of the RDATAs, then the signature over the signed data. -/
theorem verifyAt_eq (set : RRset) (sig : SigRecord) (k : DnsKey) (now : UInt64) :
    verifyAt set sig k now = checkKey sig.data k >>= fun _ => checkTime sig.data now >>= fun _ =>
      if sig.data.typeCovered ≠ set.rrType ∨ set.name.labelCount < sig.data.labels.toNat then
        .error .verificationFailed
      else if ∃ r ∈ set.records, 65535 < r.rdata.length then .error .malformedRRset
      else SignedData.rrset sig.data set >>= fun data => verifySignature data sig.signature k := by
  simp only [verifyAt]
  congr 1
  funext
  congr 1
  funext
  by_cases htype : sig.data.typeCovered = set.rrType
  case neg =>
    have hne : (sig.data.typeCovered != set.rrType) = true := bne_iff_ne.mpr htype
    rw [hne, if_pos rfl, if_pos (Or.inl htype)]
    rfl
  case pos =>
    have hne : (sig.data.typeCovered != set.rrType) = false := by simp [htype]
    rw [hne, if_neg Bool.false_ne_true]
    by_cases hlabels : set.name.labelCount < sig.data.labels.toNat
    · rw [if_pos (Or.inr hlabels), SignedData.rrset_eq, SignedData.signedOwner_eq, if_pos hlabels]
      rfl
    · rw [if_neg (by simp [htype, hlabels])]
      by_cases hlong : ∃ r ∈ set.records, 65535 < r.rdata.length
      · rw [if_pos hlong, SignedData.rrset_eq, SignedData.signedOwner_eq, if_neg hlabels]
        simp [SignedData.exists_long_canonicalRdatas, hlong]
      · rw [if_neg hlong]

theorem Message.sigStart_of_signature {m : Message} {s : SigRecord} (h : m.signature = some s) :
    ∃ start, m.sigStart = some start := by
  obtain ⟨⟨start, s'⟩, hsig, -⟩ := Option.map_eq_some_iff.1 h
  exact ⟨start, by simp [Message.sigStart, hsig]⟩

/-- `Message.verifyAt` on a signed message after its key and time checks: ARCOUNT, then the
signature over the rebuilt data. -/
theorem Message.verifyAt_eq {m : Message} {s : SigRecord} (hs : m.signature = some s) (k : DnsKey)
    (previous : Option Bytes) (now : UInt64) :
    m.verifyAt k previous now = checkKey s.data k >>= fun _ => checkTime s.data now >>= fun _ =>
      if m.arcount = 0 then .error .malformedMessage
      else SignedData.signedMessage s.data m previous >>= fun data =>
        verifySignature data s.signature k := by
  obtain ⟨start, hstart⟩ := Message.sigStart_of_signature hs
  simp only [Message.verifyAt, hs]
  congr 1
  funext
  congr 1
  funext
  by_cases harc : m.arcount = 0
  · simp [SignedData.signedMessage, hstart, harc]
  · simp only [harc, if_false]

theorem SignedData.noEarlyError_signedMessage {m : Message} {s : SigRecord}
    (hs : m.signature = some s) (d : SigData) (previous : Option Bytes) :
    NoEarlyError (SignedData.signedMessage d m previous) := by
  obtain ⟨start, hstart⟩ := Message.sigStart_of_signature hs
  simp only [SignedData.signedMessage, hstart]
  exact noEarlyError_ite id (noEarlyError_ok _)

theorem SignedData.signedMessage_exists_ok {m : Message} {s : SigRecord}
    (hs : m.signature = some s) (harc : m.arcount ≠ 0) (d : SigData) (previous : Option Bytes) :
    ∃ data, SignedData.signedMessage d m previous = .ok data := by
  obtain ⟨start, hstart⟩ := Message.sigStart_of_signature hs
  simp only [SignedData.signedMessage, hstart, if_neg harc]
  exact ⟨_, rfl⟩

/-- A SIG(0) verification refuses a message without a SIG as `noSignature`, and only such a
message: the checks after it never raise that error. -/
theorem Message.verifyAt_noSignature_iff (m : Message) (k : DnsKey) (previous : Option Bytes)
    (now : UInt64) : m.verifyAt k previous now = .error .noSignature ↔ m.signature = none := by
  cases hs : m.signature with
  | none => simp [Message.verifyAt, hs]
  | some s =>
    simp only [reduceCtorEq, iff_false]
    intro h
    rw [Message.verifyAt_eq hs, checkKey_eq, checkTime_eq] at h
    -- the key and time checks refuse with errors of their own, and the rest never raises
    -- `noSignature`
    split_ifs at h <;>
      simp only [Except.ok_bind, Except.error_bind, Except.error.injEq, reduceCtorEq] at h
    exact ((SignedData.noEarlyError_signedMessage hs s.data previous).bind fun data =>
      noEarlyError_verifySignature data s.signature k) _ h trivial

/-- The order in which `verifyAt` and `Message.verifyAt` refuse.  Timestamps are read the
RFC 2065 way, wrapping below 851472000.  Both verifications check the key, then the validity
period (`DecidesKeyThenTime`); an RRSIG then needs its covered type and at most the owner's
labels, and no RDATA over 65535 bytes, after which its signed data is built; a SIG(0) needs a
SIG, and only a message without one is refused as `noSignature`, then a non-zero ARCOUNT, after
which its signed data is built; both end with the signature check (`DecidesSignature`). -/
theorem verify_checkOrder (set : RRset) (sig : SigRecord) (m : Message) (k : DnsKey)
    (previous : Option Bytes) (now : UInt64) :
    (∀ t : UInt32,
      (resolveTime t).toNat = if t.toNat < 851472000 then t.toNat + 2 ^ 32 else t.toNat) ∧
    (DecidesKeyThenTime (verifyAt set sig k now) sig.data k now
        (if sig.data.typeCovered ≠ set.rrType ∨ set.name.labelCount < sig.data.labels.toNat then
          .error .verificationFailed
        else if ∃ r ∈ set.records, 65535 < r.rdata.length then .error .malformedRRset
        else SignedData.rrset sig.data set >>= fun data => verifySignature data sig.signature k) ∧
      (¬ set.name.labelCount < sig.data.labels.toNat →
        (∀ r ∈ set.records, r.rdata.length ≤ 65535) →
        ∃ data, SignedData.rrset sig.data set = .ok data)) ∧
    (m.verifyAt k previous now = .error .noSignature ↔ m.signature = none) ∧
    (∀ s, m.signature = some s →
      DecidesKeyThenTime (m.verifyAt k previous now) s.data k now
        (if m.arcount = 0 then .error .malformedMessage
        else SignedData.signedMessage s.data m previous >>= fun data =>
          verifySignature data s.signature k) ∧
      (m.arcount ≠ 0 → ∃ data, SignedData.signedMessage s.data m previous = .ok data)) ∧
    ∀ data w, DecidesSignature (verifySignature data w k) k w := by
  -- what follows the key and time checks never raises their errors, which makes the first
  -- refusals exact
  have hrrset : NoEarlyError (if sig.data.typeCovered ≠ set.rrType ∨
      set.name.labelCount < sig.data.labels.toNat then .error .verificationFailed
      else if ∃ r ∈ set.records, 65535 < r.rdata.length then .error .malformedRRset
      else SignedData.rrset sig.data set >>= fun data => verifySignature data sig.signature k) :=
    noEarlyError_ite id <| noEarlyError_ite id <| (SignedData.noEarlyError_rrset _ _).bind
      fun data => noEarlyError_verifySignature data _ k
  have hmessage : ∀ s, m.signature = some s → NoEarlyError (if m.arcount = 0 then
      .error .malformedMessage else SignedData.signedMessage s.data m previous >>= fun data =>
        verifySignature data s.signature k) := by
    intro s hs
    exact noEarlyError_ite id <| (SignedData.noEarlyError_signedMessage hs _ _).bind fun data =>
      noEarlyError_verifySignature data _ k
  refine ⟨fun t => ?_, ⟨?_, fun hlabels hlong => SignedData.rrset_exists_ok hlabels hlong⟩,
    Message.verifyAt_noSignature_iff m k previous now, fun s hs => ⟨?_, fun harc =>
      SignedData.signedMessage_exists_ok hs harc _ _⟩,
    fun data w => verifySignature_decides data w k⟩
  · rw [toNat_resolveTime]
    rfl
  · rw [verifyAt_eq]
    exact decidesKeyThenTime_bind hrrset
  · rw [Message.verifyAt_eq hs]
    exact decidesKeyThenTime_bind (hmessage s hs)

/-- An RRSIG with its validity period inverted is refused at every time: as expired from its
expiration on, and as not yet valid before it; and an unsigned message is refused for want of a
SIG. -/
theorem verify_checkOrder_inverted :
    verifyAt ⟨⟨[[0x65, 0x78]]⟩, 16, 1, 300, []⟩
        ⟨⟨⟨[[0x65, 0x78]]⟩, 16, 8, 1, 300, 1700000000, 1800000000,
          DnsKey.keyTag ⟨⟨[[0x65, 0x78]]⟩, 256, 3, 8, [1, 3, 0xc5]⟩, ⟨[[0x65, 0x78]]⟩⟩, []⟩
        ⟨⟨[[0x65, 0x78]]⟩, 256, 3, 8, [1, 3, 0xc5]⟩ 1750000000 =
      .error (.expired 1700000000 1750000000) ∧
    verifyAt ⟨⟨[[0x65, 0x78]]⟩, 16, 1, 300, []⟩
        ⟨⟨⟨[[0x65, 0x78]]⟩, 16, 8, 1, 300, 1700000000, 1800000000,
          DnsKey.keyTag ⟨⟨[[0x65, 0x78]]⟩, 256, 3, 8, [1, 3, 0xc5]⟩, ⟨[[0x65, 0x78]]⟩⟩, []⟩
        ⟨⟨[[0x65, 0x78]]⟩, 256, 3, 8, [1, 3, 0xc5]⟩ 1699999999 =
      .error (.notYetValid 1800000000 1699999999) ∧
    Message.verifyAt ⟨List.replicate 12 0, none, by decide, by simp⟩
        ⟨⟨[[0x65, 0x78]]⟩, 256, 3, 8, [1, 3, 0xc5]⟩ none 1750000000 = .error .noSignature := by
  have hnames : SigData.NamesKey
      ⟨⟨[[0x65, 0x78]]⟩, 16, 8, 1, 300, 1700000000, 1800000000,
        DnsKey.keyTag ⟨⟨[[0x65, 0x78]]⟩, 256, 3, 8, [1, 3, 0xc5]⟩, ⟨[[0x65, 0x78]]⟩⟩
      ⟨⟨[[0x65, 0x78]]⟩, 256, 3, 8, [1, 3, 0xc5]⟩ := by
    decide +kernel
  have hexp : resolveTime 1700000000 = 1700000000 := by decide +kernel
  have hinc : resolveTime 1800000000 = 1800000000 := by decide +kernel
  obtain ⟨-, ⟨hlate, -⟩, hnone, -⟩ := verify_checkOrder ⟨⟨[[0x65, 0x78]]⟩, 16, 1, 300, []⟩
    ⟨⟨⟨[[0x65, 0x78]]⟩, 16, 8, 1, 300, 1700000000, 1800000000,
      DnsKey.keyTag ⟨⟨[[0x65, 0x78]]⟩, 256, 3, 8, [1, 3, 0xc5]⟩, ⟨[[0x65, 0x78]]⟩⟩, []⟩
    ⟨List.replicate 12 0, none, by decide, by simp⟩ ⟨⟨[[0x65, 0x78]]⟩, 256, 3, 8, [1, 3, 0xc5]⟩
    none 1750000000
  obtain ⟨-, ⟨hearly, -⟩, -⟩ := verify_checkOrder ⟨⟨[[0x65, 0x78]]⟩, 16, 1, 300, []⟩
    ⟨⟨⟨[[0x65, 0x78]]⟩, 16, 8, 1, 300, 1700000000, 1800000000,
      DnsKey.keyTag ⟨⟨[[0x65, 0x78]]⟩, 256, 3, 8, [1, 3, 0xc5]⟩, ⟨[[0x65, 0x78]]⟩⟩, []⟩
    ⟨List.replicate 12 0, none, by decide, by simp⟩ ⟨⟨[[0x65, 0x78]]⟩, 256, 3, 8, [1, 3, 0xc5]⟩
    none 1699999999
  refine ⟨?_, ?_, hnone.2 rfl⟩
  · rw [← hexp]
    exact (hlate.expired_iff hnames).2 (by rw [hexp]; decide)
  · rw [← hinc]
    exact (hearly.notYetValid_iff hnames (by rw [hexp]; decide)).2 (by rw [hinc]; decide)

end Dnssec
