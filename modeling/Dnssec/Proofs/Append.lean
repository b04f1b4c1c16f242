import Mathlib.Data.List.GetD
import Dnssec.Proofs.Sig0
/-!
# `Dnssec.Proofs.Append` — appending a SIG(0) is all or nothing

The program appends a SIG(0) to the message its caller holds, in place, and signing a message
appends its SIG the same way.  `Message.appendInPlace` and `Message.signInPlace` are those calls
run in `EStateM`, whose result carries the message as the call left it, failures included.  All
three checks of `append` come before its first write, the write after them cannot fail, and
signing only reads the message until it appends.  So a call that fails leaves the message as it
was:

* `Message.appendInPlace_run_eq` — the whole run of an append: refused, with the message
  untouched, when the message is signed already, the SIG's RDATA exceeds 65535 bytes or ARCOUNT
  is at its maximum; otherwise ARCOUNT bumped (`Message.bumpArcount_run`: a header is always
  there to bump) and the SIG record pushed;
* `Message.appendInPlace_run`, `Message.signInPlace_run` — the in-place calls are `append` and
  `Message.sign`, with the message kept when they fail (`Message.append_eq` gives `append` in
  the same terms as the in-place run);
* `Message.appendInPlace_allOrNothing` — the refusals, the exact bytes of a successful append,
  and a failed signing that leaves the message as it was.
-/

namespace Dnssec

theorem Bytes.word16At_append_of_lt {w : Bytes} {i : Nat} (h : i + 1 < w.length) (r : Bytes) :
    (w ++ r).word16At i = w.word16At i := by
  simp only [Bytes.word16At, Bytes.byteAt, List.getD_append _ _ _ _ h,
    List.getD_append _ _ _ _ (show i < w.length by omega)]

namespace Message

theorem signed_isSome_iff (m : Message) : m.signed.isSome = true ↔ m.signature ≠ none := by
  unfold signature
  cases m.signed <;> simp

@[simp] theorem arcount_withArcount (m : Message) (v : UInt16) : (m.withArcount v).arcount = v := by
  have hpre : (m.wire.take arcountOffset).length = arcountOffset := by
    have := m.header_le
    simp only [List.length_take, headerLen, arcountOffset] at *
    omega
  have hread := Bytes.word16At_be16 (m.wire.take arcountOffset) v (m.wire.drop headerLen)
  rwa [hpre] at hread

@[simp] theorem arcount_pushSig (m : Message) (record : Bytes) (sig : SigRecord) :
    (m.pushSig record sig).arcount = m.arcount := by
  have := m.header_le
  rw [arcount, arcount, wire_pushSig,
    Bytes.word16At_append_of_lt (by simp only [headerLen, arcountOffset] at *; omega)]

theorem toNat_arcount_add_one {v : UInt16} (h : v ≠ 0xffff) : (v + 1).toNat = v.toNat + 1 := by
  have hv : v.toNat ≠ 0xffff := fun hv => h (UInt16.toNat_inj.1 hv)
  have := v.toNat_lt
  rw [UInt16.toNat_add, UInt16.toNat_one]
  omega

/-- A message always has a header to bump: `bumpArcount` fails only on an ARCOUNT at its
maximum, and then leaves the message as it was. -/
theorem bumpArcount_run (m : Message) :
    bumpArcount.run m = if m.arcount = 0xffff then .error .malformedMessage m
      else .ok () (m.withArcount (m.arcount + 1)) := by
  have hlen : ¬ m.wire.length < headerLen := Nat.not_lt.2 m.header_le
  simp only [bumpArcount, EStateM.run_bind, EStateM.run_get, hlen, if_false]
  split <;> simp

/-- The run of an in-place append: refused with the message as it was, or ARCOUNT bumped and the
SIG record pushed. -/
theorem appendInPlace_run_eq (m : Message) (sig : SigRecord) :
    (appendInPlace sig).run m =
      if m.signature ≠ none ∨ 65535 < sig.rdata.length ∨ m.arcount = 0xffff then
        .error .malformedMessage m
      else .ok () ((m.withArcount (m.arcount + 1)).pushSig (sigRecordWire sig sig.rdata) sig) := by
  simp only [appendInPlace, EStateM.run_bind, EStateM.run_get]
  -- the checks in the program's order; each refusal throws before anything is written
  by_cases hsigned : m.signed.isSome = true
  · rw [if_pos (Or.inl ((signed_isSome_iff m).1 hsigned))]
    simp only [hsigned, if_true, EStateM.run_bind, EStateM.run_throw]
  have hsig : ¬ m.signature ≠ none := fun h => hsigned ((signed_isSome_iff m).2 h)
  rw [Bool.not_eq_true] at hsigned
  by_cases hlong : 65535 < sig.rdata.length
  · rw [if_pos (Or.inr (Or.inl hlong))]
    simp only [hsigned, Bool.false_eq_true, gt_iff_lt, hlong, if_true, if_false,
      EStateM.run_bind, EStateM.run_throw]
  simp only [hsigned, Bool.false_eq_true, gt_iff_lt, hlong, hsig, false_or, if_false,
    EStateM.run_bind, bumpArcount_run]
  by_cases harc : m.arcount = 0xffff
  · simp only [harc, if_true]
  · simp only [harc, if_false, EStateM.run_modify]

theorem appendInPlace_eq_ok {m m' : Message} {sig : SigRecord} {u : Unit}
    (h : (appendInPlace sig).run m = .ok u m') :
    m.signature = none ∧ sig.rdata.length ≤ 65535 ∧ m.arcount ≠ 0xffff ∧
      m' = (m.withArcount (m.arcount + 1)).pushSig (sigRecordWire sig sig.rdata) sig := by
  rw [appendInPlace_run_eq] at h
  split at h
  · cases h
  · rename_i hok
    cases h
    simp only [ne_eq, not_or, Decidable.not_not, Nat.not_lt] at hok
    exact ⟨hok.1, hok.2.1, hok.2.2, rfl⟩

theorem toNat_arcount_appendInPlace {m m' : Message} {sig : SigRecord} {u : Unit}
    (h : (appendInPlace sig).run m = .ok u m') : m'.arcount.toNat = m.arcount.toNat + 1 := by
  obtain ⟨-, -, harc, rfl⟩ := appendInPlace_eq_ok h
  rw [arcount_pushSig, arcount_withArcount]
  exact toNat_arcount_add_one harc

/-- The functional `append`, with the same refusals and the same result. -/
theorem append_eq (m : Message) (sig : SigRecord) :
    m.append sig =
      if m.signature ≠ none ∨ 65535 < sig.rdata.length ∨ m.arcount = 0xffff then
        .error .malformedMessage
      else .ok ((m.withArcount (m.arcount + 1)).pushSig (sigRecordWire sig sig.rdata) sig) := by
  have hlen := length_setArcount m.wire (m.arcount + 1) m.header_le
  by_cases hsigned : m.signed.isSome = true
  · simp [append, hsigned, (signed_isSome_iff m).1 hsigned]
  have hsig : ¬ m.signature ≠ none := fun h => hsigned ((signed_isSome_iff m).2 h)
  by_cases hlong : 65535 < sig.rdata.length
  · simp [append, hsigned, hsig, hlong]
  by_cases harc : m.arcount = 0xffff
  · simp [append, hsigned, hsig, hlong, harc]
  · simp only [append, hsigned, hsig, hlong, harc, Bool.false_eq_true, or_self, if_false]
    -- the SIG starts at the old length, which bumping ARCOUNT keeps
    exact congrArg Except.ok (ext rfl (by simp [hlen]))

/-- The in-place append is `append`, with the message kept when it fails. -/
theorem appendInPlace_run (m : Message) (sig : SigRecord) :
    (appendInPlace sig).run m = match m.append sig with
      | .ok m' => .ok () m'
      | .error e => .error e m := by
  rw [appendInPlace_run_eq, append_eq]
  split <;> rfl

end Message

/-- The in-place signing is `Message.sign`, with the message kept when it fails. -/
theorem Message.signInPlace_run (m : Message) (k : DnsKey) (pk : PrivateKey)
    (inception expiration : UInt32) (previous : Option Bytes) :
    (Message.signInPlace k pk inception expiration previous).run m =
      match m.sign k pk inception expiration previous with
      | .ok (sig, m') => .ok sig m'
      | .error e => .error e m := by
  simp only [Message.signInPlace, Message.sign, EStateM.run_bind, EStateM.run_get]
  -- every step before the append only reads the message
  cases pk.family.check k.algorithm with
  | error e => rfl
  | ok a =>
    simp only [run_liftExcept_ok, Except.ok_bind]
    by_cases hsigned : m.signed.isSome = true
    · simp only [hsigned, if_true, EStateM.run_bind, EStateM.run_throw, Except.throw_eq_error,
        Except.error_bind]
    rw [Bool.not_eq_true] at hsigned
    simp only [hsigned, Bool.false_eq_true, if_false, EStateM.run_bind]
    cases createSignature (SignedData.message _ m.wire previous) a pk with
    | error e => rfl
    | ok signature =>
      simp only [run_liftExcept_ok, Except.ok_bind, Message.appendInPlace_run]
      cases m.append _ with
      | error e => rfl
      | ok m' => rfl

/-- Appending a SIG(0) is all or nothing.  It is refused, with `malformedMessage` and the message
as it was, exactly when the message carries a SIG already, the SIG's RDATA is longer than 65535
bytes, or ARCOUNT is at its maximum.  Otherwise the wire becomes the old one with ARCOUNT one
higher, followed by the SIG record: the SIG's owner, type 24, class ANY, TTL 0, the RDATA length
and the RDATA (the signed fields, then the signature); the SIG starts where the message used to
end.  And signing a message in place leaves it as it was whenever it fails. -/
theorem Message.appendInPlace_allOrNothing (m : Message) (sig : SigRecord) :
    ((m.signature ≠ none ∨ 65535 < sig.rdata.length ∨ m.arcount = 0xffff) →
      (Message.appendInPlace sig).run m = .error .malformedMessage m) ∧
    (¬ (m.signature ≠ none ∨ 65535 < sig.rdata.length ∨ m.arcount = 0xffff) →
      ∃ m', (Message.appendInPlace sig).run m = .ok () m' ∧
        m'.wire = m.wire.take arcountOffset ++ Bytes.be16 (m.arcount + 1) ++
          m.wire.drop headerLen ++ sig.data.name.wire ++ Bytes.be16 24 ++ Bytes.be16 classAny ++
          Bytes.be32 0 ++ Bytes.be16 (sig.data.header.length + sig.signature.length).toUInt16 ++
          sig.data.header ++ sig.signature ∧
        sig.data.header.length + sig.signature.length ≤ 65535 ∧
        m'.arcount.toNat = m.arcount.toNat + 1 ∧
        m'.sigStart = some m.wire.length ∧ m'.signature = some sig) ∧
    ∀ k pk inception expiration previous e m',
      (Message.signInPlace k pk inception expiration previous).run m = .error e m' → m' = m := by
  refine ⟨fun hfail => ?_, fun hok => ?_, fun k pk inception expiration previous e m' h => ?_⟩
  · rw [Message.appendInPlace_run_eq, if_pos hfail]
  · have hrun := Message.appendInPlace_run_eq m sig
    rw [if_neg hok] at hrun
    simp only [ne_eq, not_or, Decidable.not_not, Nat.not_lt] at hok
    obtain ⟨-, hlong, harc⟩ := hok
    have hlen := length_setArcount m.wire (m.arcount + 1) m.header_le
    refine ⟨_, hrun, ?_, ?_, ?_, ?_, ?_⟩
    · simp [setArcount, Message.sigRecordWire, SigRecord.rdata, List.append_assoc]
    · simpa [SigRecord.rdata] using hlong
    · exact Message.toNat_arcount_appendInPlace hrun
    · simp [Message.sigStart, hlen]
    · simp [Message.signature]
  · rw [Message.signInPlace_run] at h
    split at h
    · cases h
    · cases h
      rfl

/-- A SIG appended to a bare query header: ARCOUNT goes from 0 to 1 and the SIG starts at byte
12, right after the header. -/
theorem Message.appendInPlace_allOrNothing_query :
    ∃ m', (Message.appendInPlace ⟨⟨Name.root, 0, 13, 0, 0, 1800000000, 1700000000, 4242,
        Name.root⟩, [1, 2, 3, 4]⟩).run
        ⟨[0xab, 0xcd, 0x01, 0x00, 0, 1, 0, 0, 0, 0, 0, 0], none, by decide, by simp⟩ = .ok () m' ∧
      m'.arcount.toNat = 1 ∧ m'.sigStart = some 12 ∧
      m'.signature = some ⟨⟨Name.root, 0, 13, 0, 0, 1800000000, 1700000000, 4242, Name.root⟩,
        [1, 2, 3, 4]⟩ := by
  obtain ⟨-, hok, -⟩ := Message.appendInPlace_allOrNothing
    ⟨[0xab, 0xcd, 0x01, 0x00, 0, 1, 0, 0, 0, 0, 0, 0], none, by decide, by simp⟩
    ⟨⟨Name.root, 0, 13, 0, 0, 1800000000, 1700000000, 4242, Name.root⟩, [1, 2, 3, 4]⟩
  obtain ⟨m', hrun, -, -, harc, hstart, hsig⟩ := hok (by decide +kernel)
  exact ⟨m', hrun, by rw [harc]; decide +kernel, hstart, hsig⟩

end Dnssec
