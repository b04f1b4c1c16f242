import Dnssec.Proofs.Append
/-!
# `Dnssec.Proofs.SignedMessage` — the data a SIG(0) verifier rebuilds

A verifier of a SIG(0) has only the signed message: `SignedData.signedMessage` takes ARCOUNT
back down by one and cuts the wire where the SIG starts.  It reads nothing else of the message
(`SignedData.signedMessage_congr`), so a message rebuilt by `received` from the same wire and
offset gives the same data whatever SIG it is given.

* `SignedData.signedMessage_appendInPlace` — after a SIG is appended, the verifier rebuilds
  exactly the data over the message as it was, for any signed fields and previous signature,
  and so does the message rebuilt by `received`.
* `Message.signedMessage_outcome` — the representation invariant every message keeps, whatever
  calls made it: a header is always there, a SIG starts between the header's end and the wire's
  end, so `bumpArcount` never meets a short header; an appended SIG leaves ARCOUNT at least 1.
  Hence the verifier's data is missing exactly when there is no SIG, refused exactly when
  ARCOUNT is zero (only `received` builds such a message), and there otherwise.
-/

namespace Dnssec

namespace Message

theorem sigStart_eq_none_iff (m : Message) : m.sigStart = none ↔ m.signature = none := by
  simp [sigStart, signature]

theorem append_of_appendInPlace {m m' : Message} {sig : SigRecord} {u : Unit}
    (h : (appendInPlace sig).run m = .ok u m') : m.append sig = .ok m' := by
  rw [appendInPlace_run] at h
  split at h
  · rename_i happend
    cases h
    exact happend
  · cases h

end Message

namespace SignedData

/-- The verifier reads only the wire and the offset of the SIG. -/
theorem signedMessage_congr {m m' : Message} (hw : m.wire = m'.wire)
    (hs : m.sigStart = m'.sigStart) (s : SigData) (previous : Option Bytes) :
    signedMessage s m previous = signedMessage s m' previous := by
  unfold signedMessage Message.arcount
  rw [hw, hs]

/-- The SIG(0) verifier rebuilds exactly what the signer signed.  After `sig` is appended to `m`,
the data the verifier rebuilds from the signed message, for any signed fields `d` and previous
signature, is the data over `m`'s wire as it was before; and a message rebuilt by `received` from
the signed wire and the SIG's offset, with any SIG `sig₂` attached, gives the same. -/
theorem signedMessage_appendInPlace {m m₂ : Message} {sig : SigRecord}
    (h : (Message.appendInPlace sig).run m = .ok () m₂) (d : SigData) (previous : Option Bytes) :
    signedMessage d m₂ previous = .ok (message d m.wire previous) ∧
      ∃ start, m₂.sigStart = some start ∧ ∀ sig₂, ∃ r,
        Message.received m₂.wire start sig₂ = .ok r ∧
          signedMessage d r previous = .ok (message d m.wire previous) := by
  have happend := Message.append_of_appendInPlace h
  have hdata := signedMessage_append d previous happend
  obtain ⟨-, -, -, hsigned⟩ := Message.append_eq_ok happend
  have hstart : m₂.sigStart = some m.wire.length := by simp [Message.sigStart, hsigned]
  refine ⟨hdata, m.wire.length, hstart, fun sig₂ => ?_⟩
  obtain ⟨r, hr, hw, hs⟩ := Message.received_of_length hstart rfl sig₂
  refine ⟨r, hr, ?_⟩
  rw [signedMessage_congr hw (by rw [hstart]; simp [Message.sigStart, hs]), hdata]

/-- A query header with a SIG(0) appended, chained after a previous signature: the verifier's
data is the query's, and so for the message as received. -/
theorem signedMessage_appendInPlace_query :
    ∃ m₂, (Message.appendInPlace ⟨⟨Name.root, 0, 13, 0, 0, 1800000000, 1700000000, 4242,
        Name.root⟩, [1, 2, 3, 4]⟩).run
        ⟨[0xab, 0xcd, 0x01, 0x00, 0, 1, 0, 0, 0, 0, 0, 0], none, by decide, by simp⟩ = .ok () m₂ ∧
      signedMessage ⟨Name.root, 0, 13, 0, 0, 1800000000, 1700000000, 4242, Name.root⟩ m₂
          (some [0xaa, 0xbb]) =
        .ok (message ⟨Name.root, 0, 13, 0, 0, 1800000000, 1700000000, 4242, Name.root⟩
          [0xab, 0xcd, 0x01, 0x00, 0, 1, 0, 0, 0, 0, 0, 0] (some [0xaa, 0xbb])) := by
  have hrun := Message.appendInPlace_run_eq
    ⟨[0xab, 0xcd, 0x01, 0x00, 0, 1, 0, 0, 0, 0, 0, 0], none, by decide, by simp⟩
    ⟨⟨Name.root, 0, 13, 0, 0, 1800000000, 1700000000, 4242, Name.root⟩, [1, 2, 3, 4]⟩
  rw [if_neg (by decide +kernel)] at hrun
  exact ⟨_, hrun, (signedMessage_appendInPlace hrun _ _).1⟩

end SignedData

/-- What every message satisfies, whatever sequence of `new`, `received`, appends and signings
(successful or failed), and rebuilds from its wire, produced it: every such message is a value of
`Message`, and a failed call leaves the message as it was (`Message.appendInPlace_allOrNothing`).
The wire holds a header and a SIG starts between the header's end and the wire's end, so
`bumpArcount` never takes its short-header branch; an appended SIG leaves ARCOUNT at least 1.
The verifier's data is then `noSignature` exactly when the message has no SIG,
`malformedMessage` exactly when it has one and ARCOUNT is zero, and there otherwise. -/
theorem Message.signedMessage_outcome (m : Message) :
    headerLen ≤ m.wire.length ∧
    (∀ start, m.sigStart = some start → headerLen ≤ start ∧ start ≤ m.wire.length) ∧
    Message.bumpArcount.run m =
      (if m.arcount = 0xffff then .error .malformedMessage m
        else .ok () (m.withArcount (m.arcount + 1))) ∧
    (∀ sig m', (Message.appendInPlace sig).run m = .ok () m' → 1 ≤ m'.arcount.toNat) ∧
    (∀ k pk inception expiration previous sig m',
      (Message.signInPlace k pk inception expiration previous).run m = .ok sig m' →
        1 ≤ m'.arcount.toNat) ∧
    ∀ d previous,
      (SignedData.signedMessage d m previous = .error .noSignature ↔ m.signature = none) ∧
      (SignedData.signedMessage d m previous = .error .malformedMessage ↔
        m.signature ≠ none ∧ m.arcount = 0) ∧
      ((SignedData.signedMessage d m previous).isOk ↔ m.signature ≠ none ∧ m.arcount ≠ 0) := by
  refine ⟨m.header_le, fun start h => ?_, Message.bumpArcount_run m, fun sig m' h => ?_,
    fun k pk inception expiration previous sig m' h => ?_, fun d previous => ?_⟩
  · obtain ⟨p, hp, rfl⟩ := Option.map_eq_some_iff.1 h
    exact m.start_ok p hp
  · rw [Message.toNat_arcount_appendInPlace h]
    omega
  · -- a signing appends its SIG with `append`
    rw [Message.signInPlace_run] at h
    split at h
    · rename_i hsign
      cases h
      obtain ⟨-, -, -, -, -, happend⟩ := Message.sign_eq_ok hsign
      have hrun : (Message.appendInPlace sig).run m = .ok () m' := by
        rw [Message.appendInPlace_run, happend]
      rw [Message.toNat_arcount_appendInPlace hrun]
      omega
    · cases h
  · -- no SIG, or a SIG under ARCOUNT zero, or the data
    cases hs : m.sigStart with
    | none =>
      have hnone := (Message.sigStart_eq_none_iff m).1 hs
      simp [SignedData.signedMessage, hs, hnone, Except.isOk, Except.toBool]
    | some start =>
      have hsome : m.signature ≠ none := fun h => by
        rw [← Message.sigStart_eq_none_iff, hs] at h
        cases h
      by_cases ha : m.arcount = 0 <;>
        simp [SignedData.signedMessage, hs, hsome, ha, Except.isOk, Except.toBool]

/-- A received message whose header counts no additional record: the verifier refuses it as
malformed, although it carries a SIG. -/
theorem Message.signedMessage_outcome_received :
    ∃ r, Message.received (List.replicate 12 0) 12
        ⟨⟨Name.root, 0, 13, 0, 0, 1800000000, 1700000000, 4242, Name.root⟩, [1, 2, 3, 4]⟩ = .ok r ∧
      SignedData.signedMessage ⟨Name.root, 0, 13, 0, 0, 1800000000, 1700000000, 4242, Name.root⟩
        r none = .error .malformedMessage := by
  obtain ⟨r, hr, hw, hsigned⟩ := Message.received_of_length (m :=
    ⟨List.replicate 12 0, some (12, ⟨⟨Name.root, 0, 13, 0, 0, 1800000000, 1700000000, 4242,
      Name.root⟩, [1, 2, 3, 4]⟩), by decide, by simp [headerLen]⟩) rfl rfl
    ⟨⟨Name.root, 0, 13, 0, 0, 1800000000, 1700000000, 4242, Name.root⟩, [1, 2, 3, 4]⟩
  obtain ⟨-, -, -, -, -, houtcome⟩ := Message.signedMessage_outcome r
  refine ⟨r, hr, ((houtcome _ none).2.1).2 ⟨by simp [Message.signature, hsigned], ?_⟩⟩
  rw [Message.arcount, hw]
  decide +kernel

end Dnssec
