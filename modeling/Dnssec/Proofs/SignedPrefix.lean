import Dnssec.Proofs.SignedMessage
import Dnssec.Proofs.VerifyOrder
/-!
# `Dnssec.Proofs.SignedPrefix` — a SIG(0) signs exactly the bytes before it

The verifier of a SIG(0) rebuilds the signed message from the wire up to the SIG's offset:
the header with ARCOUNT one lower, then the rest of that prefix.  Two facts make this exact.

* The rebuilt data is a function of the prefix alone (`signedMessage_eq_take`): ARCOUNT lies in
  the header, which the SIG follows.
* It loses nothing of the prefix (`setArcount_dec_injective`): decrementing a 16-bit word is
  injective, wrapping or not, and writing the word back restores the header.

`SignedData.signedMessage_coversPrefix` draws the consequences for the tamper step of a session:
flipping bits of one byte and rebuilding the message with `received`.
-/

namespace Dnssec

/-! ## The ARCOUNT word -/

theorem word16At_setArcount {wire : Bytes} (h : headerLen ≤ wire.length) (v : UInt16) :
    (setArcount wire v).word16At arcountOffset = v := by
  have hlen : (wire.take arcountOffset).length = arcountOffset := by
    simp only [List.length_take, headerLen, arcountOffset] at *
    omega
  have hread := Bytes.word16At_be16 (wire.take arcountOffset) v (wire.drop headerLen)
  rwa [hlen] at hread

theorem setArcount_setArcount {wire : Bytes} (h : headerLen ≤ wire.length) (u v : UInt16) :
    setArcount (setArcount wire u) v = setArcount wire v := by
  obtain ⟨pre, x, y, rest, rfl, hpre⟩ := exists_arcount_split h
  obtain ⟨x', y', hxy⟩ : ∃ x' y', Bytes.be16 u = [x', y'] := ⟨_, _, rfl⟩
  have hwritten : setArcount (pre ++ x :: y :: rest) u = pre ++ x' :: y' :: rest := by
    rw [setArcount_append hpre, hxy, List.append_assoc, List.cons_append, List.cons_append,
      List.nil_append]
  rw [hwritten, setArcount_append hpre, setArcount_append hpre]

theorem setArcount_word16At {wire : Bytes} (h : headerLen ≤ wire.length) :
    setArcount wire (wire.word16At arcountOffset) = wire := by
  obtain ⟨pre, x, y, rest, rfl, hpre⟩ := exists_arcount_split h
  rw [setArcount_append hpre, ← hpre, Bytes.word16At_append, Bytes.be16_word16,
    List.append_assoc, List.cons_append, List.cons_append, List.nil_append]

/-- Decrementing ARCOUNT loses nothing: the header is recovered from the result by writing the
word back one higher. -/
theorem setArcount_dec_injective {h₁ h₂ : Bytes} (hl₁ : headerLen ≤ h₁.length)
    (hl₂ : headerLen ≤ h₂.length)
    (h : setArcount h₁ (h₁.word16At arcountOffset - 1) =
      setArcount h₂ (h₂.word16At arcountOffset - 1)) :
    h₁ = h₂ := by
  have hcount : h₁.word16At arcountOffset = h₂.word16At arcountOffset := by
    have hread := congrArg (Bytes.word16At · arcountOffset) h
    simp only [word16At_setArcount hl₁, word16At_setArcount hl₂] at hread
    exact (UInt16.sub_left_inj 1).1 hread
  calc h₁ = setArcount (setArcount h₁ (h₁.word16At arcountOffset - 1))
          (h₁.word16At arcountOffset) := by
        rw [setArcount_setArcount hl₁, setArcount_word16At hl₁]
    _ = setArcount (setArcount h₂ (h₂.word16At arcountOffset - 1))
          (h₂.word16At arcountOffset) := by
        rw [h, hcount]
    _ = h₂ := by
        rw [setArcount_setArcount hl₂, setArcount_word16At hl₂]

theorem Bytes.word16At_take {w : Bytes} {i n : Nat} (h : i + 1 < n) :
    Bytes.word16At (w.take n) i = w.word16At i := by
  simp only [Bytes.word16At, Bytes.byteAt, List.getD_eq_getElem?_getD, List.getElem?_take,
    if_pos h, if_pos (Nat.lt_of_succ_lt h)]

/-! ## The rebuilt data as a function of the prefix -/

theorem Message.arcount_eq_take {m : Message} {start : Nat} (h : m.sigStart = some start) :
    m.arcount = Bytes.word16At (m.wire.take start) arcountOffset := by
  have hstart := (Message.sigStart_bounds h).1
  have hword : arcountOffset + 1 < start := by
    simp only [headerLen, arcountOffset] at hstart ⊢
    omega
  rw [Message.arcount, Bytes.word16At_take hword]

/-- The verifier's data is read off the prefix `m.wire.take start` alone. -/
theorem SignedData.signedMessage_eq_take {m : Message} {start : Nat}
    (h : m.sigStart = some start) (d : SigData) (previous : Option Bytes) :
    signedMessage d m previous =
      if Bytes.word16At (m.wire.take start) arcountOffset = 0 then .error .malformedMessage
      else .ok (d.header ++ previous.getD [] ++
        (setArcount ((m.wire.take start).take headerLen)
          (Bytes.word16At (m.wire.take start) arcountOffset - 1) ++
        (m.wire.take start).drop headerLen)) := by
  have hstart := (Message.sigStart_bounds h).1
  have hheader : (m.wire.take start).take headerLen = m.wire.take headerLen := by
    rw [List.take_take, Nat.min_eq_left hstart]
  simp only [signedMessage, h]
  rw [← Message.arcount_eq_take h, hheader, List.append_assoc]

/-- The rebuilt header and the rest of the prefix give the prefix back. -/
theorem rebuilt_injective {p₁ p₂ : Bytes} (hl₁ : headerLen ≤ p₁.length)
    (hl₂ : headerLen ≤ p₂.length)
    (h : setArcount (p₁.take headerLen) (p₁.word16At arcountOffset - 1) ++ p₁.drop headerLen =
      setArcount (p₂.take headerLen) (p₂.word16At arcountOffset - 1) ++ p₂.drop headerLen) :
    p₁ = p₂ := by
  have hword : ∀ p : Bytes,
      Bytes.word16At (p.take headerLen) arcountOffset = p.word16At arcountOffset :=
    fun p => Bytes.word16At_take (by decide)
  have htake : ∀ p : Bytes, headerLen ≤ p.length → headerLen ≤ (p.take headerLen).length := by
    intro p hp
    rw [List.length_take, Nat.min_eq_left hp]
  obtain ⟨hhead, htail⟩ := List.append_inj h (by
    rw [length_setArcount _ _ (htake p₁ hl₁), length_setArcount _ _ (htake p₂ hl₂),
      List.length_take, List.length_take, Nat.min_eq_left hl₁, Nat.min_eq_left hl₂])
  rw [← hword p₁, ← hword p₂] at hhead
  have hheader := setArcount_dec_injective (htake p₁ hl₁) (htake p₂ hl₂) hhead
  rw [← List.take_append_drop headerLen p₁, ← List.take_append_drop headerLen p₂, hheader, htail]

/-! ## Flipping bits of one byte -/

theorem UInt8.xor_ne_self (a : UInt8) {x : UInt8} (hx : x ≠ 0) : a ^^^ x ≠ a := by
  intro h
  have hzero : a ^^^ x = a ^^^ 0 := by rw [h, UInt8.xor_zero]
  exact hx ((UInt8.xor_right_inj a).1 hzero)

theorem take_modify_xor_ne {w : Bytes} {i start : Nat} {x : UInt8} (hi : i < start)
    (hlen : start ≤ w.length) (hx : x ≠ 0) :
    (w.modify i (· ^^^ x)).take start ≠ w.take start := by
  intro h
  have hi' : i < (w.take start).length := by
    rw [List.length_take]
    omega
  -- the byte at `i` is flipped in one prefix and not in the other
  have hat := congrArg (·[i]?) h
  simp only [List.take_modify, List.getElem?_modify, List.getElem?_eq_getElem hi'] at hat
  simp only [if_true, Option.map_eq_map, Option.map_some, Option.some.injEq] at hat
  exact UInt8.xor_ne_self _ hx hat

theorem take_modify_of_le {w : Bytes} {i start : Nat} (f : UInt8 → UInt8) (hi : start ≤ i) :
    (w.modify i f).take start = w.take start := by
  rw [List.take_modify]
  exact List.modify_eq_self (by rw [List.length_take]; omega)

/-! ## The verifier's data covers exactly the prefix -/

theorem Message.headerLen_le_take {m : Message} {start : Nat} (h : m.sigStart = some start) :
    headerLen ≤ (m.wire.take start).length := by
  obtain ⟨hstart, hend⟩ := Message.sigStart_bounds h
  rw [List.length_take, Nat.min_eq_left hend]
  exact hstart

section SameStart

variable {m₁ m₂ : Message} {start : Nat}

/-- Messages whose wires agree before a SIG at the same offset are signed alike. -/
theorem SignedData.signedMessage_eq_of_take (h₁ : m₁.sigStart = some start)
    (h₂ : m₂.sigStart = some start) (hp : m₁.wire.take start = m₂.wire.take start)
    (d : SigData) (previous : Option Bytes) :
    signedMessage d m₁ previous = signedMessage d m₂ previous := by
  rw [SignedData.signedMessage_eq_take h₁, SignedData.signedMessage_eq_take h₂, hp]

/-- Messages whose wires differ before a SIG at the same offset, both with a non-zero ARCOUNT,
are signed differently. -/
theorem SignedData.signedMessage_ne_of_take (h₁ : m₁.sigStart = some start)
    (h₂ : m₂.sigStart = some start) (hp : m₁.wire.take start ≠ m₂.wire.take start)
    (ha₁ : m₁.arcount ≠ 0) (ha₂ : m₂.arcount ≠ 0) (d : SigData) (previous : Option Bytes) :
    ∃ data₁ data₂, signedMessage d m₁ previous = .ok data₁ ∧
      signedMessage d m₂ previous = .ok data₂ ∧ data₁ ≠ data₂ := by
  rw [Message.arcount_eq_take h₁] at ha₁
  rw [Message.arcount_eq_take h₂] at ha₂
  rw [SignedData.signedMessage_eq_take h₁, SignedData.signedMessage_eq_take h₂, if_neg ha₁,
    if_neg ha₂]
  refine ⟨_, _, rfl, rfl, fun heq => hp ?_⟩
  -- the common signed fields and previous signature cancel, the rebuilt prefixes remain
  exact rebuilt_injective (Message.headerLen_le_take h₁) (Message.headerLen_le_take h₂)
    (List.append_cancel_left heq)

theorem Message.verifyAt_eq_of_take {sig : SigRecord} (h₁ : m₁.sigStart = some start)
    (h₂ : m₂.sigStart = some start) (hs₁ : m₁.signature = some sig)
    (hs₂ : m₂.signature = some sig) (hp : m₁.wire.take start = m₂.wire.take start)
    (k : DnsKey) (previous : Option Bytes) (now : UInt64) :
    m₁.verifyAt k previous now = m₂.verifyAt k previous now := by
  rw [Message.verifyAt_eq hs₁, Message.verifyAt_eq hs₂, Message.arcount_eq_take h₁,
    Message.arcount_eq_take h₂, hp, SignedData.signedMessage_eq_of_take h₁ h₂ hp]

end SameStart

/-- A SIG(0) signs exactly the bytes before it.  Of two signed messages whose SIGs start at the
same offset, the verifier rebuilds the same data when the wires agree before the SIG, whatever
follows and whatever SIG they carry; when they differ there and both ARCOUNTs are non-zero, it
rebuilds two different data.  Hence flipping bits of a byte from the SIG on and rebuilding the
message with `received` leaves every verification as it was, while flipping bits of a byte
before the SIG changes the data, unless it leaves ARCOUNT zero and the message refused as
malformed. -/
theorem SignedData.signedMessage_coversPrefix (d : SigData) (previous : Option Bytes)
    {m₁ m₂ : Message} {start : Nat} (h₁ : m₁.sigStart = some start)
    (h₂ : m₂.sigStart = some start) :
    (m₁.wire.take start = m₂.wire.take start →
      signedMessage d m₁ previous = signedMessage d m₂ previous) ∧
    (m₁.wire.take start ≠ m₂.wire.take start → m₁.arcount ≠ 0 → m₂.arcount ≠ 0 →
      ∃ data₁ data₂, signedMessage d m₁ previous = .ok data₁ ∧
        signedMessage d m₂ previous = .ok data₂ ∧ data₁ ≠ data₂) ∧
    ∀ sig, m₁.signature = some sig → ∀ i (x : UInt8),
      ∃ m', Message.received (m₁.wire.modify i (· ^^^ x)) start sig = .ok m' ∧
        (start ≤ i → ∀ k now, m'.verifyAt k previous now = m₁.verifyAt k previous now) ∧
        (i < start → x ≠ 0 →
          if m'.arcount = 0 then signedMessage d m' previous = .error .malformedMessage
          else signedMessage d m' previous ≠ signedMessage d m₁ previous) := by
  refine ⟨fun hp => signedMessage_eq_of_take h₁ h₂ hp d previous,
    fun hp ha₁ ha₂ => signedMessage_ne_of_take h₁ h₂ hp ha₁ ha₂ d previous,
    fun sig hs i x => ?_⟩
  obtain ⟨m', hm', hw, hsigned⟩ :=
    Message.received_of_length h₁ (List.length_modify (· ^^^ x) m₁.wire i) sig
  have h' : m'.sigStart = some start := by simp [Message.sigStart, hsigned]
  have hs' : m'.signature = some sig := by simp [Message.signature, hsigned]
  refine ⟨m', hm', fun hi k now => ?_, fun hi hx => ?_⟩
  · -- from the SIG on, the prefix is untouched
    exact Message.verifyAt_eq_of_take h' h₁ hs' hs (by rw [hw, take_modify_of_le _ hi]) k
      previous now
  · have hp : m'.wire.take start ≠ m₁.wire.take start := by
      rw [hw]
      exact take_modify_xor_ne hi (Message.sigStart_bounds h₁).2 hx
    split_ifs with ha'
    · rw [signedMessage_eq_take h', ← Message.arcount_eq_take h', if_pos ha']
    · by_cases ha : m₁.arcount = 0
      · -- the original was refused, the tampered one is not
        rw [signedMessage_eq_take h', signedMessage_eq_take h₁, ← Message.arcount_eq_take h',
          ← Message.arcount_eq_take h₁, if_neg ha', if_pos ha]
        exact fun heq => by cases heq
      · obtain ⟨data', data, hd', hd, hne⟩ := signedMessage_ne_of_take h' h₁ hp ha' ha d previous
        rw [hd', hd]
        exact fun heq => hne (Except.ok.inj heq)

/-- Two messages with one SIG at offset 13 that differ in the byte before it are signed
differently; flipping a bit of the SIG's first byte changes no verification. -/
theorem SignedData.signedMessage_coversPrefix_tamper :
    (∃ data₁ data₂,
      signedMessage ⟨Name.root, 0, 13, 0, 0, 1800000000, 1700000000, 4242, Name.root⟩
        ⟨[0, 0, 0, 0, 0, 0, 0, 0, 0, 0, 0, 1, 0x61, 0],
          some (13, ⟨⟨Name.root, 0, 13, 0, 0, 1800000000, 1700000000, 4242, Name.root⟩,
            [1, 2, 3, 4]⟩), by decide, by simp [headerLen]⟩ none = .ok data₁ ∧
      signedMessage ⟨Name.root, 0, 13, 0, 0, 1800000000, 1700000000, 4242, Name.root⟩
        ⟨[0, 0, 0, 0, 0, 0, 0, 0, 0, 0, 0, 1, 0x41, 0],
          some (13, ⟨⟨Name.root, 0, 13, 0, 0, 1800000000, 1700000000, 4242, Name.root⟩,
            [1, 2, 3, 4]⟩), by decide, by simp [headerLen]⟩ none = .ok data₂ ∧
      data₁ ≠ data₂) ∧
    ∃ m', Message.received ([0, 0, 0, 0, 0, 0, 0, 0, 0, 0, 0, 1, 0x61, 0].modify 13 (· ^^^ 0x20))
        13 ⟨⟨Name.root, 0, 13, 0, 0, 1800000000, 1700000000, 4242, Name.root⟩, [1, 2, 3, 4]⟩ =
        .ok m' ∧
      ∀ k now, m'.verifyAt k none now =
        Message.verifyAt ⟨[0, 0, 0, 0, 0, 0, 0, 0, 0, 0, 0, 1, 0x61, 0],
          some (13, ⟨⟨Name.root, 0, 13, 0, 0, 1800000000, 1700000000, 4242, Name.root⟩,
            [1, 2, 3, 4]⟩), by decide, by simp [headerLen]⟩ k none now := by
  obtain ⟨-, hdiffer, htamper⟩ := @SignedData.signedMessage_coversPrefix
    ⟨Name.root, 0, 13, 0, 0, 1800000000, 1700000000, 4242, Name.root⟩ none
    ⟨[0, 0, 0, 0, 0, 0, 0, 0, 0, 0, 0, 1, 0x61, 0],
      some (13, ⟨⟨Name.root, 0, 13, 0, 0, 1800000000, 1700000000, 4242, Name.root⟩,
        [1, 2, 3, 4]⟩), by decide, by simp [headerLen]⟩
    ⟨[0, 0, 0, 0, 0, 0, 0, 0, 0, 0, 0, 1, 0x41, 0],
      some (13, ⟨⟨Name.root, 0, 13, 0, 0, 1800000000, 1700000000, 4242, Name.root⟩,
        [1, 2, 3, 4]⟩), by decide, by simp [headerLen]⟩ 13 rfl rfl
  obtain ⟨m', hm', hlate, -⟩ := htamper _ rfl 13 0x20
  exact ⟨hdiffer (by decide +kernel) (by decide +kernel) (by decide +kernel), m', hm',
    hlate (Nat.le_refl 13)⟩

end Dnssec
