import Dnssec.Record
import Dnssec.Error

/-!
# `Dnssec.Message` — DNS messages carrying a SIG(0) (RFC 2931)

A SIG(0) signs a whole message: it is appended as the last additional record, so a verifier must
know where it starts.  A `Message` holds the wire bytes of a message and, once signed, the offset
of its SIG record with the record's content.  Its type keeps the invariant that every operation
here maintains: the wire holds at least the 12-byte header, and a SIG starts within the wire after
the header.

* `Message.new`, `Message.received` — an unsigned message, or a received one whose SIG the caller
  has located.
* `Message.append` — the SIG record written at the end, with ARCOUNT one higher.
* `Message.appendInPlace` — the same call as the program makes it, on a message it holds: a run
  in `EStateM`, whose result carries the message as the call left it, also when it fails.
-/

namespace Dnssec

/-- The length of the DNS message header. -/
def headerLen : Nat := 12

/-- The offset of ARCOUNT, the count of additional records, in the header. -/
def arcountOffset : Nat := 10

/-- The wire with the 16-bit word at `arcountOffset` replaced by `v`. -/
def setArcount (wire : Bytes) (v : UInt16) : Bytes :=
  wire.take arcountOffset ++ Bytes.be16 v ++ wire.drop headerLen

theorem length_setArcount (wire : Bytes) (v : UInt16) (h : headerLen ≤ wire.length) :
    (setArcount wire v).length = wire.length := by
  simp only [setArcount, List.length_append, List.length_take, List.length_drop, Bytes.be16,
    List.length_cons, List.length_nil, headerLen, arcountOffset] at *
  omega

/-- A wire-format DNS message, with the SIG(0) at its end if it has one. -/
structure Message where
  /-- The message as sent. -/
  wire : Bytes
  /-- The offset of the SIG record, and its content. -/
  signed : Option (Nat × SigRecord)
  header_le : headerLen ≤ wire.length
  start_ok : ∀ p ∈ signed, headerLen ≤ p.1 ∧ p.1 ≤ wire.length

namespace Message

/-- The offset of the SIG record, if the message has one. -/
def sigStart (m : Message) : Option Nat := m.signed.map (·.1)

/-- The SIG record, if the message has one. -/
def signature (m : Message) : Option SigRecord := m.signed.map (·.2)

/-- An unsigned message; `malformedMessage` when the wire is shorter than a header. -/
def new (wire : Bytes) : Except Error Message :=
  if h : headerLen ≤ wire.length then .ok ⟨wire, none, h, by simp⟩
  else .error .malformedMessage

/-- A received message whose SIG record, `sig`, starts at byte `start`; `malformedMessage` when
the wire is shorter than a header or `start` is not between the header's end and the wire's
end. -/
def received (wire : Bytes) (start : Nat) (sig : SigRecord) : Except Error Message :=
  if h : headerLen ≤ wire.length ∧ headerLen ≤ start ∧ start ≤ wire.length then
    .ok ⟨wire, some (start, sig), h.1, by simp [h.2.1, h.2.2]⟩
  else .error .malformedMessage

/-- The ARCOUNT field. -/
def arcount (m : Message) : UInt16 := m.wire.word16At arcountOffset

/-- The SIG record as written into a message: owner, type 24, class ANY, TTL 0, RDLENGTH and
RDATA. -/
def sigRecordWire (sig : SigRecord) (rdata : Bytes) : Bytes :=
  sig.data.name.wire ++ Bytes.be16 24 ++ Bytes.be16 classAny ++ Bytes.be32 0 ++
    Bytes.be16 rdata.length.toUInt16 ++ rdata

/-- The message with `sig` appended and ARCOUNT one higher; `malformedMessage` when it is
already signed, the SIG's RDATA exceeds 65535 bytes, or ARCOUNT is at its maximum. -/
def append (m : Message) (sig : SigRecord) : Except Error Message :=
  if m.signed.isSome then .error .malformedMessage
  else if sig.rdata.length > 65535 then .error .malformedMessage
  else if m.arcount = 0xffff then .error .malformedMessage
  else
    let bumped := setArcount m.wire (m.arcount + 1)
    have hb : bumped.length = m.wire.length := length_setArcount _ _ m.header_le
    .ok ⟨bumped ++ sigRecordWire sig sig.rdata, some (m.wire.length, sig),
      by have := m.header_le; simp only [List.length_append]; omega,
      by have := m.header_le; simp only [Option.mem_def, Option.some.injEq,
           List.length_append, forall_eq']; omega⟩

/-- The message with its ARCOUNT word set to `v`. -/
def withArcount (m : Message) (v : UInt16) : Message :=
  ⟨setArcount m.wire v, m.signed,
    by rw [length_setArcount _ _ m.header_le]; exact m.header_le,
    by rw [length_setArcount _ _ m.header_le]; exact m.start_ok⟩

/-- The message with the written SIG record `record` of `sig` at its end. -/
def pushSig (m : Message) (record : Bytes) (sig : SigRecord) : Message :=
  ⟨m.wire ++ record, some (m.wire.length, sig),
    by have := m.header_le; simp only [List.length_append]; omega,
    by have := m.header_le; simp only [Option.mem_def, Option.some.injEq,
         List.length_append, forall_eq']; omega⟩

@[simp] theorem wire_withArcount (m : Message) (v : UInt16) :
    (m.withArcount v).wire = setArcount m.wire v := rfl

@[simp] theorem signed_withArcount (m : Message) (v : UInt16) :
    (m.withArcount v).signed = m.signed := rfl

@[simp] theorem wire_pushSig (m : Message) (record : Bytes) (sig : SigRecord) :
    (m.pushSig record sig).wire = m.wire ++ record := rfl

@[simp] theorem signed_pushSig (m : Message) (record : Bytes) (sig : SigRecord) :
    (m.pushSig record sig).signed = some (m.wire.length, sig) := rfl

/-- ARCOUNT one higher, in place; `malformedMessage` when the wire is shorter than a header or
ARCOUNT is at its maximum. -/
def bumpArcount : EStateM Error Message Unit := do
  let m ← get
  if m.wire.length < headerLen then throw .malformedMessage
  if m.arcount = 0xffff then throw .malformedMessage
  set (m.withArcount (m.arcount + 1))

/-- `append` in place: the checks of `append` in the program's order, then ARCOUNT bumped and
the SIG record written at the end. -/
def appendInPlace (sig : SigRecord) : EStateM Error Message Unit := do
  if (← get).signed.isSome then throw .malformedMessage
  if sig.rdata.length > 65535 then throw .malformedMessage
  let record := sigRecordWire sig sig.rdata
  bumpArcount
  modify (·.pushSig record sig)

end Message

end Dnssec
