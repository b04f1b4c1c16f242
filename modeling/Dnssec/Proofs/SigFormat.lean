import Mathlib.Algebra.Group.Nat.Defs
import Dnssec.Proofs.BigEndian
import Dnssec.Validation
import Dnssec.Proofs.Except
/-!
# `Dnssec.Proofs.SigFormat` — DSA and ECDSA signatures between DER and the wire

A signer hands out DER, `SEQUENCE { INTEGER r, INTEGER s }`; the wire carries `r` and `s` at a
fixed width (`SigFormat.ofDer`), and a verifier rebuilds DER from them (`SigFormat.toDer`).  The
DER bytes that come back differ from the ones that went out (the INTEGERs are minimal again), but
verification reads DER only through the two values it holds, `Der.values?`, and those survive:

* `SigFormat.toDer_ofDer` — the DER rebuilt from a wire signature has the values of the DER it was
  written from (an RSA signature goes through unchanged);
* `PublicKey.verifyDer_toDer_ofDer` — hence verification gives the same answer on both.

The values are compared by reading every INTEGER at the widest width a short-form length allows
(`Der.readInteger_wide`): whatever a read at the signature width accepts, that read accepts too,
with the same value (`Der.readInteger_eq_some`, `Der.readPair_eq_some`).

The other way round, the wire form comes back exactly:

* `Der.MinimalBody`, `Der.IsInteger`, `Der.IsSignature` — strict DER (X.690 8.3) of a signature
  of two non-negative integers, stated on the bytes;
* `SigFormat.ofDer_toDer` — `toDer` accepts exactly the wire signatures of the format's length,
  writes strict DER of their halves, and `ofDer` gives the wire signature back.
-/

namespace Dnssec

theorem Bytes.toNat_stripZeros (b : Bytes) :
    Bytes.toNat (Bytes.stripZeros b) = Bytes.toNat b := by
  induction b with
  | nil => rfl
  | cons x rest ih =>
    rw [Bytes.stripZeros]
    split
    · rename_i hx
      rw [ih, hx, Bytes.toNat_cons_zero]
    · rfl

theorem Bytes.stripZeros_suffix (b : Bytes) : Bytes.stripZeros b <:+ b := by
  induction b with
  | nil => exact List.suffix_refl []
  | cons x rest ih =>
    rw [Bytes.stripZeros]
    split
    · exact ih.trans (List.suffix_cons x rest)
    · exact List.suffix_refl _

theorem Bytes.stripZeros_head_ne_zero {b : Bytes} {x : UInt8} {rest : Bytes}
    (h : Bytes.stripZeros b = x :: rest) : x ≠ 0 := by
  induction b with
  | nil => simp [Bytes.stripZeros] at h
  | cons y ys ih =>
    rw [Bytes.stripZeros] at h
    split at h
    · exact ih h
    · rename_i hy
      cases h
      exact hy

namespace Der

theorem readInteger_body {w : Nat} {body : Bytes} (rest : Bytes) (hpos : 0 < body.length)
    (hlen : body.length ≤ 0x7f) (hhead : body.headD 0 < 0x80) (hw : body.length ≤ w + 1)
    (hpad : body.length = w + 1 → body.headD 0 = 0) :
    readInteger w (0x02 :: body.length.toUInt8 :: (body ++ rest)) =
      some (Nat.toBytesFixed w (Bytes.toNat body), rest) := by
  have hl : (body.length.toUInt8).toNat = body.length := Nat.toNat_toUInt8_of_lt (by omega)
  have htake : (body ++ rest).take body.length = body := List.take_left' rfl
  have hdrop : (body ++ rest).drop body.length = rest := List.drop_left' rfl
  have hne : body.length.toUInt8 ≠ 0 := Nat.toUInt8_ne_zero hpos (by omega)
  have hhead' : ¬ (body.headD 0 ≥ 0x80) := by
    rw [UInt8.lt_iff_toNat_lt] at hhead
    rw [ge_iff_le, UInt8.le_iff_toNat_le]
    simpa using hhead
  have hshort : ¬ (body.length.toUInt8 ≥ 0x80) := by
    rw [ge_iff_le, UInt8.le_iff_toNat_le, hl]
    simp
    omega
  have hzero : ¬ (body.length = w + 1 ∧ body.headD 0 ≠ 0) := fun h => h.2 (hpad h.1)
  -- a body one byte over the width loses its leading zero, which does not change the value
  have hvalue : Bytes.toNat (if body.length = w + 1 then body.drop 1 else body) =
      Bytes.toNat body := by
    split
    · rename_i hover
      obtain ⟨x, t, rfl⟩ := List.exists_cons_of_length_eq_add_one hover
      have hx : x = 0 := hpad hover
      rw [hx, List.drop_one, List.tail_cons, Bytes.toNat_cons_zero]
    · rfl
  have hfit : ¬ ((if body.length = w + 1 then body.drop 1 else body).length > w) := by
    split <;> simp <;> omega
  simp only [readInteger, hl, htake, hdrop, hne, hshort, hhead', hvalue, List.length_append]
  rw [if_neg (by simp), if_neg not_false, if_neg (by simpa using hzero), if_neg hfit]

/-- Reading an INTEGER as wide as a short-form length allows. -/
theorem readInteger_wide {body : Bytes} (rest : Bytes) (hpos : 0 < body.length)
    (hlen : body.length ≤ 0x7f) (hhead : body.headD 0 < 0x80) :
    readInteger 0x7f (0x02 :: body.length.toUInt8 :: (body ++ rest)) =
      some (Nat.toBytesFixed 0x7f (Bytes.toNat body), rest) :=
  readInteger_body rest hpos hlen hhead (by omega) (fun h => absurd h (by omega))

/-- What a successful read of an INTEGER saw: a short-form length over a non-negative body, whose
value it returns. -/
theorem readInteger_eq_some {w : Nat} {input b rest : Bytes}
    (h : readInteger w input = some (b, rest)) :
    ∃ body, input = 0x02 :: body.length.toUInt8 :: (body ++ rest) ∧ 0 < body.length ∧
      body.length ≤ 0x7f ∧ body.headD 0 < 0x80 ∧ b.length = w ∧
      Bytes.toNat b = Bytes.toNat body := by
  unfold readInteger at h
  split at h
  · rename_i len input
    simp only [Option.ite_none_left_eq_some, Option.some.injEq, Prod.mk.injEq] at h
    obtain ⟨hguard, hhead, hpad, hwidth, rfl, rfl⟩ := h
    simp only [Bool.or_eq_true, decide_eq_true_eq, not_or, ge_iff_le, UInt8.le_iff_toNat_le,
      Nat.not_le] at hguard
    obtain ⟨⟨hlen0, hlen80⟩, hlong⟩ := hguard
    have h80 : (0x80 : UInt8).toNat = 0x80 := rfl
    have hpos : len.toNat ≠ 0 := fun h0 => hlen0 (UInt8.toNat_inj.1 h0)
    have hbody : (input.take len.toNat).length = len.toNat := by simp; omega
    -- the value read is the body's, a leading zero dropped or not
    have hvalue : Bytes.toNat (if (input.take len.toNat).length = w + 1 then
        (input.take len.toNat).drop 1 else input.take len.toNat) =
        Bytes.toNat (input.take len.toNat) := by
      split
      · rename_i hw
        have hzero : (input.take len.toNat).headD 0 = 0 := by simpa [hw] using hpad
        obtain ⟨x, t, hxt⟩ := List.exists_cons_of_length_eq_add_one hw
        rw [hxt, List.headD_cons] at hzero
        rw [hxt, hzero, List.drop_one, List.tail_cons, Bytes.toNat_cons_zero]
      · rfl
    refine ⟨input.take len.toNat, ?_, by omega, by omega, ?_, by simp, ?_⟩
    · rw [hbody, Nat.toUInt8_eq, UInt8.ofNat_toNat, List.take_append_drop]
    · simpa [UInt8.lt_iff_toNat_lt, UInt8.le_iff_toNat_le] using hhead
    · rw [Nat.toNat_toBytesFixed, Nat.mod_eq_of_lt, hvalue]
      calc _ < 256 ^ _ := Bytes.toNat_lt _
        _ ≤ 256 ^ w := Nat.pow_le_pow_right (by omega) (by omega)
  · contradiction

theorem toNat_toBytesFixed_of_length_le {body : Bytes} {w : Nat} (h : body.length ≤ w) :
    Bytes.toNat (Nat.toBytesFixed w (Bytes.toNat body)) = Bytes.toNat body := by
  rw [Nat.toNat_toBytesFixed, Nat.mod_eq_of_lt]
  calc _ < 256 ^ body.length := Bytes.toNat_lt _
    _ ≤ 256 ^ w := Nat.pow_le_pow_right (by omega) h

/-- A pair read at a width is two numbers of that width, with the values a read at the widest
short-form width finds. -/
theorem readPair_eq_some {w : Nat} {der r s : Bytes} (h : readPair w der = some (r, s)) :
    r.length = w ∧ s.length = w ∧ values? der = some (Bytes.toNat r, Bytes.toNat s) := by
  unfold readPair at h
  split at h
  · rename_i len rest
    simp only [Option.ite_none_left_eq_some, bind, Option.bind_eq_some_iff] at h
    obtain ⟨hguard, ⟨r', rest₁⟩, h₁, ⟨s', rest₂⟩, h₂, h₃⟩ := h
    simp only [Option.ite_none_right_eq_some, List.isEmpty_iff, Option.some.injEq,
      Prod.mk.injEq] at h₃
    obtain ⟨rfl, rfl, rfl⟩ := h₃
    obtain ⟨b₁, rfl, hpos₁, hlen₁, hhead₁, hr, hval₁⟩ := readInteger_eq_some h₁
    obtain ⟨b₂, rfl, hpos₂, hlen₂, hhead₂, hs, hval₂⟩ := readInteger_eq_some h₂
    refine ⟨hr, hs, ?_⟩
    rw [values?, readPair, if_neg hguard]
    simp only [bind, Option.bind, readInteger_wide _ hpos₁ hlen₁ hhead₁,
      readInteger_wide _ hpos₂ hlen₂ hhead₂, List.isEmpty_nil, if_true, Option.map_some,
      toNat_toBytesFixed_of_length_le hlen₁, toNat_toBytesFixed_of_length_le hlen₂, hval₁, hval₂]
  · contradiction

/-- The content octets of a DER INTEGER holding the non-negative `v` (X.690 8.3): big-endian
two's complement in as few bytes as possible, so never empty, the top bit of the first byte clear,
and a leading zero byte only in front of a byte whose top bit is set. -/
def MinimalBody (body : Bytes) (v : Nat) : Prop :=
  body ≠ [] ∧ Bytes.toNat body = v ∧ body.headD 0 < 0x80 ∧
    ∀ y rest, body = 0 :: y :: rest → 0x80 ≤ y

/-- The DER INTEGER of a byte string: a short-form length over the minimal content of its value,
at most one byte longer than the string, and one longer only as the string behind a zero. -/
theorem integer_eq_minimal (int : Bytes) :
    ∃ body, integer int = 0x02 :: body.length.toUInt8 :: body ∧
      MinimalBody body (Bytes.toNat int) ∧ body.length ≤ int.length + 1 ∧
      (body.length = int.length + 1 → body = 0 :: int) := by
  have hsuffix := Bytes.stripZeros_suffix int
  have hlen := hsuffix.length_le
  by_cases hpad : ((Bytes.stripZeros int).isEmpty || (Bytes.stripZeros int).headD 0 ≥ 0x80) = true
  · -- a zero byte goes in front of an empty value or one whose top bit is set
    refine ⟨0 :: Bytes.stripZeros int, ?_,
      ⟨List.cons_ne_nil _ _, ?_, by rw [List.headD_cons]; decide, ?_⟩, ?_, ?_⟩
    · simp only [integer, hpad, if_true, List.singleton_append]
    · rw [Bytes.toNat_cons_zero, Bytes.toNat_stripZeros]
    · intro y rest h
      simp only [List.cons.injEq, true_and] at h
      simpa [h] using hpad
    · simp only [List.length_cons]
      omega
    · intro h
      simp only [List.length_cons, Nat.add_right_cancel_iff] at h
      rw [hsuffix.eq_of_length h]
  · -- otherwise the value starts with a byte from `0x01` to `0x7f`
    simp only [Bool.or_eq_true, not_or, List.isEmpty_iff, ge_iff_le, decide_eq_true_eq] at hpad
    obtain ⟨hne, hhead⟩ := hpad
    refine ⟨Bytes.stripZeros int, ?_, ⟨hne, Bytes.toNat_stripZeros int, ?_, ?_⟩, by omega,
      by omega⟩
    · simp only [integer, List.isEmpty_iff, hne, ge_iff_le, hhead, decide_false, Bool.or_false,
        if_false, List.nil_append]
    · rw [UInt8.lt_iff_toNat_lt]
      rw [UInt8.le_iff_toNat_le] at hhead
      exact Nat.lt_of_not_le hhead
    · intro y rest h
      exact absurd rfl (Bytes.stripZeros_head_ne_zero h)

/-- Zero is one zero byte; a value whose top bit is set gets a zero byte in front. -/
example : Der.integer [0, 0, 0] = [0x02, 0x01, 0x00] ∧
    Der.integer [0, 0x80, 1] = [0x02, 0x03, 0x00, 0x80, 0x01] := by
  decide +kernel

theorem values?_pair {r s : Bytes} (h : r.length + s.length + 6 ≤ 0x7f) :
    values? (pair r s) = some (Bytes.toNat r, Bytes.toNat s) := by
  obtain ⟨b₁, hb₁, ⟨hne₁, hval₁, hhead₁, -⟩, hlen₁, -⟩ := integer_eq_minimal r
  obtain ⟨b₂, hb₂, ⟨hne₂, hval₂, hhead₂, -⟩, hlen₂, -⟩ := integer_eq_minimal s
  have hpos₁ := List.length_pos_iff.2 hne₁
  have hpos₂ := List.length_pos_iff.2 hne₂
  have hlen : (integer r ++ integer s).length ≤ 0x7f := by
    rw [hb₁, hb₂]
    simp only [List.length_append, List.length_cons]
    omega
  have hguard : ¬(decide ((integer r ++ integer s).length.toUInt8 ≥ 0x80) ||
      (integer r ++ integer s).length.toUInt8.toNat != (integer r ++ integer s).length) = true := by
    rw [Nat.toNat_toUInt8_of_lt (by omega)]
    simp only [ge_iff_le, UInt8.le_iff_toNat_le, Nat.toNat_toUInt8_of_lt (show
      (integer r ++ integer s).length < 256 by omega), bne_self_eq_false, Bool.or_false,
      decide_eq_true_eq]
    have h80 : (0x80 : UInt8).toNat = 0x80 := rfl
    omega
  rw [values?, pair]
  simp only [readPair, if_neg hguard]
  have hlast : (0x02 :: b₂.length.toUInt8 :: b₂ : Bytes) =
      0x02 :: b₂.length.toUInt8 :: (b₂ ++ []) := by
    rw [List.append_nil]
  rw [hb₁, hb₂, List.cons_append, List.cons_append, hlast]
  simp only [bind, Option.bind, readInteger_wide _ hpos₁ (by omega) hhead₁,
    readInteger_wide _ hpos₂ (by omega) hhead₂, List.isEmpty_nil, if_true, Option.map_some,
    toNat_toBytesFixed_of_length_le (show b₁.length ≤ 0x7f by omega),
    toNat_toBytesFixed_of_length_le (show b₂.length ≤ 0x7f by omega)]
  rw [hval₁, hval₂]

end Der

theorem Curve.width_le (c : Curve) : c.width ≤ 48 := by
  cases c <;> decide

/-- A signature written to the wire from DER reads back as DER with the same two values; an RSA
signature is its own wire form. -/
theorem SigFormat.toDer_ofDer {fmt : SigFormat} {der sig : Bytes} (h : fmt.ofDer der = .ok sig) :
    ∃ der', fmt.toDer sig = .ok der' ∧ Der.values? der' = Der.values? der ∧
      (fmt = .rsa → der' = der) := by
  cases fmt with
  | rsa =>
    simp only [SigFormat.ofDer, Except.ok.injEq] at h
    subst h
    exact ⟨der, rfl, rfl, fun _ => rfl⟩
  | dsa t =>
    simp only [SigFormat.ofDer] at h
    split at h
    · rename_i r s hpair
      cases h
      obtain ⟨hr, hs, hvals⟩ := Der.readPair_eq_some hpair
      refine ⟨Der.pair r s, ?_, ?_, nofun⟩
      · simp [SigFormat.toDer, hr, hs, dsaHalfWidth]
      · rw [Der.values?_pair (by rw [hr, hs]; decide), hvals]
    · contradiction
  | ecdsa c =>
    simp only [SigFormat.ofDer] at h
    split at h
    · rename_i r s hpair
      cases h
      obtain ⟨hr, hs, hvals⟩ := Der.readPair_eq_some hpair
      refine ⟨Der.pair r s, ?_, ?_, nofun⟩
      · simp [SigFormat.toDer, hr, hs, Nat.two_mul]
      · rw [Der.values?_pair (by rw [hr, hs]; have := c.width_le; omega), hvals]
    · contradiction

theorem SigFormat.head_ofDer_dsa {t : UInt8} {der sig : Bytes}
    (h : (SigFormat.dsa t).ofDer der = .ok sig) : sig.head? = some t := by
  simp only [SigFormat.ofDer] at h
  split at h
  · cases h
    rfl
  · contradiction

/-- Verification does not see the difference between a DER signature and the DER read back from
its wire form. -/
theorem PublicKey.verifyDer_toDer_ofDer (pub : PublicKey) (hf : HashFunction) (data : Bytes)
    {der sig : Bytes} (h : pub.sigFormat.ofDer der = .ok sig) :
    ∃ der', pub.sigFormat.toDer sig = .ok der' ∧
      pub.verifyDer hf der' data = pub.verifyDer hf der data := by
  obtain ⟨der', hder', hvals, hrsa⟩ := SigFormat.toDer_ofDer h
  refine ⟨der', hder', ?_⟩
  cases pub with
  | rsa n e => rw [hrsa rfl]
  | dsa p q g y => simp only [PublicKey.verifyDer, Dsa.verify, hvals]
  | ec c x y => simp only [PublicKey.verifyDer, Ecdsa.verify, hvals]

/-! ## From the wire to DER and back

A DER INTEGER written from `w` bytes is at most one byte longer, and reading it at width `w` puts
back exactly the bytes it was written from, leading zeros included (`Der.readInteger_integer`).
So the DER `toDer` writes is strict, and `ofDer` turns it back into the wire signature.
-/

namespace Der

/-- A DER INTEGER of the non-negative `v`: tag 2, a short-form length and the minimal content. -/
def IsInteger (enc : Bytes) (v : Nat) : Prop :=
  ∃ body, enc = 0x02 :: body.length.toUInt8 :: body ∧ body.length < 0x80 ∧ MinimalBody body v

/-- A strict DER signature of `r` and `s`: a SEQUENCE with a short-form length holding exactly
their two INTEGERs. -/
def IsSignature (der : Bytes) (r s : Nat) : Prop :=
  ∃ er es, IsInteger er r ∧ IsInteger es s ∧ (er ++ es).length < 0x80 ∧
    der = 0x30 :: (er ++ es).length.toUInt8 :: (er ++ es)

theorem length_integer_le (int : Bytes) : (integer int).length ≤ int.length + 3 := by
  obtain ⟨body, henc, -, hlen, -⟩ := integer_eq_minimal int
  rw [henc, List.length_cons, List.length_cons]
  omega

theorem integer_isInteger {int : Bytes} (h : int.length < 0x7f) :
    IsInteger (integer int) (Bytes.toNat int) := by
  obtain ⟨body, henc, hmin, hlen, -⟩ := integer_eq_minimal int
  exact ⟨body, henc, by omega, hmin⟩

theorem readInteger_integer {w : Nat} {int : Bytes} (rest : Bytes) (hw : int.length = w)
    (hshort : w < 0x7f) : readInteger w (integer int ++ rest) = some (int, rest) := by
  obtain ⟨body, henc, ⟨hne, hval, hhead, -⟩, hlen, hover⟩ := integer_eq_minimal int
  -- a content one byte over the width is the bytes behind the zero `integer` put in front
  have hpad : body.length = w + 1 → body.headD 0 = 0 := by
    intro h
    rw [hover (by omega), List.headD_cons]
  rw [henc, List.cons_append, List.cons_append,
    readInteger_body rest (List.length_pos_iff.2 hne) (by omega) hhead (by omega) hpad, hval,
    ← hw, Nat.toBytesFixed_toNat]

/-- Two halves of one width, at most 48 bytes, written as a DER pair: strict DER of their values,
which reads back at that width as the halves themselves. -/
theorem pair_halves {w : Nat} {r s : Bytes} (hr : r.length = w) (hs : s.length = w)
    (hw : w ≤ 48) :
    IsSignature (pair r s) (Bytes.toNat r) (Bytes.toNat s) ∧
      readPair w (pair r s) = some (r, s) := by
  have hlen : (integer r ++ integer s).length < 0x80 := by
    have := length_integer_le r
    have := length_integer_le s
    rw [List.length_append]
    omega
  have hl : (integer r ++ integer s).length.toUInt8.toNat = (integer r ++ integer s).length :=
    Nat.toNat_toUInt8_of_lt (by omega)
  have hguard : ¬(decide ((integer r ++ integer s).length.toUInt8 ≥ 0x80) ||
      (integer r ++ integer s).length.toUInt8.toNat != (integer r ++ integer s).length) = true := by
    simp only [ge_iff_le, UInt8.le_iff_toNat_le, hl, bne_self_eq_false, Bool.or_false,
      decide_eq_true_eq]
    have h80 : (0x80 : UInt8).toNat = 0x80 := rfl
    omega
  have hsnd : readInteger w (integer s) = some (s, []) := by
    simpa using readInteger_integer [] hs (by omega)
  refine ⟨⟨integer r, integer s, integer_isInteger (by omega), integer_isInteger (by omega),
    hlen, rfl⟩, ?_⟩
  simp only [pair, readPair, if_neg hguard, bind, Option.bind,
    readInteger_integer (integer s) hr (by omega), hsnd, List.isEmpty_nil, if_true]

end Der

/-- A wire signature through DER and back.  RSA signatures are the same in both forms.  A DSA
signature of 41 bytes, and an ECDSA one of twice the field width, and only those, become DER:
strict DER of the values of their two halves (after DSA's `T` byte), which `ofDer` turns back
into the same wire signature, with the format's `T` in front for DSA. -/
theorem SigFormat.ofDer_toDer (w : Bytes) :
    (SigFormat.rsa.toDer w = .ok w ∧ SigFormat.rsa.ofDer w = .ok w) ∧
    (∀ t : UInt8, (((SigFormat.dsa t).toDer w).isOk ↔ w.length = 1 + 2 * dsaHalfWidth) ∧
      ∀ der, (SigFormat.dsa t).toDer w = .ok der →
        Der.IsSignature der (Bytes.toNat ((w.drop 1).take dsaHalfWidth))
          (Bytes.toNat (w.drop (1 + dsaHalfWidth))) ∧
        (SigFormat.dsa t).ofDer der = .ok (t :: w.drop 1)) ∧
    (∀ c : Curve, (((SigFormat.ecdsa c).toDer w).isOk ↔ w.length = 2 * c.width) ∧
      ∀ der, (SigFormat.ecdsa c).toDer w = .ok der →
        Der.IsSignature der (Bytes.toNat (w.take c.width)) (Bytes.toNat (w.drop c.width)) ∧
        (SigFormat.ecdsa c).ofDer der = .ok w) := by
  refine ⟨⟨rfl, rfl⟩, fun t => ⟨?_, ?_⟩, fun c => ⟨?_, ?_⟩⟩
  · by_cases h : w.length = 1 + 2 * dsaHalfWidth <;>
      simp [SigFormat.toDer, h, Except.isOk, Except.toBool]
  · intro der h
    simp only [SigFormat.toDer] at h
    split at h
    · contradiction
    · rename_i hlen
      cases h
      have hlen : w.length = 1 + 2 * dsaHalfWidth := by simpa using hlen
      have hr : ((w.drop 1).take dsaHalfWidth).length = dsaHalfWidth := by
        simp only [List.length_take, List.length_drop]
        omega
      have hs : (w.drop (1 + dsaHalfWidth)).length = dsaHalfWidth := by
        rw [List.length_drop]
        omega
      obtain ⟨hsig, hread⟩ := Der.pair_halves hr hs (by decide)
      have hhalves : (w.drop 1).take dsaHalfWidth ++ w.drop (1 + dsaHalfWidth) = w.drop 1 := by
        rw [← List.drop_drop, List.take_append_drop]
      refine ⟨hsig, ?_⟩
      simp only [SigFormat.ofDer, hread, List.cons_append, hhalves]
  · by_cases h : w.length = 2 * c.width <;> simp [SigFormat.toDer, h, Except.isOk, Except.toBool]
  · intro der h
    simp only [SigFormat.toDer] at h
    split at h
    · contradiction
    · rename_i hlen
      cases h
      have hlen : w.length = 2 * c.width := by simpa using hlen
      have hr : (w.take c.width).length = c.width := by
        rw [List.length_take]
        omega
      have hs : (w.drop c.width).length = c.width := by
        rw [List.length_drop]
        omega
      obtain ⟨hsig, hread⟩ := Der.pair_halves hr hs c.width_le
      refine ⟨hsig, ?_⟩
      simp only [SigFormat.ofDer, hread, List.take_append_drop]

/-- A DSA wire signature whose `r` has its top bit set and whose `s` has leading zeros goes to
strict DER and back, taking the format's `T`. -/
theorem SigFormat.ofDer_toDer_dsa :
    ∃ der, SigFormat.toDer
        (5 :: (0x80 :: List.replicate 19 1 ++ List.replicate 19 0 ++ [0x7f])) (.dsa 8) = .ok der ∧
      Der.IsSignature der (Bytes.toNat (0x80 :: List.replicate 19 1))
        (Bytes.toNat (List.replicate 19 0 ++ [0x7f])) ∧
      (SigFormat.dsa 8).ofDer der =
        .ok (8 :: (0x80 :: List.replicate 19 1 ++ List.replicate 19 0 ++ [0x7f])) := by
  obtain ⟨-, hdsa, -⟩ :=
    SigFormat.ofDer_toDer (5 :: (0x80 :: List.replicate 19 1 ++ List.replicate 19 0 ++ [0x7f]))
  obtain ⟨hok, hround⟩ := hdsa 8
  obtain ⟨der, hder⟩ := Except.exists_eq_ok_of_isOk (hok.2 (by decide))
  exact ⟨der, hder, hround der hder⟩

end Dnssec
