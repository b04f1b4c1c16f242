import Dnssec.Proofs.KeyCodec
/-!
# `Dnssec.Proofs.DerGrammar` — the DER signatures the reader takes

`SigFormat.ofDer` turns a DSA or ECDSA signature from DER into its fixed-width wire form.  It is
not a reader of strict DER: it takes INTEGERs with redundant leading zeros, and a value one byte
wider than a half only behind a zero.  Its language is written out here as a grammar, and
`SigFormat.ofDer_grammar` shows that the reader takes exactly it:

* `Der.FitsHalf w c` — the content `c` of one INTEGER: 1 to 127 bytes, non-negative, at most `w`
  bytes or `w + 1` bytes behind a zero;
* `Der.sequence c₁ c₂` — the SEQUENCE of the two INTEGERs, every length in short form and the
  SEQUENCE's counting all the bytes after it;
* `Der.Accepts w der c₁ c₂` — `der` is that SEQUENCE, short enough for a short-form length, of
  two contents that fit a half of width `w`.

The wire form is each value written at the width of a half, behind the format's prefix.  Writing
it back as DER (`SigFormat.toDer`) gives minimal INTEGERs, so it gives the DER read exactly when
both of its INTEGERs were minimal (`Der.pair_toBytesFixed_eq_sequence_iff`): a minimal content
is determined by its value (`Der.MinimalBody.unique`).
-/

namespace Dnssec

namespace Der

/-- The content of an INTEGER that a signature half of width `w` is read from: 1 to 127 bytes,
non-negative, and at most `w` bytes or `w + 1` bytes behind a zero. -/
def FitsHalf (w : Nat) (c : Bytes) : Prop :=
  0 < c.length ∧ c.length < 0x80 ∧ c.headD 0 < 0x80 ∧
    (c.length ≤ w ∨ c.length = w + 1 ∧ c.headD 0 = 0)

/-- A SEQUENCE of two INTEGERs with the contents `c₁` and `c₂`, every length in short form. -/
def sequence (c₁ c₂ : Bytes) : Bytes :=
  0x30 :: (c₁.length + c₂.length + 4).toUInt8 ::
    ((0x02 :: c₁.length.toUInt8 :: c₁) ++ (0x02 :: c₂.length.toUInt8 :: c₂))

/-- The DER signatures read at width `w`: a SEQUENCE with a short-form length of two INTEGERs
whose contents `c₁` and `c₂` fit a half, and nothing after it. -/
def Accepts (w : Nat) (der c₁ c₂ : Bytes) : Prop :=
  der = sequence c₁ c₂ ∧ c₁.length + c₂.length + 4 < 0x80 ∧ FitsHalf w c₁ ∧ FitsHalf w c₂

theorem FitsHalf.toNat_lt {w : Nat} {c : Bytes} (h : FitsHalf w c) :
    Bytes.toNat c < 256 ^ w := by
  obtain ⟨-, -, -, hshort | ⟨hover, hzero⟩⟩ := h
  · calc Bytes.toNat c < 256 ^ c.length := Bytes.toNat_lt c
      _ ≤ 256 ^ w := Nat.pow_le_pow_right (by omega) hshort
  · -- one byte over, behind a zero that adds nothing
    obtain ⟨x, t, rfl⟩ := List.exists_cons_of_length_eq_add_one hover
    rw [List.headD_cons] at hzero
    subst hzero
    rw [Bytes.toNat_cons_zero]
    simp only [List.length_cons, Nat.add_right_cancel_iff] at hover
    rw [← hover]
    exact Bytes.toNat_lt t

theorem FitsHalf.toNat_toBytesFixed {w : Nat} {c : Bytes} (h : FitsHalf w c) :
    Bytes.toNat (Nat.toBytesFixed w (Bytes.toNat c)) = Bytes.toNat c := by
  rw [Nat.toNat_toBytesFixed, Nat.mod_eq_of_lt h.toNat_lt]

/-- Reading an INTEGER at width `w`: it succeeds exactly on a short-form length over a content
that fits a half, and gives the content's value at the width. -/
theorem readInteger_eq_some_iff {w : Nat} {input r rest : Bytes} :
    readInteger w input = some (r, rest) ↔ ∃ c, input = 0x02 :: c.length.toUInt8 :: (c ++ rest) ∧
      FitsHalf w c ∧ r = Nat.toBytesFixed w (Bytes.toNat c) := by
  constructor
  · intro h
    unfold readInteger at h
    split at h
    · rename_i len input
      simp only [Option.ite_none_left_eq_some, Option.some.injEq, Prod.mk.injEq] at h
      obtain ⟨hguard, hhead, hpad, hwidth, rfl, rfl⟩ := h
      simp only [Bool.or_eq_true, decide_eq_true_eq, not_or, ge_iff_le, UInt8.le_iff_toNat_le,
        Nat.not_le] at hguard
      obtain ⟨⟨hlen0, hlen80⟩, hlong⟩ := hguard
      have h80 : (0x80 : UInt8).toNat = 0x80 := rfl
      have hpos : len.toNat ≠ 0 := fun h0 => hlen0 (UInt8.toNat_inj.1 h0)
      have hbody : (input.take len.toNat).length = len.toNat := by simp; omega
      simp only [Bool.and_eq_true, decide_eq_true_eq, bne_iff_ne, ne_eq, not_and,
        Decidable.not_not] at hpad
      -- a content one byte over the width starts with a zero, which the value does not see
      have hvalue : Bytes.toNat (if (input.take len.toNat).length = w + 1 then
          (input.take len.toNat).drop 1 else input.take len.toNat) =
          Bytes.toNat (input.take len.toNat) := by
        split
        · rename_i hw
          have hzero := hpad hw
          obtain ⟨x, t, hxt⟩ := List.exists_cons_of_length_eq_add_one hw
          rw [hxt, List.headD_cons] at hzero
          rw [hxt, hzero, List.drop_one, List.tail_cons, Bytes.toNat_cons_zero]
        · rfl
      refine ⟨input.take len.toNat, ?_, ⟨by omega, by omega, ?_, ?_⟩, by rw [hvalue]⟩
      · rw [hbody, Nat.toUInt8_eq, UInt8.ofNat_toNat, List.take_append_drop]
      · simpa [UInt8.lt_iff_toNat_lt, UInt8.le_iff_toNat_le] using hhead
      · by_cases hw : (input.take len.toNat).length = w + 1
        · exact Or.inr ⟨hw, hpad hw⟩
        · rw [if_neg hw] at hwidth
          exact Or.inl (by omega)
    · contradiction
  · rintro ⟨c, rfl, ⟨hpos, hlen, hhead, hwidth⟩, rfl⟩
    refine readInteger_body rest hpos (by omega) hhead (by omega) ?_
    intro hover
    rcases hwidth with hshort | ⟨-, hzero⟩
    · omega
    · exact hzero

/-- Reading a signature at width `w`: it succeeds exactly on the grammar, with each value at the
width. -/
theorem readPair_eq_some_iff {w : Nat} {der r s : Bytes} :
    readPair w der = some (r, s) ↔ ∃ c₁ c₂, Accepts w der c₁ c₂ ∧
      r = Nat.toBytesFixed w (Bytes.toNat c₁) ∧ s = Nat.toBytesFixed w (Bytes.toNat c₂) := by
  constructor
  · intro h
    unfold readPair at h
    split at h
    · rename_i len rest
      simp only [Option.ite_none_left_eq_some, bind, Option.bind_eq_some_iff] at h
      obtain ⟨hguard, ⟨r', rest₁⟩, h₁, ⟨s', rest₂⟩, h₂, h₃⟩ := h
      simp only [Option.ite_none_right_eq_some, List.isEmpty_iff, Option.some.injEq,
        Prod.mk.injEq] at h₃
      obtain ⟨rfl, rfl, rfl⟩ := h₃
      obtain ⟨c₁, rfl, hfit₁, rfl⟩ := readInteger_eq_some_iff.1 h₁
      obtain ⟨c₂, rfl, hfit₂, rfl⟩ := readInteger_eq_some_iff.1 h₂
      simp only [Bool.or_eq_true, decide_eq_true_eq, bne_iff_ne, ne_eq, not_or, ge_iff_le,
        UInt8.le_iff_toNat_le, Nat.not_le, Decidable.not_not] at hguard
      obtain ⟨hshort, hcount⟩ := hguard
      have h80 : (0x80 : UInt8).toNat = 0x80 := rfl
      -- the SEQUENCE's length byte is the count of the bytes after it
      have hcount : len.toNat = c₁.length + c₂.length + 4 := by
        simp only [List.length_cons, List.length_append, List.length_nil] at hcount
        omega
      have hlen : len = (c₁.length + c₂.length + 4).toUInt8 := by
        rw [Nat.toUInt8_eq, ← hcount, UInt8.ofNat_toNat]
      refine ⟨c₁, c₂, ⟨?_, by omega, hfit₁, hfit₂⟩, rfl, rfl⟩
      rw [hlen, sequence]
      simp only [List.append_nil, List.cons_append]
    · contradiction
  · rintro ⟨c₁, c₂, ⟨rfl, hshort, hfit₁, hfit₂⟩, rfl, rfl⟩
    have hcount : (c₁.length + c₂.length + 4).toUInt8.toNat = c₁.length + c₂.length + 4 :=
      Nat.toNat_toUInt8_of_lt (by omega)
    have hguard : ¬ (decide ((c₁.length + c₂.length + 4).toUInt8 ≥ 0x80) ||
        (c₁.length + c₂.length + 4).toUInt8.toNat !=
          ((0x02 :: c₁.length.toUInt8 :: c₁) ++ (0x02 :: c₂.length.toUInt8 :: c₂)).length) =
        true := by
      have h80 : (0x80 : UInt8).toNat = 0x80 := rfl
      simp only [ge_iff_le, UInt8.le_iff_toNat_le, hcount, h80, List.length_append,
        List.length_cons, Bool.or_eq_true, decide_eq_true_eq, bne_iff_ne, ne_eq, not_or,
        Nat.not_le, Decidable.not_not]
      omega
    have hsnd : readInteger w (0x02 :: c₂.length.toUInt8 :: c₂) =
        some (Nat.toBytesFixed w (Bytes.toNat c₂), []) :=
      readInteger_eq_some_iff.2 ⟨c₂, by rw [List.append_nil], hfit₂, rfl⟩
    have hfst : readInteger w ((0x02 :: c₁.length.toUInt8 :: c₁) ++
        (0x02 :: c₂.length.toUInt8 :: c₂)) =
        some (Nat.toBytesFixed w (Bytes.toNat c₁), 0x02 :: c₂.length.toUInt8 :: c₂) :=
      readInteger_eq_some_iff.2 ⟨c₁, rfl, hfit₁, rfl⟩
    simp only [sequence, readPair, if_neg hguard, bind, Option.bind, hfst, hsnd,
      List.isEmpty_nil, if_true]

/-- A minimal content is the minimal big-endian form of its value, behind a zero exactly when
that form is empty or starts with its top bit set. -/
theorem MinimalBody.eq_pad {b : Bytes} {v : Nat} (h : MinimalBody b v) :
    b = (if (Nat.toBytes v).isEmpty || (Nat.toBytes v).headD 0 ≥ 0x80 then [0] else []) ++
      Nat.toBytes v := by
  obtain ⟨hne, rfl, hhead, hzero⟩ := h
  rw [Nat.toBytes_toNat]
  obtain ⟨x, rest, rfl⟩ := List.exists_cons_of_ne_nil hne
  by_cases hx : x = 0
  · subst hx
    cases rest with
    | nil => rfl
    | cons y rest =>
      -- a leading zero stands only before a byte with its top bit set
      have hy : 0x80 ≤ y := hzero y rest rfl
      have hy0 : y ≠ 0 := by
        rintro rfl
        exact absurd hy (by decide)
      rw [Bytes.stripZeros, if_pos rfl, Bytes.stripZeros, if_neg hy0]
      simp [hy]
  · rw [Bytes.stripZeros, if_neg hx]
    have hx80 : ¬ (x ≥ 0x80) := by
      rw [List.headD_cons] at hhead
      rw [ge_iff_le, UInt8.le_iff_toNat_le]
      rw [UInt8.lt_iff_toNat_lt] at hhead
      omega
    simp [hx80]

/-- A value has one minimal content. -/
theorem MinimalBody.unique {b c : Bytes} {v : Nat} (hb : MinimalBody b v) (hc : MinimalBody c v) :
    b = c :=
  hb.eq_pad.trans hc.eq_pad.symm

/-- An INTEGER written from bytes holding the value of `c` is `c` behind its tag and length
exactly when `c` is the minimal content of its value. -/
theorem integer_eq_iff_minimal {int c : Bytes} (hvalue : Bytes.toNat int = Bytes.toNat c) :
    integer int = 0x02 :: c.length.toUInt8 :: c ↔ MinimalBody c (Bytes.toNat c) := by
  obtain ⟨body, henc, hmin, -, -⟩ := integer_eq_minimal int
  rw [hvalue] at hmin
  rw [henc]
  constructor
  · intro h
    have hbody : body = c := (List.cons.inj (List.cons.inj h).2).2
    subst hbody
    exact hmin
  · intro hc
    rw [MinimalBody.unique hmin hc]

theorem integer_append_inj {b₁ c₁ t u : Bytes} (hb : b₁.length < 256) (hc : c₁.length < 256)
    (h : (0x02 :: b₁.length.toUInt8 :: b₁) ++ t = (0x02 :: c₁.length.toUInt8 :: c₁) ++ u) :
    b₁ = c₁ ∧ t = u := by
  simp only [List.cons_append, List.cons.injEq, true_and] at h
  obtain ⟨hlen, h⟩ := h
  have hlen : b₁.length = c₁.length := by
    rw [← Nat.toNat_toUInt8_of_lt hb, ← Nat.toNat_toUInt8_of_lt hc, hlen]
  exact List.append_inj h hlen

/-- The DER pair written from the values of two contents, each at the width of a half, is the
SEQUENCE of those contents exactly when both are minimal. -/
theorem pair_toBytesFixed_eq_sequence_iff {w : Nat} {c₁ c₂ : Bytes} (hw : w < 0x7f)
    (h₁ : FitsHalf w c₁) (h₂ : FitsHalf w c₂) :
    pair (Nat.toBytesFixed w (Bytes.toNat c₁)) (Nat.toBytesFixed w (Bytes.toNat c₂)) =
        sequence c₁ c₂ ↔
      MinimalBody c₁ (Bytes.toNat c₁) ∧ MinimalBody c₂ (Bytes.toNat c₂) := by
  rw [← integer_eq_iff_minimal h₁.toNat_toBytesFixed,
    ← integer_eq_iff_minimal h₂.toNat_toBytesFixed]
  obtain ⟨b₁, henc₁, -, hlen₁, -⟩ := integer_eq_minimal (Nat.toBytesFixed w (Bytes.toNat c₁))
  obtain ⟨b₂, henc₂, -, hlen₂, -⟩ := integer_eq_minimal (Nat.toBytesFixed w (Bytes.toNat c₂))
  rw [Nat.length_toBytesFixed] at hlen₁ hlen₂
  have hc₁ := h₁.2.1
  have hc₂ := h₂.2.1
  rw [pair, sequence, henc₁, henc₂]
  constructor
  · -- the SEQUENCEs agree after their headers, and the INTEGERs are read apart by length
    intro h
    have hbody := (List.cons.inj (List.cons.inj h).2).2
    obtain ⟨rfl, htail⟩ := integer_append_inj (by omega) (by omega) hbody
    exact ⟨rfl, htail⟩
  · rintro ⟨h₁', h₂'⟩
    have hb₁ := (List.cons.inj (List.cons.inj h₁').2).2
    have hb₂ := (List.cons.inj (List.cons.inj h₂').2).2
    subst hb₁ hb₂
    have hlen : (b₁.length + 1 + 1 + (b₂.length + 1 + 1)) = b₁.length + b₂.length + 4 := by
      omega
    simp only [List.length_append, List.length_cons, hlen]

end Der

namespace SigFormat

/-- The width of each half of a DSA or ECDSA wire signature, and the bytes before the halves:
DSA's `T`, nothing for ECDSA.  RSA signatures are not cut into halves. -/
def halves : SigFormat → Option (Nat × Bytes)
  | .rsa => none
  | .dsa t => some (dsaHalfWidth, [t])
  | .ecdsa c => some (c.width, [])

theorem halves_width_lt {fmt : SigFormat} {w : Nat} {pre : Bytes}
    (h : fmt.halves = some (w, pre)) : w < 0x7f := by
  cases fmt with
  | rsa => cases h
  | dsa t =>
    cases h
    decide
  | ecdsa c =>
    cases h
    have := c.width_le
    omega

theorem ofDer_of_halves {fmt : SigFormat} {w : Nat} {pre : Bytes}
    (h : fmt.halves = some (w, pre)) (der : Bytes) :
    fmt.ofDer der = match Der.readPair w der with
      | some (r, s) => .ok (pre ++ (r ++ s))
      | none => .error .verificationFailed := by
  cases fmt with
  | rsa => cases h
  | dsa t =>
    cases h
    simp only [ofDer]
    cases Der.readPair dsaHalfWidth der with
    | none => rfl
    | some p => rfl
  | ecdsa c =>
    cases h
    simp only [ofDer]
    cases Der.readPair c.width der with
    | none => rfl
    | some p => rfl

theorem toDer_of_halves {fmt : SigFormat} {w : Nat} {pre : Bytes}
    (h : fmt.halves = some (w, pre)) {r s : Bytes} (hr : r.length = w) (hs : s.length = w) :
    fmt.toDer (pre ++ (r ++ s)) = .ok (Der.pair r s) := by
  cases fmt with
  | rsa => cases h
  | dsa t =>
    cases h
    have hlen : (t :: (r ++ s)).length = 1 + 2 * dsaHalfWidth := by
      simp only [List.length_cons, List.length_append, hr, hs]
      omega
    simp only [toDer, List.singleton_append, hlen, bne_self_eq_false, Bool.false_eq_true,
      if_false, List.drop_one, List.tail_cons, List.take_left' hr]
    rw [show 1 + dsaHalfWidth = (t :: r).length by simp [hr]; omega, ← List.cons_append,
      List.drop_left' rfl]
  | ecdsa c =>
    cases h
    have hlen : (r ++ s).length = 2 * c.width := by
      simp only [List.length_append, hr, hs]
      omega
    simp only [toDer, List.nil_append, hlen, bne_self_eq_false, Bool.false_eq_true, if_false,
      List.take_left' hr, List.drop_left' hr]

/-- The DER signatures `ofDer` takes for DSA (halves of 20 bytes behind `T`) and ECDSA (halves
of the field width): exactly the SEQUENCEs of two INTEGERs of `Der.Accepts`, whose values it
writes at the width of a half behind the prefix; every other input is `verificationFailed`.  The
wire form written back as DER is the DER read exactly when both INTEGERs were minimal. -/
theorem ofDer_grammar {fmt : SigFormat} {w : Nat} {pre : Bytes} (hfmt : fmt.halves = some (w, pre))
    (der : Bytes) :
    (∀ wire, fmt.ofDer der = .ok wire ↔ ∃ c₁ c₂, Der.Accepts w der c₁ c₂ ∧
      wire = pre ++ (Nat.toBytesFixed w (Bytes.toNat c₁) ++ Nat.toBytesFixed w (Bytes.toNat c₂))) ∧
    ((¬ ∃ c₁ c₂, Der.Accepts w der c₁ c₂) → fmt.ofDer der = .error .verificationFailed) ∧
    ∀ c₁ c₂, Der.Accepts w der c₁ c₂ →
      (fmt.toDer (pre ++ (Nat.toBytesFixed w (Bytes.toNat c₁) ++
          Nat.toBytesFixed w (Bytes.toNat c₂))) = .ok der ↔
        Der.MinimalBody c₁ (Bytes.toNat c₁) ∧ Der.MinimalBody c₂ (Bytes.toNat c₂)) := by
  refine ⟨fun wire => ?_, fun hnone => ?_, fun c₁ c₂ haccepts => ?_⟩
  · rw [ofDer_of_halves hfmt]
    constructor
    · intro h
      split at h
      · rename_i r s hpair
        obtain ⟨c₁, c₂, haccepts, rfl, rfl⟩ := Der.readPair_eq_some_iff.1 hpair
        exact ⟨c₁, c₂, haccepts, (Except.ok.inj h).symm⟩
      · cases h
    · rintro ⟨c₁, c₂, haccepts, rfl⟩
      rw [Der.readPair_eq_some_iff.2 ⟨c₁, c₂, haccepts, rfl, rfl⟩]
  · rw [ofDer_of_halves hfmt]
    split
    · rename_i r s hpair
      obtain ⟨c₁, c₂, haccepts, -, -⟩ := Der.readPair_eq_some_iff.1 hpair
      exact absurd ⟨c₁, c₂, haccepts⟩ hnone
    · rfl
  · obtain ⟨rfl, -, h₁, h₂⟩ := haccepts
    rw [toDer_of_halves hfmt (Nat.length_toBytesFixed _ _) (Nat.length_toBytesFixed _ _),
      Except.ok.injEq]
    exact Der.pair_toBytesFixed_eq_sequence_iff (halves_width_lt hfmt) h₁ h₂

/-- A DSA signature whose `r` has a redundant leading zero is read, `r` and `s` as 1 at the
width of a half behind `T`; written back it is minimal DER, not the DER read. -/
theorem ofDer_grammar_padded :
    (SigFormat.dsa 3).ofDer [0x30, 0x07, 0x02, 0x02, 0x00, 0x01, 0x02, 0x01, 0x01] =
        .ok ([3] ++ (Nat.toBytesFixed dsaHalfWidth (Bytes.toNat [0x00, 0x01]) ++
          Nat.toBytesFixed dsaHalfWidth (Bytes.toNat [0x01]))) ∧
      (SigFormat.dsa 3).toDer ([3] ++ (Nat.toBytesFixed dsaHalfWidth (Bytes.toNat [0x00, 0x01]) ++
          Nat.toBytesFixed dsaHalfWidth (Bytes.toNat [0x01]))) ≠
        .ok [0x30, 0x07, 0x02, 0x02, 0x00, 0x01, 0x02, 0x01, 0x01] := by
  have haccepts : Der.Accepts dsaHalfWidth [0x30, 0x07, 0x02, 0x02, 0x00, 0x01, 0x02, 0x01, 0x01]
      [0x00, 0x01] [0x01] := by
    unfold Der.Accepts Der.FitsHalf Der.sequence
    decide +kernel
  obtain ⟨hread, -, hfixed⟩ := @SigFormat.ofDer_grammar (.dsa 3) dsaHalfWidth [3] rfl
    [0x30, 0x07, 0x02, 0x02, 0x00, 0x01, 0x02, 0x01, 0x01]
  refine ⟨(hread _).2 ⟨_, _, haccepts, rfl⟩, fun h => ?_⟩
  -- the zero in front of `0x01` is redundant
  have hminimal := ((hfixed _ _ haccepts).1 h).1
  exact absurd (hminimal.2.2.2 0x01 [] rfl) (by decide)

end SigFormat

end Dnssec
