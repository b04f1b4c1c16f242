import Dnssec.Proofs.NamePrint
/-!
# `Dnssec.Proofs.NameWire` — the canonical wire form of a name, and its length

RFC 4034 section 6.2 writes an owner name uncompressed and in ASCII lower case: each label behind
its length byte, then the zero byte of the root.  `Name.wire` writes it from the labels.  Read off
the presentation text instead, the same bytes come from lowering the text, cutting it at its dots
and writing each piece behind its length, the empty piece after the final dot giving the zero byte
(`textWire`); `Name.wireLength` counts the length that way.  On every valid name they agree:

* `wire_eq_labels` — the wire form, label by label;
* `splitOnByte_flatMap` — labels each followed by a dot, none holding one, cut back into the
  labels and one empty piece;
* `Valid.wire_eq_textWire` — writing the text gives the wire form;
* `Valid.wireLength_eq` — the length counted on the text is the length of the wire form, which
  is the text's length plus one, or one for the root (`Valid.length_wire_text`);
* `Name.wire_layout` — all of it together, with the length bytes from 1 to 63, no zero byte
  before the last, one dot of the text per label, and the wire form identifying a valid name up
  to ASCII case;
* `Valid.equivCase_iff_text` — names are compared by their texts, byte by byte once lowered
  (`textEqIgnoreCase`); on valid names that is `Name.equivCase`, the comparison of their lowered
  labels.
-/

namespace Dnssec

theorem splitOnByte_append_sep {sep : UInt8} {l : Bytes} (h : sep ∉ l) (rest : Bytes) :
    splitOnByte sep (l ++ sep :: rest) = l :: splitOnByte sep rest := by
  induction l with
  | nil => simp [splitOnByte]
  | cons b l ih =>
    have hb : b ≠ sep := fun hb => h (hb ▸ List.mem_cons_self)
    have hl : sep ∉ l := fun hl => h (List.mem_cons_of_mem b hl)
    rw [List.cons_append, splitOnByte, if_neg hb, ih hl]

/-- Pieces each followed by `sep`, none holding `sep`, cut back into the pieces and the empty
piece after the last `sep`. -/
theorem splitOnByte_flatMap {sep : UInt8} {ls : List Bytes} (h : ∀ l ∈ ls, sep ∉ l) :
    splitOnByte sep (ls.flatMap (· ++ [sep])) = ls ++ [[]] := by
  induction ls with
  | nil => rfl
  | cons l ls ih =>
    rw [List.flatMap_cons, List.append_assoc, List.singleton_append,
      splitOnByte_append_sep (h l List.mem_cons_self),
      ih (fun l' hl' => h l' (List.mem_cons_of_mem l hl')), List.cons_append]

/-- Lowering keeps every byte that is not an ASCII letter, and no letter lowers to one. -/
theorem lowerByte_eq_iff_of_not_letter {b c : UInt8} (hup : ¬ (0x41 ≤ c.toNat ∧ c.toNat ≤ 0x5a))
    (hlow : ¬ (0x61 ≤ c.toNat ∧ c.toNat ≤ 0x7a)) : lowerByte b = c ↔ b = c := by
  unfold lowerByte
  by_cases hb : (0x41 ≤ b && b ≤ 0x5a) = true
  · -- an upper-case letter lowers to a lower-case one, and neither is `c`
    rw [if_pos hb]
    simp only [Bool.and_eq_true, decide_eq_true_eq, UInt8.le_iff_toNat_le] at hb
    simp only [UInt8.ext_iff, UInt8.toNat_add]
    have h20 : (0x20 : UInt8).toNat = 0x20 := rfl
    have h41 : (0x41 : UInt8).toNat = 0x41 := rfl
    have h5a : (0x5a : UInt8).toNat = 0x5a := rfl
    omega
  · rw [if_neg hb]

theorem lowerByte_eq_zero_iff {b : UInt8} : lowerByte b = 0 ↔ b = 0 :=
  lowerByte_eq_iff_of_not_letter (by decide) (by decide)

theorem lowerByte_eq_dot_iff {b : UInt8} : lowerByte b = 0x2e ↔ b = 0x2e :=
  lowerByte_eq_iff_of_not_letter (by decide) (by decide)

/-- The wire form as written from the presentation text: the text in ASCII lower case, cut at its
dots, each piece behind its length byte, so that the empty piece after the final dot is the
closing zero byte; the root `.` is the zero byte alone. -/
def textWire (s : String) : Bytes :=
  let lower := s.toList.map fun c => lowerByte c.toNat.toUInt8
  if lower = [0x2e] then [0]
  else (splitOnByte 0x2e lower).flatMap fun piece => piece.length.toUInt8 :: piece

/-- Equality of two texts ignoring ASCII case, as presentation texts of names are compared: as
long as each other, and pairwise equal byte by byte once lowered. -/
def textEqIgnoreCase (s t : String) : Bool :=
  s.length == t.length &&
    (s.toList.zip t.toList).all fun (c, d) => lowerByte c.toNat.toUInt8 == lowerByte d.toNat.toUInt8

theorem textEqIgnoreCase_iff {s t : String} :
    textEqIgnoreCase s t = true ↔ s.toList.map (fun c => lowerByte c.toNat.toUInt8) =
      t.toList.map (fun c => lowerByte c.toNat.toUInt8) := by
  unfold textEqIgnoreCase
  rw [← String.length_toList, ← String.length_toList]
  generalize s.toList = cs
  generalize t.toList = ds
  -- one character of each at a time; texts of different lengths differ once lowered
  induction cs generalizing ds with
  | nil => cases ds <;> simp
  | cons c cs ih =>
    cases ds with
    | nil => simp
    | cons d ds =>
      simp only [List.length_cons, List.zip_cons_cons, List.all_cons, List.map_cons,
        List.cons.injEq, ← ih]
      simp only [Nat.add_right_cancel_iff, Bool.and_eq_true, beq_iff_eq]
      exact and_left_comm

namespace Name

/-- The wire form, label by label: each label's length byte, then the label in lower case. -/
theorem wire_eq_labels (n : Name) :
    n.wire = (n.labels.flatMap fun l => l.length.toUInt8 :: l.map lowerByte) ++ [0] := by
  simp [wire, canonicalLabels, List.flatMap_map]

theorem length_wire (n : Name) : n.wire.length = (n.labels.map (·.length + 1)).sum + 1 := by
  rw [wire_eq_labels, List.length_append, List.length_singleton, List.length_flatMap]
  simp [Nat.add_comm]

theorem textBytes_toString {n : Name} (h : n.labels ≠ []) :
    n.toString.toList.map (fun c => c.toNat.toUInt8) = n.labels.flatMap (· ++ [0x2e]) := by
  rw [toString_eq h, String.toList_ofList, labelsText, List.map_flatMap]
  congr 1
  funext l
  simp only [List.map_append, List.map_map, Function.comp_def, Char.toUInt8_ofNat_byte,
    List.map_id', List.map_cons, List.map_nil]
  rfl

theorem foldl_pieceLength (ps : List Bytes) (a : Nat) :
    ps.foldl (fun (acc : Nat) (piece : Bytes) => acc + (1 + piece.length)) a =
      a + (ps.map (·.length + 1)).sum := by
  induction ps generalizing a with
  | nil => simp
  | cons p ps ih =>
    rw [List.foldl_cons, ih, List.map_cons, List.sum_cons]
    omega

theorem lowerText_toString (n : Name) :
    n.toString.toList.map (fun c => lowerByte c.toNat.toUInt8) =
      if n.labels = [] then [0x2e] else n.canonicalLabels.flatMap (· ++ [0x2e]) := by
  by_cases h : n.labels = []
  · rw [if_pos h, eq_root_of_labels_eq_nil h]
    rfl
  · have hcomp : (fun c : Char => lowerByte c.toNat.toUInt8) =
        lowerByte ∘ fun c => c.toNat.toUInt8 := rfl
    have hdot : lowerByte 0x2e = 0x2e := lowerByte_eq_dot_iff.2 rfl
    rw [if_neg h, hcomp, ← List.map_map, textBytes_toString h, List.map_flatMap]
    simp [canonicalLabels, List.flatMap_map, hdot]

theorem Valid.dot_not_mem {n : Name} (hn : n.Valid) {l : Bytes} (hl : l ∈ n.labels) :
    (0x2e : UInt8) ∉ l := fun hdot =>
  (isLabelByte_iff.1 ((hn.1 l hl).2.2 _ hdot)).2.2 rfl

theorem Valid.toString_ne_dot {n : Name} (hn : n.Valid) (h : n.labels ≠ []) :
    n.toString ≠ "." := by
  intro hdot
  have hlen := congrArg (·.toList.length) hdot
  simp only [toString_eq h, String.toList_ofList, length_labelsText] at hlen
  have hone : ".".toList.length = 1 := rfl
  have := hn.two_le_sum_labels h
  omega

theorem Valid.dot_not_mem_canonical {n : Name} (hn : n.Valid) {l : Bytes}
    (hl : l ∈ n.canonicalLabels) : (0x2e : UInt8) ∉ l := by
  simp only [canonicalLabels, List.mem_map] at hl
  obtain ⟨l', hl', rfl⟩ := hl
  intro hdot
  obtain ⟨b, hb, hlow⟩ := List.mem_map.1 hdot
  exact hn.dot_not_mem hl' (lowerByte_eq_dot_iff.1 hlow ▸ hb)

/-- Writing the text as the wire form is writing the labels: lowering the text lowers each label
and keeps the dots, and cutting at the dots gives the lowered labels and the empty piece that
becomes the closing zero byte. -/
theorem Valid.wire_eq_textWire {n : Name} (hn : n.Valid) : n.wire = textWire n.toString := by
  by_cases h : n.labels = []
  · rw [eq_root_of_labels_eq_nil h]
    rfl
  · have hlower := lowerText_toString n
    rw [if_neg h] at hlower
    -- the lowered text is as long as the text, longer than a lone dot
    have hne : n.canonicalLabels.flatMap (· ++ [(0x2e : UInt8)]) ≠ [0x2e] := by
      intro hdot
      have hlen := congrArg List.length (hlower.trans hdot)
      rw [List.length_map, toString_eq h, String.toList_ofList, length_labelsText,
        List.length_singleton] at hlen
      have := hn.two_le_sum_labels h
      omega
    unfold textWire
    dsimp only
    rw [hlower, if_neg hne, splitOnByte_flatMap (fun l hl => hn.dot_not_mem_canonical hl),
      List.flatMap_append, wire]
    rfl

/-- Valid names are equal ignoring ASCII case exactly when their presentation texts are: the
lowered text is the lowered labels behind dots, and it gives back the wire form, which tells valid
names apart up to case. -/
theorem Valid.equivCase_iff_text {a b : Name} (ha : a.Valid) (hb : b.Valid) :
    a.equivCase b = true ↔ textEqIgnoreCase a.toString b.toString = true := by
  rw [textEqIgnoreCase_iff]
  constructor
  · intro h
    have hcount : a.labels.length = b.labels.length := labelCount_eq_of_equivCase h
    have hroot : a.labels = [] ↔ b.labels = [] := by
      rw [← List.length_eq_zero_iff, hcount, List.length_eq_zero_iff]
    rw [lowerText_toString, lowerText_toString, equivCase_iff.1 h]
    simp only [hroot]
  · intro h
    rw [← ha.wire_eq_iff hb, ha.wire_eq_textWire, hb.wire_eq_textWire]
    unfold textWire
    dsimp only
    rw [h]

/-- The length counted on the text is the length of the wire form. -/
theorem Valid.wireLength_eq {n : Name} (hn : n.Valid) : n.wireLength.toNat = n.wire.length := by
  by_cases h : n.labels = []
  · rw [eq_root_of_labels_eq_nil h]
    rfl
  · unfold wireLength
    dsimp only
    rw [if_neg (hn.toString_ne_dot h), textBytes_toString h,
      splitOnByte_flatMap (fun l hl => hn.dot_not_mem hl), foldl_pieceLength, length_wire]
    simp only [List.map_append, List.sum_append, List.map_singleton, List.length_nil,
      List.sum_singleton, Nat.toUInt16_eq]
    -- the text is at most 255 bytes, so the count does not wrap
    have hsum := hn.2
    have hsize : UInt16.size = 65536 := rfl
    rw [UInt16.toNat_ofNat_of_lt' (by omega)]
    omega

/-- The wire form is one byte longer than the text, or one byte for the root. -/
theorem Valid.length_wire_text {n : Name} (hn : n.Valid) :
    n.wire.length = if n.labels = [] then 1 else n.toString.utf8ByteSize + 1 := by
  by_cases h : n.labels = []
  · rw [if_pos h, length_wire, h]
    rfl
  · rw [if_neg h, length_wire, toString_eq h, hn.utf8ByteSize_labelsText]

theorem Valid.count_dot_toString {n : Name} (hn : n.Valid) (h : n.labels ≠ []) :
    n.toString.toList.count '.' = n.labelCount := by
  rw [toString_eq h, String.toList_ofList, labelsText, List.count_flatMap, labelCount]
  simp only [Function.comp_def]
  have hone : ∀ l ∈ n.labels,
      (l.map (fun b => Char.ofNat b.toNat) ++ ['.']).count '.' = 1 := by
    intro l hl
    rw [List.count_append, List.count_eq_zero.2 (hn.labelText hl).dot_not_mem]
    rfl
  rw [List.map_congr_left hone, List.map_const', List.sum_replicate, smul_eq_mul, Nat.mul_one]

/-- No byte before the closing zero of a valid name's wire form is zero: the length bytes are 1
to 63 and the label bytes printable. -/
theorem Valid.zero_not_mem_labels {n : Name} (hn : n.Valid) :
    (0 : UInt8) ∉ n.labels.flatMap fun l => l.length.toUInt8 :: l.map lowerByte := by
  simp only [List.mem_flatMap, List.mem_cons, List.mem_map, not_exists, not_and, not_or]
  intro l hl
  obtain ⟨hne, hlen, hbytes⟩ := hn.1 l hl
  have hpos : 0 < l.length := List.length_pos_iff.2 hne
  refine ⟨(Nat.toUInt8_ne_zero hpos (by omega)).symm, fun b hb hzero => ?_⟩
  have hb0 : b = 0 := lowerByte_eq_zero_iff.1 hzero
  have := (isLabelByte_iff.1 (hbytes b hb)).1
  rw [hb0] at this
  exact absurd this (by decide)

/-- The canonical wire form of a valid name: each label behind its length byte, lowered to ASCII
lower case, then a zero byte (the zero byte alone for the root); it is what writing the lowered
text piece by piece between its dots gives.  The length bytes are the label lengths, from 1 to 63,
and no byte before the final one is zero; the text has one dot per label.  The length counted on
the text is the length of the wire form, the text's length plus one (one for the root), and two
valid names have the same wire form exactly when they are equal ignoring ASCII case. -/
theorem wire_layout (n : Name) (hn : n.Valid) :
    n.wire = (n.labels.flatMap fun l => l.length.toUInt8 :: l.map lowerByte) ++ [0] ∧
    n.wire = textWire n.toString ∧
    (∀ l ∈ n.labels, l.length.toUInt8.toNat = l.length ∧ 1 ≤ l.length ∧ l.length ≤ 63) ∧
    (0 : UInt8) ∉ (n.labels.flatMap fun l => l.length.toUInt8 :: l.map lowerByte) ∧
    (n.labels ≠ [] → n.toString.toList.count '.' = n.labelCount) ∧
    n.wireLength.toNat = n.wire.length ∧
    n.wire.length = (if n.labels = [] then 1 else n.toString.utf8ByteSize + 1) ∧
    ∀ m : Name, m.Valid → (n.wire = m.wire ↔ n.equivCase m = true) := by
  refine ⟨wire_eq_labels n, hn.wire_eq_textWire, fun l hl => ?_, hn.zero_not_mem_labels,
    hn.count_dot_toString,
    hn.wireLength_eq, hn.length_wire_text, fun m hm => hn.wire_eq_iff hm⟩
  obtain ⟨hne, hlen, -⟩ := hn.1 l hl
  have hpos : 0 < l.length := List.length_pos_iff.2 hne
  exact ⟨Nat.toNat_toUInt8_of_lt (by omega), hpos, hlen⟩

/-- `WWW.Example.COM.` is a valid name, and its length counted on the text is its wire length. -/
theorem wire_layout_mixed_case :
    (⟨[[0x57, 0x57, 0x57], [0x45, 0x78, 0x61, 0x6d, 0x70, 0x6c, 0x65], [0x43, 0x4f, 0x4d]]⟩ :
      Name).Valid ∧
    (⟨[[0x57, 0x57, 0x57], [0x45, 0x78, 0x61, 0x6d, 0x70, 0x6c, 0x65], [0x43, 0x4f, 0x4d]]⟩ :
      Name).wireLength.toNat =
    (⟨[[0x57, 0x57, 0x57], [0x45, 0x78, 0x61, 0x6d, 0x70, 0x6c, 0x65], [0x43, 0x4f, 0x4d]]⟩ :
      Name).wire.length := by
  have hn : (⟨[[0x57, 0x57, 0x57], [0x45, 0x78, 0x61, 0x6d, 0x70, 0x6c, 0x65],
      [0x43, 0x4f, 0x4d]]⟩ : Name).Valid := by
    decide +kernel
  exact ⟨hn, (wire_layout _ hn).2.2.2.2.2.1⟩

end Name

end Dnssec
