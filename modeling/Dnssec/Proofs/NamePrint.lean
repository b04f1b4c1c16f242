import Dnssec.Proofs.Name
import Dnssec.Proofs.NameText
/-!
# `Dnssec.Proofs.NamePrint` — the presentation text of a name and of its wildcards

`Name.toString` writes each label byte as the character of that code, and a dot after each label.
On a valid name every such character is printable ASCII, so the text has one byte per character
(`Valid.utf8ByteSize_labelsText`), and `Name.ofString?` reads it back to the same name
(`ofString?_toString`): the valid names are exactly the names that some text denotes.

`Name.wildcard k` puts `*` in place of all but the last `k` labels.  When it replaces at least one
label the result is again a valid name (`Name.Valid.wildcard`), so its text is read back too;
`wildcard_text` collects what the signed-owner computation relies on: the text starts with `*.`,
the last `k` labels are kept byte for byte, the result sees the kept labels only through their
lower case, and keeping all labels gives `*.` in front of the whole name.
-/

namespace Dnssec

theorem Char.toNat_ofNat_byte (b : UInt8) : (Char.ofNat b.toNat).toNat = b.toNat := by
  have hb := b.toNat_lt
  have hvalid : b.toNat.isValidChar := Or.inl (by omega)
  rw [Char.ofNat, dif_pos hvalid]
  rfl

theorem Char.toUInt8_ofNat_byte (b : UInt8) : (Char.ofNat b.toNat).toNat.toUInt8 = b := by
  rw [Char.toNat_ofNat_byte]
  simp

theorem isLabelByte_iff {b : UInt8} :
    isLabelByte b = true ↔ 0x21 ≤ b.toNat ∧ b.toNat ≤ 0x7e ∧ b.toNat ≠ 0x2e := by
  simp [isLabelByte, UInt8.le_iff_toNat_le, UInt8.ext_iff, and_assoc]

theorem String.utf8ByteSize_ofList_of_ascii {cs : List Char} (h : ∀ c ∈ cs, c.toNat < 128) :
    (String.ofList cs).utf8ByteSize = cs.length := by
  induction cs with
  | nil => rfl
  | cons c cs ih =>
    have hc : c.utf8Size = 1 := by
      rw [Char.utf8Size_eq_one_iff, UInt32.le_iff_toNat_le]
      exact Nat.le_of_lt_succ (h c List.mem_cons_self)
    rw [String.ofList_cons, String.utf8ByteSize_append, String.utf8ByteSize_singleton, hc,
      ih (fun d hd => h d (List.mem_cons_of_mem c hd)), List.length_cons, Nat.add_comm]

namespace Name

/-- The characters that spell a list of labels, each label followed by a dot. -/
def labelsText (ls : List Bytes) : List Char :=
  ls.flatMap fun l => l.map (fun b => Char.ofNat b.toNat) ++ ['.']

theorem toString_eq {n : Name} (h : n.labels ≠ []) :
    n.toString = String.ofList (labelsText n.labels) := by
  rw [toString, if_neg h]
  rfl

theorem eq_root_of_labels_eq_nil {n : Name} (h : n.labels = []) : n = root := by
  cases n
  simp_all [root]

theorem Valid.two_le_sum_labels {n : Name} (hn : n.Valid) (h : n.labels ≠ []) :
    2 ≤ (n.labels.map (·.length + 1)).sum := by
  obtain ⟨l, ls, hls⟩ := List.exists_cons_of_ne_nil h
  have hl : 0 < l.length := List.length_pos_iff.2 (hn.1 l (hls ▸ List.mem_cons_self)).1
  rw [hls, List.map_cons, List.sum_cons]
  omega

theorem length_labelsText (ls : List Bytes) :
    (labelsText ls).length = (ls.map (·.length + 1)).sum := by
  induction ls with
  | nil => rfl
  | cons l ls ih =>
    simp only [labelsText, List.flatMap_cons, List.length_append, List.length_map,
      List.length_singleton, List.map_cons, List.sum_cons] at ih ⊢
    omega

theorem labelText_map {l : Bytes} (hne : l ≠ []) (hlen : l.length ≤ 63)
    (hl : ∀ b ∈ l, isLabelByte b = true) : LabelText (l.map fun b => Char.ofNat b.toNat) := by
  refine ⟨by simpa using hne, by simpa using hlen, fun c hc => ?_⟩
  obtain ⟨b, hb, rfl⟩ := List.mem_map.1 hc
  obtain ⟨hlo, hhi, hdot⟩ := isLabelByte_iff.1 (hl b hb)
  rw [Char.toNat_ofNat_byte]
  refine ⟨hlo, hhi, fun h => hdot ?_⟩
  have hcode := congrArg Char.toNat h
  rw [Char.toNat_ofNat_byte] at hcode
  exact hcode

theorem Valid.labelText {n : Name} (hn : n.Valid) {l : Bytes} (hl : l ∈ n.labels) :
    LabelText (l.map fun b => Char.ofNat b.toNat) :=
  labelText_map (hn.1 l hl).1 (hn.1 l hl).2.1 (hn.1 l hl).2.2

/-- The text of a valid name is printable ASCII: one byte per character, a label and its dot at
a time. -/
theorem Valid.utf8ByteSize_labelsText {n : Name} (hn : n.Valid) :
    (String.ofList (labelsText n.labels)).utf8ByteSize = (n.labels.map (·.length + 1)).sum := by
  rw [String.utf8ByteSize_ofList_of_ascii, length_labelsText]
  intro c hc
  obtain ⟨l, hl, hc⟩ := List.mem_flatMap.1 hc
  rcases List.mem_append.1 hc with hc | hc
  · have := ((hn.labelText hl).2.2 c hc).2.1
    omega
  · rw [List.mem_singleton.1 hc]
    decide

/-- Printing a valid name and reading the text back gives the name. -/
theorem ofString?_toString {n : Name} (hn : n.Valid) : ofString? n.toString = some n := by
  by_cases h : n.labels = []
  · rw [eq_root_of_labels_eq_nil h]
    decide +kernel
  · -- the text spells the labels as characters, which read back as the same bytes
    rw [ofString?_eq_some_iff, toString_eq h, String.toList_ofList]
    refine ⟨by rw [hn.utf8ByteSize_labelsText]; exact hn.2,
      Or.inr ⟨n.labels.map (List.map fun b => Char.ofNat b.toNat), by simpa using h, ?_, ?_, ?_⟩⟩
    · intro l hl
      obtain ⟨l', hl', rfl⟩ := List.mem_map.1 hl
      exact hn.labelText hl'
    · simp [labelsText, List.flatMap_map]
    · simp [List.map_map, Function.comp_def, Char.toUInt8_ofNat_byte]

/-- The text of a wildcard: `*.`, then the kept labels, each followed by a dot. -/
theorem toString_wildcard (n : Name) (k : Nat) :
    (n.wildcard k).toString =
      "*." ++ String.ofList (labelsText (n.labels.drop (n.labelCount - k))) := by
  rw [toString_eq (by simp [wildcard])]
  simp only [wildcard, labelsText, List.flatMap_cons, String.ofList_append, labelCount]
  rfl

theorem canonicalLabels_drop (n : Name) (j : Nat) :
    n.canonicalLabels.drop j = (n.labels.drop j).map (·.map lowerByte) := by
  simp [canonicalLabels, List.map_drop]

/-- Wildcards of a valid name.  Keeping `k` of its labels, fewer than it has, gives a name whose
text `ofString?` accepts and reads back to it; the text starts with `*.`, the name has `k + 1`
labels, and its last `k` labels are those of the original, case kept.  Two names whose last `k`
labels agree ignoring case have wildcards equal ignoring case.  Keeping as many labels as the
name has, or more, gives `*` in front of all of them: the text is `*.` followed by the name's
text, or `*.` alone for the root. -/
theorem wildcard_text (n : Name) (hn : n.Valid) :
    (∀ k, k < n.labelCount →
      ofString? (n.wildcard k).toString = some (n.wildcard k) ∧
      (∃ rest, (n.wildcard k).toString = "*." ++ rest) ∧
      (n.wildcard k).labelCount = k + 1 ∧
      (n.wildcard k).labels.drop ((n.wildcard k).labelCount - k) =
        n.labels.drop (n.labelCount - k)) ∧
    (∀ (m : Name) (k : Nat),
      (n.labels.drop (n.labelCount - k)).map (·.map lowerByte) =
        (m.labels.drop (m.labelCount - k)).map (·.map lowerByte) →
      (n.wildcard k).equivCase (m.wildcard k) = true) ∧
    ∀ k, n.labelCount ≤ k →
      (n.wildcard k).labels = [0x2a] :: n.labels ∧
      (n.wildcard k).toString = "*." ++ (if n.labels = [] then "" else n.toString) := by
  refine ⟨fun k hk => ?_, fun m k hmk => ?_, fun k hk => ?_⟩
  · have hcount : (n.wildcard k).labelCount = k + 1 := by
      rw [labelCount_wildcard]
      omega
    refine ⟨ofString?_toString (hn.wildcard hk), ⟨_, toString_wildcard n k⟩, hcount, ?_⟩
    rw [hcount, Nat.add_sub_cancel_left]
    rfl
  · rw [equivCase_iff, canonicalLabels_wildcard, canonicalLabels_wildcard, canonicalLabels_drop,
      canonicalLabels_drop, hmk]
  · -- nothing is dropped
    have hdrop : n.labels.drop (n.labelCount - k) = n.labels := by
      rw [Nat.sub_eq_zero_of_le hk, List.drop_zero]
    refine ⟨by rw [← hdrop]; rfl, ?_⟩
    rw [toString_wildcard, hdrop]
    by_cases h : n.labels = []
    · rw [if_pos h, h]
      rfl
    · rw [if_neg h, toString_eq h]

/-- `a.b.ex.com.` with two labels kept. -/
theorem wildcard_text_keep_two :
    (⟨[[0x61], [0x62], [0x65, 0x78], [0x63, 0x6f, 0x6d]]⟩ : Name).Valid ∧
      ofString? ((⟨[[0x61], [0x62], [0x65, 0x78], [0x63, 0x6f, 0x6d]]⟩ : Name).wildcard 2).toString =
        some ((⟨[[0x61], [0x62], [0x65, 0x78], [0x63, 0x6f, 0x6d]]⟩ : Name).wildcard 2) := by
  have hn : (⟨[[0x61], [0x62], [0x65, 0x78], [0x63, 0x6f, 0x6d]]⟩ : Name).Valid := by
    decide +kernel
  exact ⟨hn, ((wildcard_text _ hn).1 2 (by decide)).1⟩

end Name

end Dnssec
