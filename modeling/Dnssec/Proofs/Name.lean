import Mathlib.Algebra.Order.BigOperators.Group.List
import Mathlib.Algebra.Order.Group.Nat
import Mathlib.Algebra.Group.Action.Defs
import Mathlib.Algebra.GroupWithZero.Nat
import Dnssec.Name
/-!
# `Dnssec.Proofs.Name` — valid names and their canonical wire form

A `Name` is any list of labels; the names the library is handed are the ones `Name.ofString?`
builds, which satisfy `Name.Valid`: every label is 1 to 63 label bytes and the presentation
text is at most 255 bytes.  The facts the signed-data proofs need are about the wire form:

* `Name.wire_eq_of_equivCase` — the wire form sees the labels only through their lower case;
* `Name.Valid.wire_append_inj` — conversely, the wire form of a valid name is self-delimiting:
  from `n.wire ++ t = m.wire ++ u` the names agree ignoring case and the rests are equal.  This
  is what makes a length byte in front of each label, and a zero byte after the last, a code;
* `Name.Valid.wildcard` — replacing at least one label by `*` keeps a name valid;
* `Name.Valid.labelCount_le` — a valid name has at most 127 labels, so the label count of a
  signature, a byte on the wire, never wraps.

The wire lemma is first proved for any list of labels of 1 to 255 bytes
(`labelsWire_append_inj`), by induction on the labels: equal length bytes give equal labels.
-/

namespace Dnssec

theorem Name.wire_eq (n : Name) :
    n.wire = n.canonicalLabels.flatMap (fun l => l.length.toUInt8 :: l) ++ [0] := rfl

/-- Labels of 1 to 255 bytes behind their length bytes, closed by a zero byte, can be read
back from the front of any byte string. -/
theorem labelsWire_append_inj {L₁ L₂ : List Bytes} {t₁ t₂ : Bytes}
    (h₁ : ∀ l ∈ L₁, 0 < l.length ∧ l.length < 256)
    (h₂ : ∀ l ∈ L₂, 0 < l.length ∧ l.length < 256)
    (h : L₁.flatMap (fun l => l.length.toUInt8 :: l) ++ 0 :: t₁ =
      L₂.flatMap (fun l => l.length.toUInt8 :: l) ++ 0 :: t₂) :
    L₁ = L₂ ∧ t₁ = t₂ := by
  -- a length byte is never the closing zero, and equal length bytes are equal lengths
  have lenByte : ∀ l : Bytes, 0 < l.length ∧ l.length < 256 →
      (l.length.toUInt8).toNat = l.length := by
    intro l hl
    simp only [Nat.toUInt8_eq, UInt8.toNat_ofNat']
    omega
  induction L₁ generalizing L₂ with
  | nil =>
    cases L₂ with
    | nil => simpa using h
    | cons l L₂ =>
      have hl := h₂ l List.mem_cons_self
      simp only [List.flatMap_nil, List.nil_append, List.flatMap_cons, List.cons_append,
        List.cons.injEq] at h
      have := congrArg UInt8.toNat h.1
      rw [lenByte l hl] at this
      have h0 : (0 : UInt8).toNat = 0 := rfl
      omega
  | cons a L₁ ih =>
    cases L₂ with
    | nil =>
      have ha := h₁ a List.mem_cons_self
      simp only [List.flatMap_nil, List.nil_append, List.flatMap_cons, List.cons_append,
        List.cons.injEq] at h
      have := congrArg UInt8.toNat h.1
      rw [lenByte a ha] at this
      have h0 : (0 : UInt8).toNat = 0 := rfl
      omega
    | cons b L₂ =>
      have ha := h₁ a List.mem_cons_self
      have hb := h₂ b List.mem_cons_self
      simp only [List.flatMap_cons, List.cons_append, List.append_assoc, List.cons.injEq] at h
      obtain ⟨hlen, h⟩ := h
      have hab : a.length = b.length := by
        rw [← lenByte a ha, ← lenByte b hb, hlen]
      obtain ⟨rfl, htail⟩ := List.append_inj h hab
      obtain ⟨rfl, rfl⟩ := ih (fun l hl => h₁ l (List.mem_cons_of_mem a hl))
        (fun l hl => h₂ l (List.mem_cons_of_mem a hl)) htail
      exact ⟨rfl, rfl⟩

namespace Name

/-- What `Name.ofString?` guarantees of the names it builds: every label is 1 to 63 label
bytes, and the presentation text, a dot after each label, is at most 255 bytes long. -/
def Valid (n : Name) : Prop :=
  (∀ l ∈ n.labels, l ≠ [] ∧ l.length ≤ 63 ∧ ∀ b ∈ l, isLabelByte b = true) ∧
    (n.labels.map (·.length + 1)).sum ≤ 255

instance : DecidablePred Valid := fun _ => inferInstanceAs (Decidable (_ ∧ _))

@[simp] theorem length_canonicalLabels (n : Name) :
    n.canonicalLabels.length = n.labelCount := by
  simp [canonicalLabels, labelCount]

theorem equivCase_iff {a b : Name} :
    a.equivCase b = true ↔ a.canonicalLabels = b.canonicalLabels := by
  simp [equivCase]

theorem equivCase_symm {a b : Name} (h : a.equivCase b = true) : b.equivCase a = true :=
  equivCase_iff.2 (equivCase_iff.1 h).symm

theorem equivCase_trans {a b c : Name} (hab : a.equivCase b = true) (hbc : b.equivCase c = true) :
    a.equivCase c = true :=
  equivCase_iff.2 ((equivCase_iff.1 hab).trans (equivCase_iff.1 hbc))

theorem labelCount_eq_of_equivCase {a b : Name} (h : a.equivCase b = true) :
    a.labelCount = b.labelCount := by
  rw [← length_canonicalLabels, ← length_canonicalLabels, equivCase_iff.1 h]

/-- The wire form sees a name only through its labels in lower case. -/
theorem wire_eq_of_equivCase {a b : Name} (h : a.equivCase b = true) : a.wire = b.wire := by
  rw [wire_eq, wire_eq, equivCase_iff.1 h]

theorem Valid.canonical_label {n : Name} (hn : n.Valid) {l : Bytes}
    (hl : l ∈ n.canonicalLabels) : 0 < l.length ∧ l.length < 256 := by
  simp only [canonicalLabels, List.mem_map] at hl
  obtain ⟨l', hl', rfl⟩ := hl
  obtain ⟨hne, hle, -⟩ := hn.1 l' hl'
  have : 0 < l'.length := List.length_pos_iff.2 hne
  simp only [List.length_map]
  omega

/-- The wire form of a valid name is self-delimiting. -/
theorem Valid.wire_append_inj {n m : Name} {t u : Bytes} (hn : n.Valid) (hm : m.Valid)
    (h : n.wire ++ t = m.wire ++ u) : n.equivCase m = true ∧ t = u := by
  rw [wire_eq, wire_eq, List.append_assoc, List.append_assoc, List.singleton_append,
    List.singleton_append] at h
  obtain ⟨hl, rfl⟩ := labelsWire_append_inj (fun _ => hn.canonical_label)
    (fun _ => hm.canonical_label) h
  exact ⟨equivCase_iff.2 hl, rfl⟩

theorem Valid.wire_eq_iff {n m : Name} (hn : n.Valid) (hm : m.Valid) :
    n.wire = m.wire ↔ n.equivCase m = true := by
  constructor
  · intro h
    exact (hn.wire_append_inj hm (t := []) (u := []) (by rw [h])).1
  · exact wire_eq_of_equivCase

/-- Each label with its dot takes at least two bytes of the text, so a valid name has at most
127 labels. -/
theorem Valid.labelCount_le {n : Name} (hn : n.Valid) : n.labelCount ≤ 127 := by
  have hge : ∀ x ∈ n.labels.map (·.length + 1), 2 ≤ x := by
    intro x hx
    simp only [List.mem_map] at hx
    obtain ⟨l, hl, rfl⟩ := hx
    have : 0 < l.length := List.length_pos_iff.2 (hn.1 l hl).1
    omega
  have hsum := List.card_nsmul_le_sum _ 2 hge
  simp only [List.length_map, smul_eq_mul] at hsum
  have := hn.2
  simp only [labelCount]
  omega

@[simp] theorem canonicalLabels_wildcard (n : Name) (keep : Nat) :
    (n.wildcard keep).canonicalLabels =
      [0x2a] :: n.canonicalLabels.drop (n.labelCount - keep) := by
  simp [wildcard, canonicalLabels, labelCount, List.map_drop, lowerByte]

theorem equivCase_wildcard {a b : Name} (h : a.equivCase b = true) (keep : Nat) :
    (a.wildcard keep).equivCase (b.wildcard keep) = true := by
  rw [equivCase_iff, canonicalLabels_wildcard, canonicalLabels_wildcard, equivCase_iff.1 h,
    labelCount_eq_of_equivCase h]

/-- Replacing at least one label by `*` keeps a valid name valid: the text loses that label
and its dot, and gains `*.`. -/
theorem Valid.wildcard {n : Name} (hn : n.Valid) {keep : Nat} (hk : keep < n.labelCount) :
    (n.wildcard keep).Valid := by
  obtain ⟨_ | ⟨l₀, L⟩⟩ := n
  · simp [labelCount] at hk
  · have hk' : keep < L.length + 1 := by simpa [labelCount] using hk
    -- the wildcard keeps the last `keep` labels, all of them after the first
    have hw : (Name.wildcard ⟨l₀ :: L⟩ keep).labels = [0x2a] :: L.drop (L.length - keep) := by
      simp only [Name.wildcard, List.length_cons]
      rw [show L.length + 1 - keep = L.length - keep + 1 by omega, List.drop_succ_cons]
    refine ⟨?_, ?_⟩
    · intro l hl
      rw [hw, List.mem_cons] at hl
      rcases hl with rfl | hl
      · decide +kernel
      · exact hn.1 l (List.mem_cons_of_mem l₀ (List.mem_of_mem_drop hl))
    · have hsum := hn.2
      have hl₀ : 0 < l₀.length := List.length_pos_iff.2 (hn.1 l₀ List.mem_cons_self).1
      have hsplit := List.sum_take_add_sum_drop (L.map (·.length + 1)) (L.length - keep)
      rw [hw]
      simp only [List.map_cons, List.sum_cons, List.length_singleton, List.map_drop] at hsum ⊢
      omega

end Name

end Dnssec
