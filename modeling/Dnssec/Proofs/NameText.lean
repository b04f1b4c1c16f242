import Dnssec.Name
import Dnssec.Proofs.BigEndian
/-!
# `Dnssec.Proofs.NameText` — which presentation texts are names

`Name.ofString?` checks a text in four steps: it is non-empty and ends with a dot, it is at
most 255 bytes long, every character is printable ASCII, and, unless it is the root `.`, the text
before the last dot, cut at its dots, has no empty piece and none longer than 63 bytes.  No step
mentions labels as such, yet together they accept exactly the grammar of presentation names:

* `Name.LabelText` — a label: 1 to 63 printable ASCII characters other than the dot;
* `Name.ofString?_eq_some_iff` — a text is a name exactly when it is at most 255 bytes and is
  the root `.` or a non-empty run of labels each followed by a dot, and then the name's labels are
  those labels, as bytes;
* `Name.ofString?_accepts` — the same grammar, with the label count of the name read off it and
  the wildcard test seeing the first label only.

Cutting at the dots is `List.splitOn` of the standard library (`splitOnByte_eq_splitOn`), which
`List.intercalate` undoes, and which undoes `List.intercalate` on pieces free of the separator.
A character of the text is turned into a byte by its code point; on ASCII that loses nothing
(`asciiByte_inj`), so cutting the bytes is cutting the characters (`List.splitOn_map`).
-/

namespace Dnssec

/-! ## Cutting at a separator -/

theorem splitOnByte_eq_splitOn (sep : UInt8) (b : Bytes) : splitOnByte sep b = b.splitOn sep := by
  induction b with
  | nil => rfl
  | cons x rest ih =>
    rw [splitOnByte, List.splitOn_cons_eq_if_modifyHead, ih]
    simp only [beq_iff_eq]
    by_cases hx : x = sep
    · rw [if_pos hx, if_pos hx]
    · rw [if_neg hx, if_neg hx]
      obtain ⟨p, ps, hps⟩ := List.exists_cons_of_ne_nil (List.splitOn_ne_nil sep rest)
      rw [hps]
      rfl

theorem List.mem_of_mem_splitOn {α : Type} [DecidableEq α] {x : α} {xs l : List α}
    (hl : l ∈ xs.splitOn x) {c : α} (hc : c ∈ l) : c ∈ xs ∧ c ≠ x := by
  induction xs generalizing l with
  | nil =>
    rw [List.splitOn_nil, List.mem_singleton] at hl
    subst hl
    exact absurd hc List.not_mem_nil
  | cons y rest ih =>
    rw [List.splitOn_cons_eq_if_modifyHead] at hl
    simp only [beq_iff_eq] at hl
    by_cases hy : y = x
    · rw [if_pos hy, List.mem_cons] at hl
      rcases hl with rfl | hl
      · exact absurd hc List.not_mem_nil
      · exact ⟨List.mem_cons_of_mem y (ih hl hc).1, (ih hl hc).2⟩
    · rw [if_neg hy] at hl
      obtain ⟨p, ps, hps⟩ := List.exists_cons_of_ne_nil (List.splitOn_ne_nil x rest)
      rw [hps, List.modifyHead_cons, List.mem_cons] at hl
      rcases hl with rfl | hl
      · -- the first piece gained `y` in front
        rcases List.mem_cons.1 hc with rfl | hc
        · exact ⟨List.mem_cons_self, hy⟩
        · have := ih (hps ▸ List.mem_cons_self) hc
          exact ⟨List.mem_cons_of_mem y this.1, this.2⟩
      · have := ih (hps ▸ List.mem_cons_of_mem p hl) hc
        exact ⟨List.mem_cons_of_mem y this.1, this.2⟩

/-- Cutting commutes with a map that sends only the separator to the separator's image. -/
theorem List.splitOn_map {α β : Type} [DecidableEq α] [DecidableEq β] (f : α → β) {x : α}
    {l : List α} (hf : ∀ c ∈ l, f c = f x → c = x) :
    (l.map f).splitOn (f x) = (l.splitOn x).map (List.map f) := by
  induction l with
  | nil => rfl
  | cons c rest ih =>
    have ih := ih (fun d hd => hf d (List.mem_cons_of_mem c hd))
    rw [List.map_cons, List.splitOn_cons_eq_if_modifyHead, List.splitOn_cons_eq_if_modifyHead, ih]
    simp only [beq_iff_eq]
    by_cases hc : c = x
    · subst hc
      rw [if_pos rfl, if_pos rfl, List.map_cons, List.map_nil]
    · have hfc : f c ≠ f x := fun h => hc (hf c List.mem_cons_self h)
      rw [if_neg hfc, if_neg hc]
      obtain ⟨p, ps, hps⟩ := List.exists_cons_of_ne_nil (List.splitOn_ne_nil x rest)
      rw [hps, List.map_cons, List.modifyHead_cons, List.modifyHead_cons, List.map_cons,
        List.map_cons]

theorem List.flatMap_append_singleton {α : Type} (x : α) {ls : List (List α)} (hls : ls ≠ []) :
    ls.flatMap (· ++ [x]) = [x].intercalate ls ++ [x] := by
  induction ls with
  | nil => exact absurd rfl hls
  | cons l rest ih =>
    cases rest with
    | nil => simp
    | cons l' rest =>
      rw [List.flatMap_cons, ih (List.cons_ne_nil l' rest), List.intercalate_cons_cons]
      simp only [List.append_assoc]

/-! ## Characters as bytes -/

/-- Two ASCII characters with the same byte are the same character. -/
theorem asciiByte_inj {c d : Char} (hc : c.toNat < 256) (hd : d.toNat < 256)
    (h : c.toNat.toUInt8 = d.toNat.toUInt8) : c = d := by
  have := congrArg UInt8.toNat h
  rw [Nat.toNat_toUInt8_of_lt hc, Nat.toNat_toUInt8_of_lt hd] at this
  exact Char.ext (UInt32.toNat_inj.1 this)

theorem splitOnByte_dot_map {cs : List Char} (hcs : ∀ c ∈ cs, c.toNat < 256) :
    splitOnByte 0x2e (cs.map fun c => c.toNat.toUInt8) =
      (cs.splitOn '.').map (List.map fun c => c.toNat.toUInt8) := by
  rw [splitOnByte_eq_splitOn]
  exact List.splitOn_map (fun c => c.toNat.toUInt8) (x := '.')
    (fun c hc h => asciiByte_inj (hcs c hc) (by decide) h)

/-- Labels followed by dots spell their labels once only, when no label holds a dot. -/
theorem List.flatMap_dot_inj {ls ls' : List (List Char)} (hls : ∀ l ∈ ls, '.' ∉ l)
    (hls' : ∀ l ∈ ls', '.' ∉ l) (h : ls.flatMap (· ++ ['.']) = ls'.flatMap (· ++ ['.'])) :
    ls = ls' := by
  by_cases hne : ls = []
  · subst hne
    by_cases hne' : ls' = []
    · exact hne'.symm
    · rw [List.flatMap_append_singleton '.' hne'] at h
      exact absurd h.symm (by simp)
  · have hne' : ls' ≠ [] := by
      rintro rfl
      rw [List.flatMap_append_singleton '.' hne] at h
      exact absurd h (by simp)
    rw [List.flatMap_append_singleton '.' hne, List.flatMap_append_singleton '.' hne'] at h
    rw [← List.splitOn_intercalate '.' hls hne, ← List.splitOn_intercalate '.' hls' hne',
      List.append_cancel_right h]

namespace Name

/-- A label in presentation text: 1 to 63 printable ASCII characters, none of them a dot. -/
def LabelText (l : List Char) : Prop :=
  l ≠ [] ∧ l.length ≤ 63 ∧ ∀ c ∈ l, 0x21 ≤ c.toNat ∧ c.toNat ≤ 0x7e ∧ c ≠ '.'

instance : DecidablePred LabelText := fun _ => inferInstanceAs (Decidable (_ ∧ _ ∧ _))

theorem LabelText.toNat_lt {l : List Char} (hl : LabelText l) {c : Char} (hc : c ∈ l) :
    c.toNat < 256 := by
  have := hl.2.2 c hc
  omega

theorem LabelText.dot_not_mem {l : List Char} (hl : LabelText l) : '.' ∉ l :=
  fun hdot => (hl.2.2 '.' hdot).2.2 rfl

/-- What `ofString?` checks, as statements about the text: it is a body followed by a dot, at
most 255 bytes of printable ASCII, and either the body is empty (the root) or its pieces between
dots, as bytes, are 1 to 63 bytes each and are the labels. -/
theorem ofString?_eq_some_iff_checks {s : String} {n : Name} :
    ofString? s = some n ↔ ∃ body, s.toList = body ++ ['.'] ∧ s.utf8ByteSize ≤ 255 ∧
      (∀ c ∈ s.toList, 0x21 ≤ c.toNat ∧ c.toNat ≤ 0x7e) ∧
      (body = [] ∧ n = root ∨
        body ≠ [] ∧ (∀ p ∈ splitOnByte 0x2e (body.map fun c => c.toNat.toUInt8),
          p ≠ [] ∧ p.length ≤ 63) ∧
        n = ⟨splitOnByte 0x2e (body.map fun c => c.toNat.toUInt8)⟩) := by
  unfold ofString?
  simp only [Bool.or_eq_true, bne_iff_ne, ne_eq, decide_eq_true_eq, List.any_eq_true, gt_iff_lt,
    List.isEmpty_iff]
  by_cases hbad : ((s.toList = [] ∨ ¬ s.toList.getLast? = some '.') ∨ 255 < s.utf8ByteSize) ∨
      ∃ c, c ∈ s.toList ∧ (c.toNat < 33 ∨ 126 < c.toNat)
  · -- each refusal breaks one condition of the right-hand side
    rw [if_pos hbad]
    simp only [reduceCtorEq, false_iff, not_exists, not_and]
    intro body hbody hsize hchars _
    rcases hbad with ((hnil | hlast) | hlong) | ⟨c, hc, hbadc⟩
    · simp [hbody] at hnil
    · simp [hbody] at hlast
    · omega
    · have := hchars c hc
      omega
  · rw [if_neg hbad]
    simp only [not_or, not_not, not_exists, not_and, Nat.not_lt] at hbad
    obtain ⟨⟨⟨-, hlast⟩, hsize⟩, hchars⟩ := hbad
    obtain ⟨body, hbody⟩ := List.getLast?_eq_some_iff.1 hlast
    have hchars' : ∀ c ∈ s.toList, 0x21 ≤ c.toNat ∧ c.toNat ≤ 0x7e := hchars
    have hroot : s.toList = ['.'] ↔ body = [] := by
      rw [hbody]
      simp
    rw [hbody, List.dropLast_concat, ← hbody]
    constructor
    · intro h
      refine ⟨body, hbody, hsize, hchars', ?_⟩
      by_cases hr : body = []
      · rw [if_pos (hroot.2 hr), Option.some.injEq] at h
        exact Or.inl ⟨hr, h.symm⟩
      · rw [if_neg (mt hroot.1 hr)] at h
        split at h
        · cases h
        · rename_i hpieces
          simp only [not_exists, not_and, not_or, Nat.not_lt] at hpieces
          rw [Option.some.injEq] at h
          exact Or.inr ⟨hr, fun p hp => ⟨(hpieces p hp).1, (hpieces p hp).2⟩, h.symm⟩
    · rintro ⟨body', hbody', -, -, hcase⟩
      obtain rfl := List.append_cancel_right (hbody.symm.trans hbody')
      rcases hcase with ⟨rfl, rfl⟩ | ⟨hne, hpieces, rfl⟩
      · rw [if_pos (hroot.2 rfl)]
      · rw [if_neg (mt hroot.1 hne), if_neg]
        rintro ⟨p, hp, hbadp⟩
        obtain ⟨hpne, hshort⟩ := hpieces p hp
        rcases hbadp with rfl | hlong
        · exact hpne rfl
        · omega

/-- A text is a name exactly when it is at most 255 bytes and is the root `.` or labels each
followed by a dot; the name's labels are then those labels, each character as its byte. -/
theorem ofString?_eq_some_iff {s : String} {n : Name} :
    ofString? s = some n ↔ s.utf8ByteSize ≤ 255 ∧
      (s = "." ∧ n = root ∨
        ∃ ls : List (List Char), ls ≠ [] ∧ (∀ l ∈ ls, LabelText l) ∧
          s.toList = ls.flatMap (· ++ ['.']) ∧
          n.labels = ls.map (List.map fun c => c.toNat.toUInt8)) := by
  rw [ofString?_eq_some_iff_checks]
  constructor
  · rintro ⟨body, hbody, hsize, hchars, ⟨rfl, rfl⟩ | ⟨-, hpieces, rfl⟩⟩
    · exact ⟨hsize, Or.inl ⟨String.toList_inj.1 hbody, rfl⟩⟩
    · -- the labels are the pieces of the body between its dots, as characters
      have hbody_chars : ∀ c ∈ body, c.toNat < 256 := fun c hc => by
        have := hchars c (hbody ▸ List.mem_append_left _ hc)
        omega
      have hmap := splitOnByte_dot_map hbody_chars
      refine ⟨hsize,
        Or.inr ⟨body.splitOn '.', List.splitOn_ne_nil _ _, fun l hl => ?_, ?_, hmap⟩⟩
      · obtain ⟨hne, hlen⟩ := hpieces _ (hmap ▸ List.mem_map_of_mem hl)
        refine ⟨fun h => hne (by rw [h, List.map_nil]), by simpa using hlen, fun c hc => ?_⟩
        obtain ⟨hc, hdot⟩ := List.mem_of_mem_splitOn hl hc
        have := hchars c (hbody ▸ List.mem_append_left _ hc)
        exact ⟨this.1, this.2, hdot⟩
      · rw [hbody, List.flatMap_append_singleton '.' (List.splitOn_ne_nil _ _),
          List.intercalate_splitOn]
  · rintro ⟨hsize, ⟨rfl, rfl⟩ | ⟨ls, hne, hls, htext, hn⟩⟩
    · refine ⟨[], rfl, hsize, fun c hc => ?_, Or.inl ⟨rfl, rfl⟩⟩
      rw [show ("." : String).toList = ['.'] from rfl, List.mem_singleton] at hc
      subst hc
      exact ⟨by decide, by decide⟩
    · have hchars : ∀ c ∈ s.toList, 0x21 ≤ c.toNat ∧ c.toNat ≤ 0x7e := by
        intro c hc
        rw [htext, List.mem_flatMap] at hc
        obtain ⟨l, hl, hc⟩ := hc
        rcases List.mem_append.1 hc with hc | hc
        · exact ⟨((hls l hl).2.2 c hc).1, ((hls l hl).2.2 c hc).2.1⟩
        · rw [List.mem_singleton.1 hc]
          decide
      have hdots : ∀ l ∈ ls, '.' ∉ l := fun l hl => (hls l hl).dot_not_mem
      rw [List.flatMap_append_singleton '.' hne] at htext
      -- the text before the last dot is the labels joined by dots, which cut back into them
      have hmap : splitOnByte 0x2e (([ '.'].intercalate ls).map fun c => c.toNat.toUInt8) =
          ls.map (List.map fun c => c.toNat.toUInt8) := by
        have hascii : ∀ c ∈ [ '.'].intercalate ls, c.toNat < 256 := fun c hc => by
          have := hchars c (htext ▸ List.mem_append_left _ hc)
          omega
        rw [splitOnByte_dot_map hascii, List.splitOn_intercalate '.' hdots hne]
      refine ⟨_, htext, hsize, hchars, Or.inr ⟨?_, ?_, ?_⟩⟩
      · -- the first label is not empty
        obtain ⟨l, rest, rfl⟩ := List.exists_cons_of_ne_nil hne
        have hl := (hls l List.mem_cons_self).1
        cases rest with
        | nil => simpa using hl
        | cons l' rest => simp [hl]
      · rw [hmap]
        intro p hp
        obtain ⟨l, hl, rfl⟩ := List.mem_map.1 hp
        exact ⟨fun h => (hls l hl).1 (List.map_eq_nil_iff.1 h), by simpa using (hls l hl).2.1⟩
      · rw [hmap, ← hn]

theorem isWildcard_iff_head {n : Name} {ls : List (List Char)} (hls : ∀ l ∈ ls, LabelText l)
    (hn : n.labels = ls.map (List.map fun c => c.toNat.toUInt8)) :
    n.isWildcard = true ↔ ls.head? = some ['*'] := by
  cases ls with
  | nil => simp [isWildcard, hn]
  | cons l rest =>
    simp only [isWildcard, hn, List.map_cons, List.head?_cons, beq_iff_eq, Option.some.injEq]
    constructor
    · intro h
      obtain ⟨c, rfl, hc⟩ := List.map_eq_singleton_iff.1 h
      rw [asciiByte_inj (d := '*') ((hls _ List.mem_cons_self).toNat_lt List.mem_cons_self)
        (by decide) hc]
    · rintro rfl
      rfl

/-- The presentation texts `ofString?` accepts are exactly those of at most 255 bytes that are
the root `.` or a non-empty run of labels, each of 1 to 63 printable ASCII characters other than
the dot and followed by a dot.  The name it builds has as many labels as the text (none for the
root), and it is a wildcard exactly when the first label is `*`. -/
theorem ofString?_accepts (s : String) :
    ((ofString? s).isSome ↔ s.utf8ByteSize ≤ 255 ∧
      (s = "." ∨ ∃ ls : List (List Char), ls ≠ [] ∧ (∀ l ∈ ls, LabelText l) ∧
        s.toList = ls.flatMap (· ++ ['.']))) ∧
    ∀ n, ofString? s = some n →
      (s = "." → n.labelCount = 0 ∧ n.isWildcard = false) ∧
      ∀ ls : List (List Char), (∀ l ∈ ls, LabelText l) →
        s.toList = ls.flatMap (· ++ ['.']) →
        n.labelCount = ls.length ∧ (n.isWildcard = true ↔ ls.head? = some ['*']) := by
  have hroot : ofString? "." = some root := by decide +kernel
  refine ⟨?_, fun n hn => ⟨?_, fun ls hls htext => ?_⟩⟩
  · rw [Option.isSome_iff_exists]
    constructor
    · rintro ⟨n, hn⟩
      obtain ⟨hsize, ⟨hs, -⟩ | ⟨ls, hne, hls, htext, -⟩⟩ := ofString?_eq_some_iff.1 hn
      · exact ⟨hsize, Or.inl hs⟩
      · exact ⟨hsize, Or.inr ⟨ls, hne, hls, htext⟩⟩
    · rintro ⟨hsize, rfl | ⟨ls, hne, hls, htext⟩⟩
      · exact ⟨root, hroot⟩
      · exact ⟨⟨ls.map (List.map fun c => c.toNat.toUInt8)⟩,
          ofString?_eq_some_iff.2 ⟨hsize, Or.inr ⟨ls, hne, hls, htext, rfl⟩⟩⟩
  · rintro rfl
    rw [hroot, Option.some.injEq] at hn
    subst hn
    exact ⟨rfl, rfl⟩
  · have hdots : ∀ l ∈ ls, '.' ∉ l := fun l hl => (hls l hl).dot_not_mem
    obtain ⟨-, ⟨rfl, -⟩ | ⟨ls', -, hls', htext', hn'⟩⟩ := ofString?_eq_some_iff.1 hn
    · -- the root spells one empty label, which no label text is
      have hempty : ls = [[]] :=
        List.flatMap_dot_inj hdots (by simp) (htext.symm.trans rfl)
      exact absurd rfl (hls [] (hempty ▸ List.mem_singleton_self [])).1
    · obtain rfl : ls = ls' :=
        List.flatMap_dot_inj hdots (fun l hl => (hls' l hl).dot_not_mem) (htext.symm.trans htext')
      exact ⟨by simp [labelCount, hn'], isWildcard_iff_head hls hn'⟩

/-- `*.ex.com.` is a name of three labels, a wildcard. -/
theorem ofString?_accepts_wildcard :
    ∃ n, ofString? "*.ex.com." = some n ∧ n.labelCount = 3 ∧ n.isWildcard = true := by
  obtain ⟨haccepts, hlabels⟩ := ofString?_accepts "*.ex.com."
  have hls : ∀ l ∈ [['*'], ['e', 'x'], ['c', 'o', 'm']], LabelText l := by
    simp only [List.mem_cons, List.not_mem_nil, or_false, forall_eq_or_imp, forall_eq, LabelText]
    exact ⟨⟨by simp, by simp, by decide⟩, ⟨by simp, by simp, by decide⟩,
      ⟨by simp, by simp, by decide⟩⟩
  obtain ⟨n, hn⟩ := Option.isSome_iff_exists.1
    (haccepts.2 ⟨by decide, Or.inr ⟨_, List.cons_ne_nil _ _, hls, rfl⟩⟩)
  obtain ⟨hcount, hwild⟩ := (hlabels n hn).2 _ hls rfl
  exact ⟨n, hn, hcount, hwild.2 rfl⟩

/-- An empty label, a missing final dot and a 64-byte label are refused. -/
example : ofString? "a..com." = none ∧ ofString? "example.com" = none ∧
    ofString? (String.ofList (List.replicate 64 'a' ++ ['.'])) = none := by
  decide +kernel

end Name

end Dnssec
