import Mathlib.Data.List.Sort
import Dnssec.SignedData
/-!
# `Dnssec.Proofs.CanonicalOrder` — the canonical order of RDATA

RFC 4034 section 6.3 orders the records of an RRset by their canonical RDATA, read as
left-justified unsigned octet sequences, an absent octet sorting before a zero: the
lexicographic order of byte strings, a proper prefix first.  That is the order `<` of
`List UInt8` in the standard library, and the model's comparison `Bytes.lexLe` is its `≤`
(`Bytes.lexLe_iff`).

`SignedData.canonicalRdatas` sorts the RDATAs with that comparison and drops adjacent repeats.
The result is characterised without reference to the algorithm: it is the one strictly
ascending list with the same members as the records' RDATAs (`canonicalRdatas_eq`).  In
particular it does not depend on the order of the records or on repeats among them.
-/

namespace Dnssec

/-- The model's comparison of byte strings is the lexicographic `≤`. -/
theorem Bytes.lexLe_iff (a b : Bytes) : Bytes.lexLe a b = true ↔ a ≤ b := by
  induction a generalizing b with
  | nil => simp [Bytes.lexLe]
  | cons x xs ih =>
    cases b with
    | nil => simp [Bytes.lexLe]
    | cons y ys => simp [Bytes.lexLe, List.cons_le_cons_iff, ih]

theorem pairwise_mergeSort_lexLe (rs : List Bytes) :
    (rs.mergeSort Bytes.lexLe).Pairwise (· ≤ ·) := by
  have hsorted : (rs.mergeSort Bytes.lexLe).Pairwise (fun a b => Bytes.lexLe a b = true) :=
    List.pairwise_mergeSort
      (fun a b c hab hbc => by
        rw [Bytes.lexLe_iff] at *
        exact List.le_trans hab hbc)
      (fun a b => by
        rcases List.le_total a b with h | h
        · simp [(Bytes.lexLe_iff a b).2 h]
        · simp [(Bytes.lexLe_iff b a).2 h])
      rs
  simpa only [Bytes.lexLe_iff] using hsorted

theorem mem_dedupSorted {l : List Bytes} {r : Bytes} : r ∈ dedupSorted l ↔ r ∈ l := by
  fun_induction dedupSorted l with
  | case1 b rest ih => simp [ih]
  | case2 a b rest _ ih => simp [ih]
  | case3 l _ => rfl

theorem pairwise_dedupSorted {l : List Bytes} (h : l.Pairwise (· ≤ ·)) :
    (dedupSorted l).Pairwise (· < ·) := by
  fun_induction dedupSorted l with
  | case1 b rest ih => exact ih (List.Pairwise.of_cons h)
  | case2 a b rest hab ih =>
    refine List.Pairwise.cons (fun c hc => ?_) (ih (List.Pairwise.of_cons h))
    have hab' : a < b := Std.lt_of_le_of_ne (List.rel_of_pairwise_cons h List.mem_cons_self) hab
    -- `c` comes from `b :: rest`, which is ascending from `b`
    rcases List.mem_cons.1 (mem_dedupSorted.1 hc) with rfl | hc
    · exact hab'
    · exact Std.lt_of_lt_of_le hab' (List.rel_of_pairwise_cons (List.Pairwise.of_cons h) hc)
  | case3 l hl =>
    match l, hl with
    | [], _ => exact List.Pairwise.nil
    | [_], _ => exact List.pairwise_singleton _ _
    | _ :: _ :: _, hl => exact (hl _ _ _ rfl).elim

namespace SignedData

theorem mem_canonicalRdatas {records : List Record} {r : Bytes} :
    r ∈ canonicalRdatas records ↔ r ∈ records.map Record.rdata := by
  rw [canonicalRdatas, mem_dedupSorted, List.mem_mergeSort]

theorem pairwise_canonicalRdatas (records : List Record) :
    (canonicalRdatas records).Pairwise (· < ·) :=
  pairwise_dedupSorted (pairwise_mergeSort_lexLe _)

/-- The distinct RDATAs in ascending order are the only strictly ascending list of them. -/
theorem canonicalRdatas_eq {records : List Record} {R : List Bytes}
    (hsorted : R.Pairwise (· < ·)) (hmem : ∀ r, r ∈ R ↔ r ∈ records.map Record.rdata) :
    canonicalRdatas records = R :=
  List.Pairwise.eq_of_mem_iff (pairwise_canonicalRdatas records) hsorted
    (fun r => by rw [mem_canonicalRdatas, hmem])

/-- Records with the same RDATAs, in any order and with any repeats, have the same canonical
RDATA list. -/
theorem canonicalRdatas_congr {records records' : List Record}
    (h : ∀ r, r ∈ records'.map Record.rdata ↔ r ∈ records.map Record.rdata) :
    canonicalRdatas records' = canonicalRdatas records :=
  canonicalRdatas_eq (pairwise_canonicalRdatas records)
    (fun r => by rw [mem_canonicalRdatas, h])

theorem canonicalRdatas_ne_nil {records : List Record} (h : records ≠ []) :
    canonicalRdatas records ≠ [] := by
  obtain ⟨r, hr⟩ := List.exists_mem_of_ne_nil records h
  exact List.ne_nil_of_mem (mem_canonicalRdatas.2 (List.mem_map_of_mem hr))

end SignedData

end Dnssec
