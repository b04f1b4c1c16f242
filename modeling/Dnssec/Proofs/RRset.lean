import Dnssec.RRset
import Dnssec.Proofs.Name
/-!
# `Dnssec.Proofs.RRset` — which record lists form an RRset

`RRset.make` compares every record with the first one only.  The RRset condition is a statement
about every two records: their owners are equal ignoring ASCII case and their types and classes
are equal (`Record.SharesSet`).  Because that relation is an equivalence, comparing with the first
record decides it (`all_belongsWith_iff`), so:

* `RRset.make_eq_ok_iff` — `make` succeeds exactly on non-empty lists of records that pairwise
  share a set, and the set then takes owner, type and class from the first record and keeps the
  records in their order;
* `RRset.make_outcome` — that, with `malformedRRset` as the only failure, and the fact that
  whether `make` succeeds does not depend on the order of the records.
-/

namespace Dnssec

namespace Record

/-- Two records may stand in one RRset: their owners are equal ignoring ASCII case and they have
the same type and class. -/
def SharesSet (a b : Record) : Prop :=
  a.name.equivCase b.name = true ∧ a.rrType = b.rrType ∧ a.rrClass = b.rrClass

theorem SharesSet.refl (a : Record) : a.SharesSet a :=
  ⟨Name.equivCase_refl a.name, rfl, rfl⟩

theorem SharesSet.symm {a b : Record} (h : a.SharesSet b) : b.SharesSet a :=
  ⟨Name.equivCase_symm h.1, h.2.1.symm, h.2.2.symm⟩

theorem SharesSet.trans {a b c : Record} (hab : a.SharesSet b) (hbc : b.SharesSet c) :
    a.SharesSet c :=
  ⟨Name.equivCase_trans hab.1 hbc.1, hab.2.1.trans hbc.2.1, hab.2.2.trans hbc.2.2⟩

/-- The test `make` runs on each record is the relation, with the first record on the left. -/
theorem belongsWith_iff {first r : Record} : first.belongsWith r = true ↔ first.SharesSet r := by
  unfold belongsWith SharesSet
  simp only [Bool.and_eq_true, beq_iff_eq]
  constructor
  · rintro ⟨⟨hname, hclass⟩, htype⟩
    exact ⟨hname, htype.symm, hclass.symm⟩
  · rintro ⟨hname, htype, hclass⟩
    exact ⟨⟨hname, hclass.symm⟩, htype.symm⟩

/-- Every record shares a set with the first exactly when every two of them share one: each
record is compared to any other through the first. -/
theorem all_belongsWith_iff (first : Record) (rest : List Record) :
    (first :: rest).all first.belongsWith = true ↔
      ∀ a ∈ first :: rest, ∀ b ∈ first :: rest, a.SharesSet b := by
  rw [List.all_eq_true]
  constructor
  · intro hall a ha b hb
    have hfa : first.SharesSet a := belongsWith_iff.1 (hall a ha)
    have hfb : first.SharesSet b := belongsWith_iff.1 (hall b hb)
    exact hfa.symm.trans hfb
  · intro hpair r hr
    exact belongsWith_iff.2 (hpair first List.mem_cons_self r hr)

end Record

namespace RRset

/-- `make` builds an RRset exactly from a non-empty list whose records pairwise share a set; it
takes owner, type and class from the first record and keeps the list as given. -/
theorem make_eq_ok_iff {ttl : UInt32} {rs : List Record} {set : RRset} :
    RRset.make ttl rs = .ok set ↔
      ∃ first rest, rs = first :: rest ∧ (∀ a ∈ rs, ∀ b ∈ rs, a.SharesSet b) ∧
        set = ⟨first.name, first.rrType, first.rrClass, ttl, rs⟩ := by
  cases rs with
  | nil => simp
  | cons first rest =>
    rw [RRset.make_cons]
    by_cases hall : (first :: rest).all first.belongsWith = true
    · rw [if_pos hall]
      have hpair := (Record.all_belongsWith_iff first rest).1 hall
      constructor
      · rintro ⟨⟩
        exact ⟨first, rest, rfl, hpair, rfl⟩
      · rintro ⟨f, r, ⟨⟩, -, rfl⟩
        rfl
    · rw [if_neg hall]
      simp only [reduceCtorEq, false_iff, not_exists, not_and]
      rintro f r ⟨⟩ hpair -
      exact hall ((Record.all_belongsWith_iff first rest).2 hpair)

theorem make_error {ttl : UInt32} {rs : List Record} {e : Error}
    (h : RRset.make ttl rs = .error e) : e = .malformedRRset := by
  cases rs with
  | nil => exact (Except.error.inj h).symm
  | cons first rest =>
    rw [RRset.make_cons] at h
    split at h
    · cases h
    · exact (Except.error.inj h).symm

/-- `make` succeeds on a list exactly when the list is not empty and its records pairwise share
a set; neither condition sees the order of the records. -/
theorem make_succeeds_iff {ttl : UInt32} {rs : List Record} :
    (∃ set, RRset.make ttl rs = .ok set) ↔
      rs ≠ [] ∧ ∀ a ∈ rs, ∀ b ∈ rs, a.SharesSet b := by
  simp only [make_eq_ok_iff]
  constructor
  · rintro ⟨_, first, rest, rfl, hpair, -⟩
    exact ⟨List.cons_ne_nil first rest, hpair⟩
  · rintro ⟨hne, hpair⟩
    obtain ⟨first, rest, rfl⟩ := List.exists_cons_of_ne_nil hne
    exact ⟨_, first, rest, rfl, hpair, rfl⟩

/-- `RRset.make` succeeds exactly on non-empty record lists whose records pairwise have owners
equal ignoring case, equal types and equal classes; the set then has the first record's owner,
type and class, the given TTL and the records in their order.  It fails otherwise, always with
`malformedRRset`, and reordering the records does not change whether it succeeds. -/
theorem make_outcome (ttl : UInt32) (rs : List Record) :
    (∀ set, RRset.make ttl rs = .ok set ↔
      ∃ first rest, rs = first :: rest ∧ (∀ a ∈ rs, ∀ b ∈ rs, a.SharesSet b) ∧
        set = ⟨first.name, first.rrType, first.rrClass, ttl, rs⟩) ∧
    (∀ e, RRset.make ttl rs = .error e → e = .malformedRRset) ∧
    ∀ rs' : List Record, rs'.Perm rs →
      ((∃ set, RRset.make ttl rs' = .ok set) ↔ ∃ set, RRset.make ttl rs = .ok set) := by
  refine ⟨fun _ => make_eq_ok_iff, fun _ => make_error, fun rs' hperm => ?_⟩
  rw [make_succeeds_iff, make_succeeds_iff]
  -- a permutation keeps the members, and with them emptiness and the pairwise condition
  have hmem : ∀ r, r ∈ rs' ↔ r ∈ rs := fun r => hperm.mem_iff
  have hnil : rs' = [] ↔ rs = [] := by
    constructor
    · rintro rfl
      exact hperm.symm.eq_nil
    · rintro rfl
      exact hperm.eq_nil
  simp only [ne_eq, hnil, hmem]

end RRset

end Dnssec
