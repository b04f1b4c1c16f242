import Dnssec.Record
import Dnssec.Error

/-!
# `Dnssec.RRset` — a set of records sharing owner, type and class

An RRset is what one RRSIG signs: a non-empty list of records whose owners are equal ignoring
ASCII case and whose types and classes are equal, with one TTL.  It takes its owner, type and
class from its first record.
-/

namespace Dnssec

/-- A non-empty group of records with one owner (ignoring case), type and class. -/
structure RRset where
  name : Name
  rrType : UInt16
  rrClass : UInt16
  ttl : UInt32
  records : List Record
  deriving Repr

/-- Whether `r` belongs with `first` in an RRset: same owner ignoring case, same type and
class. -/
def Record.belongsWith (first r : Record) : Bool :=
  first.name.equivCase r.name && r.rrClass == first.rrClass && r.rrType == first.rrType

/-- The RRset of `records` with TTL `ttl`, or `malformedRRset` when the list is empty or a
record differs from the first in owner, type or class. -/
def RRset.make (ttl : UInt32) (records : List Record) : Except Error RRset :=
  match records with
  | [] => .error .malformedRRset
  | first :: _ =>
    if records.all first.belongsWith then
      .ok ⟨first.name, first.rrType, first.rrClass, ttl, records⟩
    else .error .malformedRRset

@[simp] theorem RRset.make_nil (ttl : UInt32) : RRset.make ttl [] = .error .malformedRRset := rfl

theorem RRset.make_cons (ttl : UInt32) (first : Record) (rest : List Record) :
    RRset.make ttl (first :: rest) =
      if (first :: rest).all first.belongsWith then
        .ok ⟨first.name, first.rrType, first.rrClass, ttl, first :: rest⟩
      else .error .malformedRRset := rfl

end Dnssec
