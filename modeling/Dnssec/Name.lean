import Dnssec.Bytes

/-!
# `Dnssec.Name` — DNS owner names in presentation form

A name is written `l₁.l₂.….lₖ.` with every label non-empty, at most 63 printable ASCII
characters other than the dot, and the whole text at most 255 bytes; the root is a lone `.`.
A `Name` keeps the labels as given, upper case included, most specific first.

* `Name.ofString?` — the name a text denotes, or `none` when the text breaks a rule above.
* `Name.toString` — the presentation text again.
* `Name.labelCount`, `Name.isWildcard` — the label count (the root has none) and whether the
  first label is `*`.
* `Name.wildcard keep` — `*` followed by the last `keep` labels.
* `Name.equivCase` — equality ignoring ASCII case, the DNS comparison of names, made on the
  lowered labels (on valid names it is the comparison of the texts, `Valid.equivCase_iff_text`).
* `Name.wire` — the canonical wire form: each label lowered to ASCII lower case behind its length
  byte, then a zero byte; `Name.wireLength` — its length, as counted on the text.
-/

namespace Dnssec

/-- A byte of a label: a printable ASCII character other than the dot. -/
def isLabelByte (b : UInt8) : Bool :=
  0x21 ≤ b && b ≤ 0x7e && b != 0x2e

/-- ASCII lower case of a byte; other bytes are unchanged. -/
def lowerByte (b : UInt8) : UInt8 :=
  if 0x41 ≤ b && b ≤ 0x5a then b + 0x20 else b

/-- The pieces of a byte string between occurrences of `sep`; `n` separators give `n + 1`
pieces. -/
def splitOnByte (sep : UInt8) : Bytes → List Bytes
  | [] => [[]]
  | b :: rest =>
    if b = sep then [] :: splitOnByte sep rest
    else match splitOnByte sep rest with
      | p :: ps => (b :: p) :: ps
      | [] => [[b]]

/-- A DNS name as its list of labels, most specific first; the root has none. -/
structure Name where
  /-- The labels as given, each a string of label bytes. -/
  labels : List Bytes
  deriving DecidableEq, Repr

namespace Name

/-- The root name. -/
def root : Name := ⟨[]⟩

/-- The presentation text: each label followed by a dot, or a lone dot for the root. -/
def toString (n : Name) : String :=
  if n.labels = [] then "."
  else String.ofList (n.labels.flatMap fun l => l.map (fun b => Char.ofNat b.toNat) ++ ['.'])

/-- The name a presentation text denotes: the text ends with a dot, is at most 255 bytes long,
holds only printable ASCII, and is the root `.` or a sequence of labels of 1 to 63 bytes each
followed by a dot. -/
def ofString? (s : String) : Option Name :=
  let cs := s.toList
  if cs = [] || cs.getLast? != some '.' || s.utf8ByteSize > 255 ||
      cs.any (fun c => c.toNat < 0x21 || c.toNat > 0x7e) then none
  else if cs = ['.'] then some root
  else
    let pieces := splitOnByte 0x2e (cs.dropLast.map fun c => c.toNat.toUInt8)
    if pieces.any (fun l => l.isEmpty || l.length > 63) then none
    else some ⟨pieces⟩

/-- The number of labels, not counting the root. -/
def labelCount (n : Name) : Nat := n.labels.length

/-- Whether the first label is the wildcard label `*`. -/
def isWildcard (n : Name) : Bool := n.labels.head? == some [0x2a]

/-- The wildcard name `*` followed by the last `keep` labels of `n` (all of them when `n` has
fewer). -/
def wildcard (n : Name) (keep : Nat) : Name :=
  ⟨[0x2a] :: n.labels.drop (n.labels.length - keep)⟩

/-- The labels in ASCII lower case. -/
def canonicalLabels (n : Name) : List Bytes := n.labels.map (·.map lowerByte)

/-- Equality of names ignoring ASCII case. -/
def equivCase (a b : Name) : Bool := a.canonicalLabels == b.canonicalLabels

/-- The canonical wire form: each lower-cased label behind its length byte, then a zero byte. -/
def wire (n : Name) : Bytes :=
  n.canonicalLabels.flatMap (fun l => l.length.toUInt8 :: l) ++ [0]

/-- The length of the wire form, counted on the presentation text: one byte for the root, and
otherwise a length byte and the bytes of each piece of the text between dots, the empty piece
after the final dot standing for the closing zero byte. -/
def wireLength (n : Name) : UInt16 :=
  let text := n.toString
  if text = "." then 1
  else
    let pieces := splitOnByte 0x2e (text.toList.map fun c => c.toNat.toUInt8)
    (pieces.foldl (fun (acc : Nat) (piece : Bytes) => acc + (1 + piece.length)) 0).toUInt16

@[simp] theorem labelCount_wildcard (n : Name) (keep : Nat) :
    (n.wildcard keep).labelCount = min keep n.labelCount + 1 := by
  simp only [wildcard, labelCount, List.length_cons, List.length_drop]
  omega

@[simp] theorem isWildcard_wildcard (n : Name) (keep : Nat) : (n.wildcard keep).isWildcard := by
  simp [wildcard, isWildcard]

theorem equivCase_refl (n : Name) : n.equivCase n := by
  simp [equivCase]

@[simp] theorem wire_root : root.wire = [0] := rfl

end Name

end Dnssec
