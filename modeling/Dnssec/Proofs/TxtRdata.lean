import Mathlib.Data.Finset.Card
import Dnssec.Proofs.BigEndian
import Dnssec.Proofs.CanonicalOrder
/-!
# `Dnssec.Proofs.TxtRdata` — TXT data as character-strings

The RDATA of a TXT record is a sequence of character-strings (RFC 1035 section 3.3.14), each a
length byte and at most 255 bytes.  `txtRdata` writes the first length byte before it looks at
the data and each later one after a full string, saturating at 255; the point of this module is
that the result is the plain split of the data:

* `txtStrings` — the data cut into 255-byte strings, the last one shorter and non-empty, or one
  empty string for empty data; `txtRdata_eq` — the RDATA is those strings, each behind its length;
* `readCharStrings` — reading RDATA back as length-prefixed strings, and
  `readCharStrings_flatMap` — it reads back any strings of at most 255 bytes;
* `txtRdata_characterStrings` — hence the RDATA is the data plus one byte per string, it reads
  back to the data, and distinct data have distinct RDATA, so the deduplication of an RRset's
  RDATA merges TXT records only when their data are equal.
-/

namespace Dnssec

/-- Reads bytes as character-strings to their end: a length byte, then that many bytes;
`none` when a string runs past the end. -/
def readCharStrings : Bytes → Option (List Bytes)
  | [] => some []
  | len :: rest =>
    if rest.length < len.toNat then none
    else (readCharStrings (rest.drop len.toNat)).map (rest.take len.toNat :: ·)
termination_by b => b.length
decreasing_by simp only [List.length_drop, List.length_cons]; omega

/-- Strings, each behind its length byte. -/
def writeCharStrings (cs : List Bytes) : Bytes :=
  cs.flatMap fun c => c.length.toUInt8 :: c

@[simp] theorem writeCharStrings_nil : writeCharStrings [] = [] := rfl

@[simp] theorem writeCharStrings_cons (c : Bytes) (cs : List Bytes) :
    writeCharStrings (c :: cs) = c.length.toUInt8 :: (c ++ writeCharStrings cs) := by
  simp [writeCharStrings]

theorem length_writeCharStrings (cs : List Bytes) :
    (writeCharStrings cs).length = cs.flatten.length + cs.length := by
  induction cs with
  | nil => rfl
  | cons c cs ih =>
    rw [writeCharStrings_cons, List.length_cons, List.length_append, ih, List.flatten_cons,
      List.length_append, List.length_cons]
    omega

/-- Strings of at most 255 bytes behind their lengths read back as themselves. -/
theorem readCharStrings_flatMap {cs : List Bytes} (h : ∀ c ∈ cs, c.length ≤ 255) :
    readCharStrings (writeCharStrings cs) = some cs := by
  induction cs with
  | nil => simp [readCharStrings]
  | cons c cs ih =>
    have hlen : (c.length.toUInt8).toNat = c.length :=
      Nat.toNat_toUInt8_of_lt (by have := h c List.mem_cons_self; omega)
    rw [writeCharStrings_cons, readCharStrings, hlen, if_neg (by simp),
      List.take_left' rfl, List.drop_left' rfl,
      ih (fun c' hc' => h c' (List.mem_cons_of_mem c hc'))]
    rfl

/-- The character-strings of TXT data: 255 bytes at a time, the last one at most 255 bytes. -/
def txtStrings (data : Bytes) : List Bytes :=
  if data.length ≤ 255 then [data] else data.take 255 :: txtStrings (data.drop 255)
termination_by data.length
decreasing_by simp only [List.length_drop]; omega

theorem txtRdata_eq (data : Bytes) : txtRdata data = writeCharStrings (txtStrings data) := by
  induction data using txtStrings.induct with
  | case1 data hshort =>
    rw [txtRdata, txtStrings, if_pos hshort, if_pos hshort, writeCharStrings_cons,
      writeCharStrings_nil, List.append_nil]
  | case2 data hlong ih =>
    have h255 : (data.take 255).length = 255 := by
      rw [List.length_take]
      omega
    rw [txtRdata, txtStrings, if_neg hlong, if_neg hlong, writeCharStrings_cons, ih, h255]
    rfl

@[simp] theorem flatten_txtStrings (data : Bytes) : (txtStrings data).flatten = data := by
  induction data using txtStrings.induct with
  | case1 data hshort => rw [txtStrings, if_pos hshort, List.flatten_singleton]
  | case2 data hlong ih =>
    rw [txtStrings, if_neg hlong, List.flatten_cons, ih, List.take_append_drop]

/-- One string for up to 255 bytes, and one more for each further 255 bytes or part of them. -/
theorem length_txtStrings (data : Bytes) :
    (txtStrings data).length = max 1 ((data.length + 254) / 255) := by
  induction data using txtStrings.induct with
  | case1 data hshort =>
    rw [txtStrings, if_pos hshort, List.length_singleton]
    omega
  | case2 data hlong ih =>
    rw [txtStrings, if_neg hlong, List.length_cons, ih, List.length_drop]
    omega

theorem length_le_of_mem_txtStrings {data c : Bytes} (hc : c ∈ txtStrings data) :
    c.length ≤ 255 := by
  induction data using txtStrings.induct with
  | case1 data hshort =>
    rw [txtStrings, if_pos hshort, List.mem_singleton] at hc
    rw [hc]
    exact hshort
  | case2 data hlong ih =>
    rw [txtStrings, if_neg hlong, List.mem_cons] at hc
    rcases hc with rfl | hc
    · simp
    · exact ih hc

theorem length_of_mem_dropLast_txtStrings {data c : Bytes} (hc : c ∈ (txtStrings data).dropLast) :
    c.length = 255 := by
  induction data using txtStrings.induct with
  | case1 data hshort =>
    rw [txtStrings, if_pos hshort] at hc
    simp at hc
  | case2 data hlong ih =>
    have hrest : txtStrings (data.drop 255) ≠ [] := by
      rw [← List.length_pos_iff, length_txtStrings]
      omega
    rw [txtStrings, if_neg hlong, List.dropLast_cons_of_ne_nil hrest, List.mem_cons] at hc
    rcases hc with rfl | hc
    · rw [List.length_take]
      omega
    · exact ih hc

theorem ne_nil_of_mem_txtStrings {data c : Bytes} (hdata : data ≠ [])
    (hc : c ∈ txtStrings data) : c ≠ [] := by
  induction data using txtStrings.induct with
  | case1 data hshort =>
    rw [txtStrings, if_pos hshort, List.mem_singleton] at hc
    rw [hc]
    exact hdata
  | case2 data hlong ih =>
    rw [txtStrings, if_neg hlong, List.mem_cons] at hc
    rcases hc with rfl | hc
    · rw [← List.length_pos_iff, List.length_take]
      omega
    · exact ih (by rw [← List.length_pos_iff, List.length_drop]; omega) hc

theorem readCharStrings_txtRdata (data : Bytes) :
    readCharStrings (txtRdata data) = some (txtStrings data) := by
  rw [txtRdata_eq]
  exact readCharStrings_flatMap fun _ => length_le_of_mem_txtStrings

theorem txtRdata_injective : Function.Injective txtRdata := by
  intro d₁ d₂ h
  have hstrings := (readCharStrings_txtRdata d₁).symm.trans (h ▸ readCharStrings_txtRdata d₂)
  rw [← flatten_txtStrings d₁, ← flatten_txtStrings d₂, Option.some.inj hstrings]

namespace SignedData

theorem length_canonicalRdatas (records : List Record) :
    (canonicalRdatas records).length = (records.map Record.rdata).toFinset.card := by
  have hnodup : (canonicalRdatas records).Nodup :=
    (pairwise_canonicalRdatas records).imp fun {a _} hab => by
      rintro rfl
      exact List.lt_irrefl a hab
  rw [← List.toFinset_card_of_nodup hnodup]
  congr 1
  ext r
  simp only [List.mem_toFinset, mem_canonicalRdatas]

/-- Deduplicating the RDATAs of TXT records leaves one per distinct text. -/
theorem length_canonicalRdatas_txt (records : List (Name × Bytes)) :
    (canonicalRdatas (records.map fun r => .txt r.1 r.2)).length =
      (records.map Prod.snd).toFinset.card := by
  have hrdata : (records.map fun r => Record.txt r.1 r.2).map Record.rdata =
      (records.map Prod.snd).map txtRdata := by
    simp [Record.rdata]
  rw [length_canonicalRdatas, hrdata]
  generalize records.map Prod.snd = texts
  have himage : (texts.map txtRdata).toFinset = texts.toFinset.image txtRdata := by
    ext r
    simp
  rw [himage, Finset.card_image_of_injective _ txtRdata_injective]

end SignedData

/-- TXT data is written as character-strings: cut into strings of 255 bytes, the last one shorter
and non-empty (a single empty string for empty data), each behind its length byte.  So the RDATA
is one byte longer per string, reads back as the strings, whose concatenation is the data, and
determines the data; deduplicating the RDATAs of TXT records therefore keeps exactly one per
distinct text. -/
theorem txtRdata_characterStrings :
    (∀ d : Bytes, ∃ cs : List Bytes,
      txtRdata d = cs.flatMap (fun c => c.length.toUInt8 :: c) ∧ cs.flatten = d ∧
      cs.length = max 1 ((d.length + 254) / 255) ∧ (∀ c ∈ cs.dropLast, c.length = 255) ∧
      (d = [] → cs = [[]]) ∧ (d ≠ [] → ∀ c ∈ cs, c ≠ []) ∧
      (txtRdata d).length = d.length + cs.length ∧
      readCharStrings (txtRdata d) = some cs) ∧
    Function.Injective txtRdata ∧
    ∀ records : List (Name × Bytes),
      (SignedData.canonicalRdatas (records.map fun r => .txt r.1 r.2)).length =
        (records.map Prod.snd).toFinset.card := by
  refine ⟨fun d => ⟨txtStrings d, txtRdata_eq d, flatten_txtStrings d, length_txtStrings d,
    fun _ => length_of_mem_dropLast_txtStrings, ?_, fun hd _ => ne_nil_of_mem_txtStrings hd, ?_,
    readCharStrings_txtRdata d⟩, txtRdata_injective, SignedData.length_canonicalRdatas_txt⟩
  · rintro rfl
    rw [txtStrings, if_pos (by simp)]
  · rw [txtRdata_eq, length_writeCharStrings, flatten_txtStrings]

/-- 300 bytes of text are two character-strings, 302 bytes of RDATA; two TXT records with the
same text give one RDATA. -/
theorem txtRdata_characterStrings_300 :
    ∃ cs, readCharStrings (txtRdata (List.replicate 300 0x61)) = some cs ∧ cs.length = 2 ∧
      (txtRdata (List.replicate 300 0x61)).length = 302 ∧
      (SignedData.canonicalRdatas [.txt Name.root [0x61], .txt Name.root [0x61],
        .txt Name.root [0x62]]).length = 2 := by
  obtain ⟨hsplit, -, hdedup⟩ := txtRdata_characterStrings
  obtain ⟨cs, -, -, hcount, -, -, -, hlen, hread⟩ := hsplit (List.replicate 300 0x61)
  rw [List.length_replicate] at hcount hlen
  refine ⟨cs, hread, by omega, by omega, ?_⟩
  refine (hdedup [(Name.root, [0x61]), (Name.root, [0x61]), (Name.root, [0x62])]).trans ?_
  decide +kernel

end Dnssec
