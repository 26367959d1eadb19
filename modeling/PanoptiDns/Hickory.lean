import PanoptiDns.Lib.ByteString

set_option relaxedAutoImplicit false
set_option autoImplicit false

/-!
# What the server takes from hickory

Domain names, resource records and the few operations on them that the program uses. A `Name`
here is always fully qualified: every name the program builds calls `set_fqdn(true)`, and every
name read off the wire is absolute.

The documented behaviour the model relies on: a name is a sequence of byte labels compared
without regard to ASCII case; `from_labels` accepts exactly the label lists that fit the limits
of the wire format; `iter` yields every label, while `num_labels` does not count a leading `*`;
`zone_of` is the label-suffix test. What depends on presentation text (`from_str_relaxed`, the
text of an error) is left open as a parameter, `Hickory`.

## Main definitions

* `Name`, `Name.fromLabels`, `Name.numLabels`, `Name.sameName`, `Name.zoneOf`.
* `RecordType`, `DNSClass`, `RData`, `Record`.
* `Hickory` — the operations on presentation text.

## Main results

* `Name.zoneOf_iff` — `zone_of` is the suffix relation on case-folded labels.
* `validLabels_of_suffix`, `validLabels_of_lengths` — the limits are inherited by suffixes and
  depend on label lengths only.
-/

namespace PanoptiDns

open Bytes

/-- A `u128`. -/
abbrev U128 := BitVec 128

/-- The bytes a name takes on the wire: a length byte before each label, and the root's. -/
def encodedLen (labels : List Bytes) : ℕ := (labels.map fun l => l.length + 1).sum + 1

/-- The limits of the wire format: labels of 1 to 63 bytes, 255 bytes in all. -/
def ValidLabels (labels : List Bytes) : Prop :=
  (∀ l ∈ labels, 1 ≤ l.length ∧ l.length ≤ 63) ∧ encodedLen labels ≤ 255

instance : DecidablePred ValidLabels := fun _ => inferInstanceAs (Decidable (_ ∧ _))

/-- A fully qualified domain name: labels from the leftmost to the top, within the limits. -/
@[ext] structure Name where
  labels : List Bytes
  valid : ValidLabels labels
  deriving DecidableEq

/-- Why `from_labels` failed: the labels it was given. -/
structure ProtoError where
  labels : List Bytes
  deriving DecidableEq

namespace Name

/-- `Name::from_labels`. -/
def fromLabels (labels : List Bytes) : Except ProtoError Name :=
  if h : ValidLabels labels then .ok ⟨labels, h⟩ else .error ⟨labels⟩

/-- `Name::iter`: every label, a leading `*` included. -/
def iter (n : Name) : List Bytes := n.labels

/-- The label of a wildcard, the single byte `*`. -/
def star : Bytes := ofString "*"

/-- `Name::num_labels`: the number of labels, not counting a leading `*`. -/
def numLabels (n : Name) : ℕ :=
  if n.labels.head? = some star then n.labels.length - 1 else n.labels.length

/-- The labels with their case folded: what comparison sees of a name. -/
def key (n : Name) : List Bytes := n.labels.map lower

/-- The name in lowercase, as `LowerName` has it. -/
def toLower (n : Name) : Name := ⟨n.key, by
  obtain ⟨hlabels, hlen⟩ := n.valid
  refine ⟨List.forall_mem_map.mpr fun l hl => ?_, ?_⟩
  · rw [lower, List.length_map]
    exact hlabels l hl
  · simpa [encodedLen, key, lower, Function.comp_def] using hlen⟩

/-- `PartialEq` for names: equality of labels up to ASCII case. -/
def sameName (n m : Name) : Bool := n.key == m.key

/-- `Name::zone_of`: the name is at or below this one. -/
def zoneOf (n m : Name) : Bool := n.key.isSuffixOf m.key

/-- The root. -/
def root : Name := ⟨[], by simp [ValidLabels, encodedLen]⟩

/-- The labels of a name that was built are the labels it was built from. -/
lemma fromLabels_eq_ok {labels : List Bytes} {n : Name} :
    fromLabels labels = .ok n ↔ n.labels = labels := by
  unfold fromLabels
  split
  · rename_i h
    rw [Except.ok.injEq, Name.ext_iff]
    exact eq_comm
  · rename_i h
    simp only [reduceCtorEq, false_iff]
    rintro rfl
    exact h n.valid

/-- A name is built exactly from the labels that fit the limits. -/
lemma isOk_fromLabels_iff (labels : List Bytes) :
    (fromLabels labels).isOk = true ↔ ValidLabels labels := by
  unfold fromLabels
  split
  · rename_i h
    exact ⟨fun _ => h, fun _ => rfl⟩
  · rename_i h
    exact ⟨fun hok => absurd hok Bool.false_ne_true, fun hvalid => absurd hvalid h⟩

/-- Names are the same iff their keys are equal. -/
@[simp] lemma sameName_iff (n m : Name) : n.sameName m = true ↔ n.key = m.key := by
  simp [sameName]

/-- `zone_of` is the suffix relation on keys. -/
lemma zoneOf_iff (n m : Name) : n.zoneOf m = true ↔ n.key <:+ m.key := by
  simp [zoneOf]

/-- A name has as many folded labels as labels. -/
@[simp] lemma length_key (n : Name) : n.key.length = n.labels.length := by simp [key]

/-- The labels of the key have the lengths of the labels. -/
lemma map_length_labels (n : Name) : n.labels.map List.length = n.key.map List.length := by
  simp [key, Function.comp_def]

/-- The key of the root is empty, and only the root's is. -/
lemma key_eq_nil_iff (n : Name) : n.key = [] ↔ n.labels = [] := by simp [key]

end Name

/-- The encoded length of a concatenation counts the root once. -/
lemma encodedLen_append (ls ms : List Bytes) :
    encodedLen (ls ++ ms) + 1 = encodedLen ls + encodedLen ms := by
  simp [encodedLen]
  omega

/-- The limits are inherited by suffixes. -/
lemma validLabels_of_suffix {ls ms : List Bytes} (h : ls <:+ ms) (hm : ValidLabels ms) :
    ValidLabels ls := by
  obtain ⟨ps, rfl⟩ := h
  refine ⟨fun l hl => hm.1 l (by simp [hl]), ?_⟩
  have h1 := hm.2
  have h2 := encodedLen_append ps ls
  have h3 : 1 ≤ encodedLen ps := by simp [encodedLen]
  omega

/-- The encoded length depends on the lengths of the labels only. -/
lemma encodedLen_eq_of_lengths {ls ms : List Bytes} (h : ls.map List.length = ms.map List.length) :
    encodedLen ls = encodedLen ms := by
  have hlen : ∀ xs : List Bytes, encodedLen xs = ((xs.map List.length).map (· + 1)).sum + 1 := by
    intro xs
    simp [encodedLen, Function.comp_def]
  rw [hlen, hlen, h]

/-- The limits depend on the lengths of the labels only. -/
lemma validLabels_of_lengths {ls ms : List Bytes} (h : ls.map List.length = ms.map List.length) :
    ValidLabels ls ↔ ValidLabels ms := by
  have hall : ∀ xs : List Bytes, (∀ l ∈ xs, 1 ≤ l.length ∧ l.length ≤ 63) ↔
      ∀ k ∈ xs.map List.length, 1 ≤ k ∧ k ≤ 63 := by
    intro xs
    simp
  unfold ValidLabels
  rw [encodedLen_eq_of_lengths h, hall, hall, h]

/-! ## Records -/

/-- The record types the program tells apart; every other type is its number. -/
inductive RecordType
  | A | AAAA | NS | PTR | SOA | ANY | AXFR | IXFR
  | other (code : UInt16)
  deriving DecidableEq

/-- The record classes the program tells apart. -/
inductive DNSClass
  | IN | ANY
  | other (code : UInt16)
  deriving DecidableEq

/-- The data of an SOA record. -/
structure SOA where
  mname : Name
  rname : Name
  serial : ℕ
  refresh : ℕ
  retry : ℕ
  expire : ℕ
  minimum : ℕ
  deriving DecidableEq

/-- Record data: what the program builds, and everything else as its type and bytes. -/
inductive RData
  | ptr (target : Name)
  | aaaa (addr : U128)
  | ns (host : Name)
  | soa (data : SOA)
  | other (rtype : RecordType) (data : Bytes)
  deriving DecidableEq

/-- `RData::record_type`. -/
def RData.recordType : RData → RecordType
  | .ptr _ => .PTR
  | .aaaa _ => .AAAA
  | .ns _ => .NS
  | .soa _ => .SOA
  | .other t _ => t

/-- A resource record. -/
structure Record where
  name : Name
  dnsClass : DNSClass
  ttl : ℕ
  data : RData
  deriving DecidableEq

/-- `Record::from_rdata`: a record of class `IN`. -/
def Record.fromRData (name : Name) (ttl : ℕ) (data : RData) : Record := ⟨name, .IN, ttl, data⟩

/-- The operations of hickory on presentation text, taken as they are: `Name::from_str_relaxed`
and the text of an error. -/
structure Hickory where
  fromStrRelaxed : Bytes → Option Name
  protoErrorText : ProtoError → Bytes

end PanoptiDns
