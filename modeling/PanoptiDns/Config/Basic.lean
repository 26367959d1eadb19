import PanoptiDns.Nibble
import PanoptiDns.StdNet

set_option relaxedAutoImplicit false
set_option autoImplicit false

/-!
# The configuration

The data model of `src/config/mod.rs` and the diagnostics of `src/config/error.rs`. A text known
at compile time is a `String`, one that comes from the file is a list of bytes; the prose of a
diagnostic is determined by its kind.

## Main definitions

* `FwdTemplate`, `FwdTemplate.parent`, `FwdTemplate.render` — a `resolves to` template.
* `Zone`, `Config`, `Config.apexes`.
* `ConfigError`, `ConfigErrorKind`.
-/

namespace PanoptiDns

open Bytes

/-- TTL of synthesized records. -/
def defaultTtl : ℕ := 3600

/-- Default DNS port, used when a `listen` directive omits one. -/
def defaultPort : ℕ := 53

/-- An address the server should bind. -/
structure ListenAddr where
  addr : IpAddr
  port : ℕ
  deriving DecidableEq

/-- One label of a forward-name template: literal text, or the label that carries the
placeholder, split around it. The verbatim form is emitted, the lowercase one is matched. -/
inductive FwdLabel
  | literal (verbatim lower : Bytes)
  | digits (pre preLower post postLower : Bytes) (dashed : Bool)
  deriving DecidableEq

/-- The bytes a label has in a rendered name. -/
def FwdLabel.render (digits : Bytes) : FwdLabel → Bytes
  | .literal verbatim _ => verbatim
  | .digits pre _ post _ dashed => pre ++ (if dashed then dashGroup digits else digits) ++ post

/-- The bytes a label has in the apex. -/
def FwdLabel.joined : FwdLabel → Bytes
  | .literal verbatim _ => verbatim
  | .digits pre _ post _ _ => pre ++ post

/-- A `resolves to` template, split at label boundaries, with the index of the digits label. -/
structure FwdTemplate where
  labels : List FwdLabel
  digitsAt : ℕ
  deriving DecidableEq

namespace FwdTemplate

/-- Number of labels a matching query name must have. -/
def labelCount (t : FwdTemplate) : ℕ := t.labels.length

/-- The apex: everything to the right of the digits label. -/
def parent (t : FwdTemplate) : Except ProtoError Name :=
  Name.fromLabels ((t.labels.drop (t.digitsAt + 1)).map FwdLabel.joined)

/-- Render the template with `digits` substituted. -/
def render (t : FwdTemplate) (digits : Bytes) : Except ProtoError Name :=
  Name.fromLabels (t.labels.map (FwdLabel.render digits))

end FwdTemplate

/-- A configured network and the forward names it maps to. -/
structure Zone where
  srcLine : ℕ
  pfx : U128
  mask : ℕ
  hostNibbles : ℕ
  ptrZone : Name
  resolvesTo : Bytes
  fwd : FwdTemplate
  fwdParent : Name
  ttl : ℕ
  upstream : Option IpAddr
  deriving DecidableEq

/-- What to answer for a name outside every configured zone. -/
inductive OutOfZonePolicy
  | refused
  | nxDomain
  deriving DecidableEq

/-- SOA parameters for the zone apexes. -/
structure SoaParams where
  primary : Name
  hostmaster : Name
  serial : ℕ
  refresh : ℕ
  retry : ℕ
  expire : ℕ
  minimum : ℕ
  deriving DecidableEq

/-- Response-rate-limiting parameters, with their defaults. -/
structure RrlParams where
  enabled : Bool := true
  responsesPerSecond : ℕ := 20
  burst : ℕ := 50
  slip : ℕ := 2
  ipv4Prefix : ℕ := 24
  ipv6Prefix : ℕ := 64
  deriving DecidableEq

/-- Server-wide knobs, with their defaults; the timeout is in milliseconds. -/
structure ServerParams where
  outOfZone : OutOfZonePolicy := .refused
  maxUdpPayload : ℕ := 1232
  upstreamTimeout : ℕ := 300
  rrl : RrlParams := {}
  deriving DecidableEq

/-- A validated configuration. -/
structure Config where
  listen : List ListenAddr
  zones : List Zone
  soa : Option SoaParams
  nameservers : List Name
  params : ServerParams
  deriving DecidableEq

/-- Append a name unless the list has it already, up to case. -/
def pushDistinct (out : List Name) (name : Name) : List Name :=
  if out.any (·.sameName name) then out else out ++ [name]

/-- Every distinct apex we are authoritative for. -/
def Config.apexes (c : Config) : List Name :=
  (c.zones.flatMap fun z => [z.ptrZone, z.fwdParent]).foldl pushDistinct []

/-! ## Diagnostics -/

/-- What specifically was wrong. -/
inductive ConfigErrorKind
  | notUtf8
  | unknownDirective (keyword : Bytes)
  | missingValue (keyword : String)
  | directiveBeforeNetwork (keyword : String)
  | globalAfterNetwork (keyword : String)
  | invalidNumber (what allowed : String)
  | invalidDnsName (what : String)
  | invalidChoice (what allowed : String)
  | missingCompanionDirective (missing present : String)
  | duplicateDirective (keyword : String) (firstLine : ℕ)
  | missingResolvesTo
  | networkMissingPrefixLen
  | networkInvalidAddress
  | networkPrefixLenNotANumber
  | networkPrefixLenOutOfRange (mask : ℕ)
  | networkPrefixNotNibbleAligned (mask : ℕ)
  | networkHostBitsSet (suggestion : Bytes)
  | networkPrefixTooShort (mask : ℕ)
  | networkIsSingleAddress
  | duplicateNetwork (firstLine : ℕ)
  | placeholderMissing
  | placeholderRepeated (count : ℕ)
  | dashedDigitsNotNibbleMultipleOfFour (hostNibbles : ℕ)
  | resolvesToInvalidName (reason : Bytes)
  | forwardNameTooLong (reason : Bytes)
  | duplicateForwardPattern (firstLine : ℕ)
  | invalidListenAddress
  | invalidUpstreamAddress
  deriving DecidableEq

/-- A single configuration problem, anchored to the line that caused it; `span` is the range of
bytes of the line to underline. -/
structure ConfigError where
  line : ℕ
  snippet : Bytes
  span : Option (ℕ × ℕ)
  kind : ConfigErrorKind
  deriving DecidableEq

/-- Every apex of a zone is listed, up to case, and nothing else is. -/
lemma foldl_pushDistinct (names out : List Name) (k : List Bytes) :
    (∃ n ∈ names.foldl pushDistinct out, n.key = k) ↔
      (∃ n ∈ out, n.key = k) ∨ ∃ n ∈ names, n.key = k := by
  induction names generalizing out with
  | nil => simp
  | cons m names ih =>
    rw [List.foldl_cons, ih]
    have hstep : (∃ n ∈ pushDistinct out m, n.key = k) ↔ (∃ n ∈ out, n.key = k) ∨ m.key = k := by
      unfold pushDistinct
      split
      · rename_i hany
        obtain ⟨n, hn, hnm⟩ := List.any_eq_true.mp hany
        rw [Name.sameName_iff] at hnm
        constructor
        · exact .inl
        · rintro (h | h)
          · exact h
          · exact ⟨n, hn, hnm.trans h⟩
      · simp [or_and_right, exists_or]
    rw [hstep, or_assoc]
    simp

/-- Leaving out later spellings of a name does not change the first match. -/
lemma find?_foldl_pushDistinct {p : Name → Bool} (hp : ∀ n m : Name, n.key = m.key → p n = p m)
    (names out : List Name) : (names.foldl pushDistinct out).find? p = (out ++ names).find? p := by
  induction names generalizing out with
  | nil => simp
  | cons m names ih =>
    rw [List.foldl_cons, ih]
    unfold pushDistinct
    split
    · rename_i hany
      obtain ⟨n, hn, hnm⟩ := List.any_eq_true.mp hany
      rw [Name.sameName_iff] at hnm
      rw [List.find?_append, List.find?_append, List.find?_cons, ← hp n m hnm]
      cases hout : out.find? p with
      | some x => rfl
      | none => simp [List.find?_eq_none.mp hout n hn]
    · simp

/-- **The apexes** are the reverse zones and the forward parents, up to case. -/
lemma exists_mem_apexes_iff (c : Config) (k : List Bytes) :
    (∃ n ∈ c.apexes, n.key = k) ↔ ∃ z ∈ c.zones, z.ptrZone.key = k ∨ z.fwdParent.key = k := by
  unfold Config.apexes
  rw [foldl_pushDistinct]
  constructor
  · rintro (⟨n, hn, -⟩ | ⟨n, hn, rfl⟩)
    · simp at hn
    · obtain ⟨z, hz, hn⟩ := List.mem_flatMap.mp hn
      refine ⟨z, hz, ?_⟩
      rcases List.mem_pair.mp hn with rfl | rfl
      · exact .inl rfl
      · exact .inr rfl
  · rintro ⟨z, hz, h⟩
    right
    rcases h with h | h
    · exact ⟨z.ptrZone, List.mem_flatMap.mpr ⟨z, hz, by simp⟩, h⟩
    · exact ⟨z.fwdParent, List.mem_flatMap.mpr ⟨z, hz, by simp⟩, h⟩

end PanoptiDns
