import PanoptiDns.Server.Negative
import Mathlib.Data.List.Find

set_option relaxedAutoImplicit false
set_option autoImplicit false

/-!
# Containment by labels and by prefix

A reverse name is placed twice: by its labels, when the handler looks for the zone whose namespace
contains it and for the SOA that denies it, and by the address it denotes, when the reverse zones
are scanned. The two are written independently. On reverse zones they are the same relation; the
scan by labels also looks at the forward apexes, and nothing keeps those out of `ip6.arpa`.

## Main definitions

* `Config.PathsAgree` — the scan by labels and the scan by prefix choose one zone and its SOA.
* `Config.ParentsBehind` — no forward apex gets in front of the networks of an address.

## Main results

* `netmaskToPtrName_zoneOf` — reverse zones are nested as prefixes are.
* `zoneContaining_eq_zoneForAddr_iff` — when the two scans find the same zone.
* `containment_agrees_iff` — when they agree on the zone and on the SOA.
-/

namespace PanoptiDns

open Bytes

/-- **Two reverse zones** are under one another iff the prefixes are. -/
lemma netmaskToPtrName_zoneOf {m₁ m₂ : ℕ} (hm₁ : m₁ ≤ 128) (ha₁ : m₁ % 4 = 0) (hm₂ : m₂ ≤ 128)
    (ha₂ : m₂ % 4 = 0) (p₁ p₂ : U128) :
    ∃ r₁ r₂, netmaskToPtrName p₁ m₁ = some r₁ ∧ netmaskToPtrName p₂ m₂ = some r₂ ∧
      (r₁.zoneOf r₂ = true ↔ m₁ ≤ m₂ ∧ p₁ &&& maskBits m₁ = p₂ &&& maskBits m₁) := by
  obtain ⟨j, rfl⟩ := Nat.dvd_of_mod_eq_zero ha₁
  obtain ⟨k, rfl⟩ := Nat.dvd_of_mod_eq_zero ha₂
  refine ⟨_, _, netmaskToPtrName_eq p₁ (by omega), netmaskToPtrName_eq p₂ (by omega), ?_⟩
  rw [Name.zoneOf_iff, Name.key, Name.key, map_lower_reverseLabels, map_lower_reverseLabels,
    reverseLabels_suffix_iff (by omega) (by omega)]
  constructor
  · rintro ⟨hjk, heq⟩
    exact ⟨by omega, heq⟩
  · rintro ⟨hjk, heq⟩
    exact ⟨by omega, heq⟩

/-! ## The two paths -/

/-- The authority section of the network of an address: the SOA of its reverse zone. -/
def Config.soaForAddr (c : Config) (a : U128) : List Record :=
  match zoneForAddr c a, c.soa with
  | some zone, some soa => [soaRecord zone.ptrZone soa zone.ttl]
  | _, _ => []

/-- **The two paths agree** on the reverse name `q` of `a`: its labels are in the zone that has the
address, and a denial of the name, NODATA or NXDOMAIN, comes with the SOA of that zone. -/
structure Config.PathsAgree (c : Config) (q : Name) (a : U128) : Prop where
  zone : zoneContaining c q = zoneForAddr c a
  nodata : negativeAuthority c q .negative = c.soaForAddr a
  nxDomain : ∀ z, zoneContaining c q = some z → (noNameReply c q z).authority = c.soaForAddr a

/-- **No forward apex in front**: a zone whose forward parent is at or above `q` has the address
`a` in its network, or is scanned after a zone that does. -/
def Config.ParentsBehind (c : Config) (q : Name) (a : U128) : Prop :=
  ∀ pre w post, c.zones = pre ++ w :: post → w.fwdParent.zoneOf q = true →
    ∃ z ∈ pre ++ [w], z.contains a = true

/-- **One SOA for both denials**: the second scan of the zones, for NODATA, comes to the authority
section that NXDOMAIN has in the zone that contains the name, and to none outside them. -/
lemma negativeAuthority_eq_noNameReply (c : Config) (q : Name) :
    negativeAuthority c q .negative =
      ((zoneContaining c q).map fun z => (noNameReply c q z).authority).getD [] := by
  unfold negativeAuthority zoneContaining noNameReply
  rw [if_neg (by simp)]
  cases c.soa with
  | none =>
    cases c.zones.find? fun z => z.ptrZone.zoneOf q || z.fwdParent.zoneOf q <;> rfl
  | some soa =>
    simp only
    induction c.zones with
    | nil => rfl
    | cons z zones ih =>
      rw [List.findSome?_cons, List.find?_cons]
      by_cases hptr : z.ptrZone.zoneOf q = true
      · simp [hptr]
      · by_cases hfwd : z.fwdParent.zoneOf q = true
        · simp [hptr, hfwd]
        · simpa [hptr, hfwd] using ih

section Scan

variable {c : Config} (hc : c.Wf) {q : Name} {a : U128} (hq : q.key = reverseLabels a 32)

include hc hq

/-- **On a reverse name, the scan by labels** is the scan by prefix, with the forward apexes. -/
lemma zoneContaining_reverse :
    zoneContaining c q = c.zones.find? fun z => z.contains a || z.fwdParent.zoneOf q := by
  apply List.find?_congr
  intro z hz
  rw [Bool.eq_iff_iff, Bool.or_eq_true, Bool.or_eq_true, (hc.zones z hz).zoneOf_ptrZone_iff hq]

/-- **The two scans** find the same zone iff no forward apex is in front. -/
lemma zoneContaining_eq_zoneForAddr_iff :
    zoneContaining c q = zoneForAddr c a ↔ c.ParentsBehind q a := by
  rw [zoneContaining_reverse hc hq]
  exact FirstMatch.find?_or_eq_iff c.zones

/-- **The SOA of the address**, once the zone is the one of the address: the reverse zone contains
the name, so it is the apex that is chosen. -/
lemma authority_of_zoneForAddr {z : Zone} (h : zoneForAddr c a = some z) :
    (noNameReply c q z).authority = c.soaForAddr a := by
  obtain ⟨hmem, hin⟩ := of_zoneForAddr h
  have hptr : z.ptrZone.zoneOf q = true := ((hc.zones z hmem).zoneOf_ptrZone_iff hq).mpr hin
  unfold noNameReply Config.soaForAddr
  rw [if_pos hptr, h]
  cases c.soa with
  | none => rfl
  | some soa => rfl

/-- **The two paths agree** iff no forward apex is in front. -/
lemma pathsAgree_iff : c.PathsAgree q a ↔ c.ParentsBehind q a := by
  rw [← zoneContaining_eq_zoneForAddr_iff hc hq]
  constructor
  · exact Config.PathsAgree.zone
  · intro h
    have hdenied : ∀ z, zoneContaining c q = some z →
        (noNameReply c q z).authority = c.soaForAddr a := by
      intro z hz
      exact authority_of_zoneForAddr hc hq (h ▸ hz)
    refine ⟨h, ?_, hdenied⟩
    rw [negativeAuthority_eq_noNameReply]
    cases hz : zoneContaining c q with
    | some z => exact hdenied z hz
    | none =>
      unfold Config.soaForAddr
      rw [← h, hz]
      rfl

end Scan

/-- **Containment by labels and by prefix.** Reverse zones lie under one another as the prefixes
do. A zone of an accepted configuration contains a reverse name by labels iff it contains the
address by prefix. Hence the zone and the SOA chosen by labels are those of the address, exactly
when no forward apex at or above the name is in front of the networks that have the address. -/
theorem containment_agrees_iff {hk : Hickory} {input : Bytes} {c : Config}
    (h : Config.parse hk input = .ok c) :
    (∀ (p₁ p₂ : U128) (m₁ m₂ : ℕ), m₁ ≤ 128 → m₁ % 4 = 0 → m₂ ≤ 128 → m₂ % 4 = 0 →
      ∃ r₁ r₂, netmaskToPtrName p₁ m₁ = some r₁ ∧ netmaskToPtrName p₂ m₂ = some r₂ ∧
        (r₁.zoneOf r₂ = true ↔ m₁ ≤ m₂ ∧ p₁ &&& maskBits m₁ = p₂ &&& maskBits m₁)) ∧
    ∀ (q : Name) (a : U128), ptrNameToAddr q = some a →
      (∀ z ∈ c.zones, z.ptrZone.zoneOf q = true ↔ a &&& maskBits z.mask = z.pfx) ∧
      (c.PathsAgree q a ↔ c.ParentsBehind q a) := by
  constructor
  · intro p₁ p₂ m₁ m₂ hm₁ ha₁ hm₂ ha₂
    exact netmaskToPtrName_zoneOf hm₁ ha₁ hm₂ ha₂ p₁ p₂
  · intro q a hq
    have hc := parse_wf h
    rw [ptrNameToAddr_eq_some_iff] at hq
    refine ⟨?_, pathsAgree_iff hc hq⟩
    intro z hz
    rw [(hc.zones z hz).zoneOf_ptrZone_iff hq, z.contains_iff]

/-- A forward template under `ip6.arpa`, with SOA data. -/
def arpaInput : Bytes := ofString "primary ns1.example.net
hostmaster hostmaster.example.net
network 2001:db8::/64
resolves to %DIGITS%.ip6.arpa
"

/-- It is accepted. -/
lemma parse_arpaInput : Config.parse plainHickory arpaInput = .ok (plainlyParsed arpaInput) := by
  decide +kernel

/-- The full reverse name of an address. -/
def reverseName (a : U128) : Name := (netmaskToPtrName a 128).getD Name.root

/-- On a name inside the network the paths agree: the zone of the apex has the address. -/
theorem containment_arpaInput :
    ptrNameToAddr (reverseName 0x20010db8000000000000000000000001) =
      some 0x20010db8000000000000000000000001 ∧
    (plainlyParsed arpaInput).PathsAgree (reverseName 0x20010db8000000000000000000000001)
      0x20010db8000000000000000000000001 ∧
    ∃ r₁ r₂, netmaskToPtrName 0x20010db8000000000000000000000000 32 = some r₁ ∧
      netmaskToPtrName 1 128 = some r₂ ∧ (r₁.zoneOf r₂ = true ↔
        32 ≤ 128 ∧ (0x20010db8000000000000000000000000 : U128) &&& maskBits 32 =
          1 &&& maskBits 32) := by
  obtain ⟨hnames, hzones⟩ := containment_agrees_iff parse_arpaInput
  have hq : ptrNameToAddr (reverseName 0x20010db8000000000000000000000001) =
      some 0x20010db8000000000000000000000001 := by decide +kernel
  refine ⟨hq, (hzones _ _ hq).2.mpr ?_, ?_⟩
  · intro pre w post hsplit _
    have hall : (plainlyParsed arpaInput).zones.all
        (·.contains 0x20010db8000000000000000000000001) = true := by decide +kernel
    exact ⟨w, by simp, List.all_eq_true.mp hall w (by simp [hsplit])⟩
  · exact hnames _ _ 32 128 (by decide) (by decide) (by decide) (by decide)

/-- On the name of `::1` they do not: no network has the address, but its denial has a SOA. -/
theorem zoneContaining_arpaInput :
    Config.parse plainHickory arpaInput = .ok (plainlyParsed arpaInput) ∧
      ptrNameToAddr (reverseName 1) = some 1 ∧
      zoneForAddr (plainlyParsed arpaInput) 1 = none ∧
      zoneContaining (plainlyParsed arpaInput) (reverseName 1) =
        (plainlyParsed arpaInput).zones.head? ∧
      (plainlyParsed arpaInput).zones.head?.isSome = true ∧
      (negativeAuthority (plainlyParsed arpaInput) (reverseName 1) .negative).map Record.name =
        (plainlyParsed arpaInput).zones.map Zone.fwdParent := by
  decide +kernel

end PanoptiDns
