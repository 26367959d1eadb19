import PanoptiDns.Lib.FirstMatch
import PanoptiDns.Zone.Forward

set_option relaxedAutoImplicit false
set_option autoImplicit false

/-!
# Lookups over a whole configuration

The scans over the zones, in terms of what the zones mean: a reverse name is found in the zone
of the longest prefix, a forward name in the first zone that spells it, and a name is contained
in a configuration iff it is under one of its apexes.

## Main definitions

* `Config.HasReverse`, `Config.HasForward`, `Config.HasApex` — the names a configuration knows.
* `Config.Covers` — the names under its apexes.

## Main results

* `zoneForAddr_eq_some_iff` — longest-prefix match.
* `matchPtr_eq_some_iff`, `matchForward_eq_some_iff` — what the two scans find.
* `Zone.Wf.zoneOf_ptrZone_iff` — label containment and prefix containment agree.
-/

namespace PanoptiDns

open Bytes

/-! ## Containment of names -/

namespace Zone.Wf

variable {z : Zone} (hz : z.Wf)

include hz

/-- **Reverse zones contain** exactly the reverse names of the addresses of the network. -/
lemma zoneOf_ptrZone_iff {q : Name} {a : U128} (hq : q.key = reverseLabels a 32) :
    z.ptrZone.zoneOf q = true ↔ z.contains a = true := by
  have hk : z.mask / 4 ≤ 32 := by
    have := hz.mask_le
    omega
  have hmasked : z.pfx &&& maskBits (4 * (z.mask / 4)) = z.pfx := by
    rw [← hz.mask_eq]
    exact hz.masked
  have hsuf : reverseLabels a (z.mask / 4) <:+ reverseLabels a 32 :=
    ⟨_, (reverseLabels_eq_append a hk le_rfl).symm⟩
  rw [Name.zoneOf_iff, hz.key_ptrZone, hq, z.contains_iff, hz.mask_eq,
    and_maskBits_eq_iff hk hmasked, ← reverseLabels_inj hk, ← hz.mask_eq]
  constructor
  · intro h
    exact ((List.suffix_of_suffix_length_le h hsuf (by simp)).eq_of_length (by simp)).symm
  · intro h
    rw [← h]
    exact hsuf

/-- A name the zone spells is under its forward apex. -/
lemma suffix_of_spells {a : U128} {key : List Bytes} (h : z.Spells a key) :
    z.fwdParent.key <:+ key := by
  obtain ⟨p, hp, -, -⟩ := hz.exists_pattern
  obtain ⟨-, n, hn, rfl⟩ := h
  rw [key_forwardName hz hp hn, Name.key, hz.labels_fwdParent hp]
  exact (List.suffix_cons _ _).trans (List.suffix_append _ _)

/-- A name the zone spells is longer than its forward apex. -/
lemma length_lt_of_spells {a : U128} {key : List Bytes} (h : z.Spells a key) :
    z.fwdParent.key.length < key.length := by
  obtain ⟨p, hp, -, -⟩ := hz.exists_pattern
  obtain ⟨-, n, hn, rfl⟩ := h
  rw [key_forwardName hz hp hn, Name.key, hz.labels_fwdParent hp]
  simp
  omega

/-- Every address of the network is spelled somehow. -/
lemma exists_spells {a : U128} (ha : z.contains a = true) :
    ∃ n, forwardName z a = some n ∧ z.Spells a n.key := by
  obtain ⟨p, hp, -, -⟩ := hz.exists_pattern
  obtain ⟨n, hn, -⟩ := forwardName_eq hz hp a
  exact ⟨n, hn, ha, n, hn, rfl⟩

end Zone.Wf

/-! ## The scans -/

/-- The names of addresses, in a configuration's networks. -/
def Config.HasReverse (c : Config) (q : Name) : Prop :=
  ∃ z ∈ c.zones, ∃ a, z.contains a = true ∧ q.key = reverseLabels a 32

/-- The names the configuration's templates spell, as far as they are compared. -/
def Config.HasForward (c : Config) (q : Name) : Prop :=
  ∃ z ∈ c.zones, ∃ a, z.Spells a q.counted

/-- The apexes of a configuration. -/
def Config.HasApex (c : Config) (q : Name) : Prop :=
  ∃ z ∈ c.zones, z.ptrZone.key = q.key ∨ z.fwdParent.key = q.key

/-- The names under the apexes of a configuration. -/
def Config.Covers (c : Config) (q : Name) : Prop :=
  ∃ z ∈ c.zones, z.ptrZone.zoneOf q = true ∨ z.fwdParent.zoneOf q = true

/-- Some zone contains a name iff it is covered. -/
lemma zoneContaining_isSome_iff (c : Config) (q : Name) :
    (zoneContaining c q).isSome = true ↔ c.Covers q := by
  unfold zoneContaining Config.Covers
  simp [List.find?_isSome]

/-- The zone found for an address has it. -/
lemma of_zoneForAddr {c : Config} {a : U128} {z : Zone} (h : zoneForAddr c a = some z) :
    z ∈ c.zones ∧ z.contains a = true :=
  ⟨List.mem_of_find?_eq_some h, List.find?_some (p := fun z : Zone => z.contains a) h⟩

section Scans

variable {c : Config} (hc : c.Wf)

include hc

/-- No two zones of one mask contain the same address. -/
lemma pairwise_mask_ne (a : U128) : c.zones.Pairwise fun z w =>
    z.contains a = true → w.contains a = true → z.mask ≠ w.mask := by
  refine hc.apart.imp fun {z w} hapart hz hw hmask => hapart.1 ?_
  rw [Zone.contains_iff] at hz hw
  rw [← hz, ← hw, hmask]

/-- **Longest-prefix match.** -/
lemma zoneForAddr_eq_some_iff {a : U128} {z : Zone} :
    zoneForAddr c a = some z ↔ z ∈ c.zones ∧ z.contains a = true ∧
      ∀ w ∈ c.zones, w ≠ z → w.contains a = true → w.mask < z.mask :=
  FirstMatch.find?_eq_some_iff hc.sorted (pairwise_mask_ne hc a)

omit hc in
/-- No zone is found for an address iff none has it. -/
lemma zoneForAddr_eq_none_iff {a : U128} :
    zoneForAddr c a = none ↔ ∀ z ∈ c.zones, z.contains a = false := by
  simp [zoneForAddr]

omit hc in
/-- **The reverse scan** finds the name of an address, in the zone of the address. -/
lemma matchPtr_eq_some_iff {q : Name} {z : Zone} {a : U128} :
    matchPtr c q = some (z, a) ↔ q.key = reverseLabels a 32 ∧ zoneForAddr c a = some z := by
  unfold matchPtr
  simp only [Option.bind_eq_bind, Option.bind_eq_some_iff, Option.map_eq_some_iff, Prod.mk.injEq,
    ptrNameToAddr_eq_some_iff]
  constructor
  · rintro ⟨b, hb, w, hw, rfl, rfl⟩
    exact ⟨hb, hw⟩
  · rintro ⟨hq, hz⟩
    exact ⟨a, hq, z, hz, rfl, rfl⟩

omit hc in
/-- The reverse scan finds something iff the name is that of an address of a network. -/
lemma matchPtr_isSome_iff {q : Name} : (matchPtr c q).isSome = true ↔ c.HasReverse q := by
  constructor
  · intro h
    obtain ⟨⟨z, a⟩, hza⟩ := Option.isSome_iff_exists.mp h
    obtain ⟨hq, hz⟩ := matchPtr_eq_some_iff.mp hza
    obtain ⟨hmem, hin⟩ := of_zoneForAddr hz
    exact ⟨z, hmem, a, hin, hq⟩
  · rintro ⟨z, hz, a, ha, hq⟩
    have hsome : (zoneForAddr c a).isSome = true := List.find?_isSome.mpr ⟨z, hz, ha⟩
    obtain ⟨w, hw⟩ := Option.isSome_iff_exists.mp hsome
    rw [matchPtr_eq_some_iff.mpr ⟨hq, hw⟩]
    rfl

/-- **The forward scan** finds the first zone that spells the query. -/
lemma matchForward_eq_some_iff {q : Name} {z : Zone} {a : U128} :
    matchForward c q = some (z, a) ↔ ∃ pre post, c.zones = pre ++ z :: post ∧
      z.Spells a q.counted ∧ ∀ w ∈ pre, ∀ b, ¬w.Spells b q.counted := by
  unfold matchForward
  rw [List.findSome?_eq_some_iff]
  simp only [Option.map_eq_some_iff, Prod.mk.injEq, Option.map_eq_none_iff]
  have hspec : ∀ w ∈ c.zones, ∀ b, matchZoneForward w q = some b ↔ w.Spells b q.counted :=
    fun w hw b => matchZoneForward_eq_some_iff (hc.zones w hw) q b
  constructor
  · rintro ⟨pre, w, post, hsplit, ⟨b, hb, rfl, rfl⟩, hpre⟩
    refine ⟨pre, post, hsplit, (hspec w (by simp [hsplit]) b).mp hb, ?_⟩
    intro v hv b' hb'
    have := (hspec v (by simp [hsplit, hv]) b').mpr hb'
    simp [hpre v hv] at this
  · rintro ⟨pre, post, hsplit, hz, hpre⟩
    refine ⟨pre, z, post, hsplit, ⟨a, (hspec z (by simp [hsplit]) a).mpr hz, rfl, rfl⟩, ?_⟩
    intro v hv
    rw [Option.eq_none_iff_forall_ne_some]
    intro b hb
    exact hpre v hv b ((hspec v (by simp [hsplit, hv]) b).mp hb)

/-- The forward scan finds something iff a template spells the name. -/
lemma matchForward_isSome_iff {q : Name} : (matchForward c q).isSome = true ↔ c.HasForward q := by
  unfold matchForward Config.HasForward
  rw [List.findSome?_isSome_iff]
  simp only [Option.isSome_map]
  constructor
  · rintro ⟨z, hz, h⟩
    obtain ⟨a, ha⟩ := Option.isSome_iff_exists.mp h
    exact ⟨z, hz, a, (matchZoneForward_eq_some_iff (hc.zones z hz) q a).mp ha⟩
  · rintro ⟨z, hz, a, ha⟩
    refine ⟨z, hz, ?_⟩
    rw [(matchZoneForward_eq_some_iff (hc.zones z hz) q a).mpr ha]
    rfl

/-- The name of an address of a network is covered by it. -/
lemma Config.HasReverse.covers {q : Name} (h : c.HasReverse q) : c.Covers q := by
  obtain ⟨z, hz, a, ha, hq⟩ := h
  exact ⟨z, hz, .inl (((hc.zones z hz).zoneOf_ptrZone_iff hq).mpr ha)⟩

/-- A name that does not start with `*` and is spelled is covered. -/
lemma Config.HasForward.covers {q : Name} (hstar : q.labels.head? ≠ some Name.star)
    (h : c.HasForward q) : c.Covers q := by
  obtain ⟨z, hz, a, ha⟩ := h
  rw [Name.counted_of_not_star hstar] at ha
  exact ⟨z, hz, .inr ((Name.zoneOf_iff _ _).mpr ((hc.zones z hz).suffix_of_spells ha))⟩

omit hc in
/-- An apex is covered by itself. -/
lemma Config.HasApex.covers {q : Name} (h : c.HasApex q) : c.Covers q := by
  obtain ⟨z, hz, h⟩ := h
  refine ⟨z, hz, ?_⟩
  rw [Name.zoneOf_iff, Name.zoneOf_iff]
  rcases h with h | h
  · exact .inl (h ▸ List.suffix_refl _)
  · exact .inr (h ▸ List.suffix_refl _)

end Scans

end PanoptiDns
