import PanoptiDns.Config.Values
import PanoptiDns.Zone.Lookup

set_option relaxedAutoImplicit false
set_option autoImplicit false

/-!
# Longest prefix, whatever the order of the file

Which zone an address belongs to is decided by the networks alone. The compiler rejects two equal
networks and sorts the others by mask, so that the first match is the longest prefix; and a file
with its blocks in another order is accepted with them and compiles to the same zones.

## Main results

* `parse_of_permuted` — blocks in another order mean the same zones.
* `zoneForAddr_longest` — reverse zone selection is longest-prefix match, independent of
  the order of the file.
-/

namespace PanoptiDns

open Bytes

/-! ## The compiler on blocks in another order -/

/-- What has the images of a list in another order has those of the list in another order. -/
lemma exists_perm_of_map {α β : Type} {f : α → β} {l l' : List α}
    (h : (l'.map f).Perm (l.map f)) : ∃ mid : List α, l'.map f = mid.map f ∧ mid.Perm l := by
  have hcomp := congrFun (congrFun (List.eq_map_comp_perm f) (l'.map f)) l
  exact hcomp.mpr h

/-- The `listen` lines in another order mean the addresses in another order. -/
lemma compileListens_of_perm {vs ws : List RawValue}
    (h : (ws.map RawValue.value).Perm (vs.map RawValue.value)) {out : List ListenAddr}
    (hvs : compileListens vs = (out, [])) :
    ∃ out', compileListens ws = (out', []) ∧ out'.Perm out := by
  obtain ⟨us, hvalues, hmoved⟩ := exists_perm_of_map h
  obtain ⟨out', hout', hperm⟩ := List.perm_comp_forall₂ hmoved (compileListens_eq_iff.mp hvs)
  exact ⟨out', compileListens_of_value_eq hvalues (compileListens_eq_iff.mpr hout'), hperm⟩

/-- Blocks in another order mean zones in another order, but for their lines. -/
lemma compiles_of_perm {hk : Hickory} {raws raws' : List RawZone}
    (h : (raws'.map RawZone.block).Perm (raws.map RawZone.block)) {zs : List Zone}
    (hzs : List.Forall₂ (Compiles hk) raws zs) :
    ∃ zs', List.Forall₂ (Compiles hk) raws' zs' ∧
      (zs'.map Zone.sansLine).Perm (zs.map Zone.sansLine) := by
  obtain ⟨mid, hblocks, hmoved⟩ := exists_perm_of_map h
  obtain ⟨ws, hws, hperm⟩ := List.perm_comp_forall₂ hmoved hzs
  obtain ⟨zs', hzs', hsans⟩ := forall₂_compiles_of_block_eq hblocks hws
  exact ⟨zs', hzs', hsans ▸ hperm.map _⟩

/-- **Blocks in another order** are accepted with the others, and mean the same zones.

**Proof sketch.** The two files have outlines with the same settings, and with `listen` lines and
blocks in another order. What a validator accepts depends on values only, and that zones are
pairwise apart does not depend on their order. -/
lemma parse_of_permuted {hk : Hickory} {input input' : Bytes} {c : Config}
    (h : Config.parse hk input = .ok c) (hperm : BlocksPermuted input input') :
    ∃ c', Config.parse hk input' = .ok c' ∧ c'.listen.Perm c.listen ∧
      (c'.zones.map Zone.sansLine).Perm (c.zones.map Zone.sansLine) := by
  obtain ⟨herr, hlisten, hglobals, zs, hzs, hapart, rfl⟩ := parse_eq_ok_iff.mp h
  obtain ⟨o', ho', hl, hb, hg⟩ := outline_of_permuted hperm (parse_outline.mp ⟨herr, rfl⟩)
  obtain ⟨herr', rfl⟩ := parse_outline.mpr ho'
  have hagree := compileGlobals_agree hk hg
  obtain ⟨out', hout', hlistens⟩ := compileListens_of_perm hl (Prod.ext rfl hlisten)
  obtain ⟨zs', hzs', hsans⟩ := compiles_of_perm hb hzs
  have hapart' : zs'.Pairwise Zone.Apart := by
    have hmap : (zs.map Zone.sansLine).Pairwise Zone.Apart := List.pairwise_map.mpr hapart
    rw [← hsans.pairwise_iff fun h => h.symm, List.pairwise_map] at hmap
    exact hmap
  refine ⟨_, parse_eq_ok_iff.mpr ⟨herr', congrArg Prod.snd hout', hagree.errors.mpr hglobals, zs',
    hzs', hapart', rfl⟩, ?_, ?_⟩
  · rw [hout']
    exact hlistens
  · have hzones : ∀ (ttl : ℕ) (ws : List Zone), ((sortByMask (ws.map (Zone.withTtl ttl))).map
        Zone.sansLine).Perm ((ws.map Zone.sansLine).map (Zone.withTtl ttl)) := by
      intro ttl ws
      apply ((sortByMask_perm _).map _).trans
      rw [List.map_map, List.map_map]
      exact List.Perm.refl _
    rw [hagree.ttl]
    exact (hzones _ zs').trans ((hsans.map _).trans (hzones _ zs).symm)

/-! ## Reverse zone selection -/

/-- Zones that are the same but for their lines serve the same addresses. -/
lemma zoneForAddr_of_perm {c c' : Config} (hc : c.Wf) (hc' : c'.Wf)
    (hperm : (c'.zones.map Zone.sansLine).Perm (c.zones.map Zone.sansLine)) (a : U128) :
    (zoneForAddr c' a).map Zone.sansLine = (zoneForAddr c a).map Zone.sansLine := by
  have hfind : ∀ d : Config, (zoneForAddr d a).map Zone.sansLine =
      (d.zones.map Zone.sansLine).find? (·.contains a) := by
    intro d
    rw [List.find?_map]
    rfl
  rw [hfind, hfind]
  have hsorted : ∀ d : Config, d.Wf →
      (d.zones.map Zone.sansLine).Pairwise fun z w => w.mask ≤ z.mask :=
    fun d hd => List.pairwise_map.mpr hd.sorted
  have htie : (c.zones.map Zone.sansLine).Pairwise fun z w =>
      z.contains a = true → w.contains a = true → z.mask ≠ w.mask :=
    List.pairwise_map.mpr (pairwise_mask_ne hc a)
  exact FirstMatch.find?_eq_of_perm (hsorted c hc) htie hperm (hsorted c' hc')

/-- **Reverse zone selection is longest-prefix match**, and independent of the order of the file:
with its blocks in another order it is accepted too, and every address is served by the same
zone, but for the line it stands on. -/
theorem zoneForAddr_longest {hk : Hickory} {input : Bytes} {c : Config}
    (h : Config.parse hk input = .ok c) :
    (∀ a z, zoneForAddr c a = some z ↔ z ∈ c.zones ∧ z.contains a = true ∧
      ∀ w ∈ c.zones, w ≠ z → w.contains a = true → w.mask < z.mask) ∧
    (∀ a, zoneForAddr c a = none ↔ ∀ z ∈ c.zones, z.contains a = false) ∧
    ∀ input', BlocksPermuted input input' → ∃ c', Config.parse hk input' = .ok c' ∧
      ∀ a, (zoneForAddr c' a).map Zone.sansLine = (zoneForAddr c a).map Zone.sansLine := by
  have hc := parse_wf h
  refine ⟨fun a z => zoneForAddr_eq_some_iff hc, fun a => zoneForAddr_eq_none_iff, ?_⟩
  intro input' hperm
  obtain ⟨c', h', -, hzones⟩ := parse_of_permuted h hperm
  exact ⟨c', h', zoneForAddr_of_perm hc (parse_wf h') hzones⟩

/-- The sample with its blocks in the other order. -/
def swappedInput : Bytes := ofString "listen [::]:5353
network 2001:db8:0:42::/64
    resolves to %DIGITS-DASHED%.lan.example.net
    with upstream 2001:db8::53
network 2001:db8::/32
    resolves to v6-%DIGITS%.Example.net.
"

/-- In the sample, the longer of the two prefixes wins, in either order. -/
theorem zoneForAddr_swappedInput :
    (zoneForAddr (parsed sampleInput) 0x20010db8000000420000000000000001).map Zone.mask = some 64 ∧
    ∃ c', Config.parse namelessHickory swappedInput = .ok c' ∧
      ∀ a, (zoneForAddr c' a).map Zone.sansLine =
        (zoneForAddr (parsed sampleInput) a).map Zone.sansLine := by
  have hperm : BlocksPermuted sampleInput swappedInput :=
    ⟨by decide +kernel, by decide +kernel, by decide +kernel⟩
  exact ⟨by decide +kernel, (zoneForAddr_longest parse_sampleInput).2.2 _ hperm⟩

end PanoptiDns
