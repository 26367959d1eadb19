import PanoptiDns.Server.Handler
import PanoptiDns.Zone.Namespace

set_option relaxedAutoImplicit false
set_option autoImplicit false

/-!
# Which names exist

NXDOMAIN says that a name does not exist, whatever the type, and that nothing exists below it.
The handler decides existence three times, at the apexes, in the reverse zones and in the forward
templates, and the first two look at the type of the query. This file says when the replies are
consistent all the same.

## Main definitions

* `Config.HasRecord`, `Config.RecordBelow` — the names with a record of some type, and the names
  above them.

## Main results

* `decide_code_eq_nxDomain_iff` — what is answered NXDOMAIN.
* `Config.hasRecord_iff` — what has a record of some type.
* `decide_existence_iff` — when a name with a record of one type exists for another.
* `exists_denied_ancestor`, `decide_ancestor_iff` — when a name above a record exists.
-/

namespace PanoptiDns

open Bytes

/-- A type for which the handler answers from records, not a zone transfer. -/
def RecordType.isQuery (t : RecordType) : Prop := t ≠ .AXFR ∧ t ≠ .IXFR

instance (t : RecordType) : Decidable t.isQuery := inferInstanceAs (Decidable (_ ∧ _))

/-- An apex type finds the apex, any other type does not look. -/
lemma apexStep_isSome_iff {c : Config} {q : Name} {t : RecordType} :
    (if apexHasType t then c.apexes.find? (·.sameName q) else none).isSome = true ↔
      apexHasType t = true ∧ c.HasApex q := by
  have hfind : (c.apexes.find? (·.sameName q)).isSome = true ↔ c.HasApex q := by
    rw [List.find?_isSome]
    simp only [Name.sameName_iff]
    exact exists_mem_apexes_iff c q.key
  by_cases ht : apexHasType t = true
  · simp [ht, hfind]
  · simp [ht]

section Decide

variable {zones : Zones} (hc : zones.config.Wf) {lookup : IpAddr → LookupOutcome} {q : Name}
  {t : RecordType} (ht : t.isQuery)

include ht in
/-- A query for records gets past the checks of class and type. -/
lemma decide_eq_decideName : decide zones lookup q t .IN = decideName zones lookup q t := by
  unfold decide
  rw [if_neg (by simp), if_neg (by simp [ht.1, ht.2])]

include hc ht

/-- **What is answered NXDOMAIN**: a name that none of the three lookups finds for the type, under
an apex or under a policy that denies everything else.

**Proof sketch.** The handler's branches are the apexes, an answer, a name that is not there, and
the policy; of these the last two alone can be NXDOMAIN. -/
lemma decide_code_eq_nxDomain_iff :
    (decide zones lookup q t .IN).code = .nxDomain ↔
      ¬(apexHasType t = true ∧ zones.config.HasApex q) ∧
      (reverseHasType t = true → ¬zones.config.HasReverse q) ∧ ¬zones.config.HasForward q ∧
      (zones.config.Covers q ∨ zones.config.params.outOfZone = .nxDomain) := by
  rw [decide_eq_decideName ht, decideName, ← apexStep_isSome_iff]
  cases (if apexHasType t then zones.config.apexes.find? (·.sameName q) else none) with
  | some apex => simp [apexReply]
  | none =>
    simp only [Option.isSome_none, Bool.false_eq_true, not_false_eq_true, true_and]
    cases hr : resolve zones.config q t with
    | answer z records =>
      have hnot : ¬((reverseHasType t = true → ¬zones.config.HasReverse q) ∧
          ¬zones.config.HasForward q) := by
        rintro ⟨hrev, hfwd⟩
        by_cases hcov : zones.config.Covers q
        · obtain ⟨z', hz'⟩ := (resolve_eq_noName_iff hc).mpr ⟨hrev, hfwd, hcov⟩
          rw [hr] at hz'
          cases hz'
        · have := (resolve_eq_noZone_iff hc).mpr ⟨hrev, hfwd, hcov⟩
          rw [hr] at this
          cases this
      simp only [answerReply, reduceCtorEq, false_iff]
      rintro ⟨hrev, hfwd, -⟩
      exact hnot ⟨hrev, hfwd⟩
    | noName z =>
      obtain ⟨hrev, hfwd, hcov⟩ := (resolve_eq_noName_iff hc).mp ⟨z, hr⟩
      simp only [noNameReply, true_iff]
      exact ⟨hrev, hfwd, .inl hcov⟩
    | noZone =>
      obtain ⟨hrev, hfwd, hcov⟩ := (resolve_eq_noZone_iff hc).mp hr
      cases hp : zones.config.params.outOfZone with
      | refused =>
        simp only [Reply.refused, Reply.error, reduceCtorEq, or_false, false_iff]
        exact fun h => hcov h.2.2
      | nxDomain =>
        simp only [Reply.error, or_true, and_true, true_iff]
        exact ⟨hrev, hfwd⟩

end Decide

/-! ## Names with records -/

/-- The names with a record of some type: the names of addresses, the names that templates spell,
and the apexes, if there is a SOA or a name server to speak of. -/
def Config.HasRecord (c : Config) (q : Name) : Prop :=
  c.HasReverse q ∨ c.HasForward q ∨ (c.HasApex q ∧ (c.soa.isSome = true ∨ c.nameservers ≠ []))

/-- Some name below has a record. -/
def Config.RecordBelow (c : Config) (q : Name) : Prop :=
  ∃ q' : Name, q.zoneOf q' = true ∧ q.labels.length < q'.labels.length ∧ c.HasRecord q'

/-- An upstream can replace records, not remove them. -/
lemma answers_answerReply_ne_nil {zones : Zones} {lookup : IpAddr → LookupOutcome} {q : Name}
    {t : RecordType} {z : Zone} {records : List Record} (h : records ≠ []) :
    (answerReply zones lookup q t z records).answers ≠ [] := by
  unfold answerReply
  simp only
  generalize (if (!records.isEmpty && Decidable.decide (t = .PTR)) = true then _ else _) = relayed
  cases relayed with
  | nil => simpa using h
  | cons r rs => simp

section Records

variable {zones : Zones} (hc : zones.config.Wf) (lookup : IpAddr → LookupOutcome) {q : Name}

include hc

/-- The name of an address of a network has a PTR record. -/
lemma answers_reverse (h : zones.config.HasReverse q) :
    (decide zones lookup q .PTR .IN).answers ≠ [] := by
  obtain ⟨⟨z, a⟩, hm⟩ := Option.isSome_iff_exists.mp (matchPtr_isSome_iff.mpr h)
  obtain ⟨hmem, hin⟩ := of_zoneForAddr (matchPtr_eq_some_iff.mp hm).2
  obtain ⟨n, hn, -⟩ := (hc.zones z hmem).exists_spells hin
  rw [decide_eq_decideName (by decide), decideName]
  rw [if_neg (by decide), resolve_of_matchPtr (by decide) hm]
  exact answers_answerReply_ne_nil (by simp [ptrRecord, hn])

/-- A name that a template spells has an AAAA record. -/
lemma answers_forward (h : zones.config.HasForward q) :
    (decide zones lookup q .AAAA .IN).answers ≠ [] := by
  obtain ⟨⟨z, a⟩, hm⟩ := Option.isSome_iff_exists.mp ((matchForward_isSome_iff hc).mpr h)
  rw [decide_eq_decideName (by decide), decideName]
  rw [if_neg (by decide), resolve_of_matchForward (by simp [reverseHasType]) hm]
  exact answers_answerReply_ne_nil (by simp [forwardHasType])

omit hc in
/-- An apex has what the file sets, asked for everything. -/
lemma answers_apex (h : zones.config.HasApex q)
    (hset : zones.config.soa.isSome = true ∨ zones.config.nameservers ≠ []) :
    (decide zones lookup q .ANY .IN).answers ≠ [] := by
  obtain ⟨apex, hapex⟩ := Option.isSome_iff_exists.mp
    (apexStep_isSome_iff.mpr ⟨(by decide : apexHasType .ANY = true), h⟩)
  rw [decide_eq_decideName (by decide), decideName, hapex]
  rcases hset with hsoa | hns
  · obtain ⟨soa, hsoa⟩ := Option.isSome_iff_exists.mp hsoa
    simp [apexReply, hsoa]
  · simp [apexReply, nsRecords, hns]

/-- What is answered with a record has one. -/
lemma hasRecord_of_answers {t : RecordType} (ht : t.isQuery)
    (hans : (decide zones lookup q t .IN).answers ≠ []) : zones.config.HasRecord q := by
  rw [decide_eq_decideName ht, decideName] at hans
  have hstep := apexStep_isSome_iff (c := zones.config) (q := q) (t := t)
  cases hfind : (if apexHasType t then zones.config.apexes.find? (·.sameName q) else none) with
  | some apex =>
    rw [hfind] at hstep hans
    refine .inr (.inr ⟨(hstep.mp rfl).2, ?_⟩)
    by_contra hunset
    obtain ⟨hsoa, hns⟩ := not_or.mp hunset
    rw [Option.not_isSome_iff_eq_none] at hsoa
    rw [ne_eq, not_not] at hns
    simp [apexReply, nsRecords, hsoa, hns] at hans
  | none =>
    rw [hfind] at hans
    simp only at hans
    cases hr : resolve zones.config q t with
    | answer z records =>
      rcases resolve_eq_answer hr with ⟨a, -, hm, -⟩ | ⟨a, hm, -⟩
      · exact .inl (matchPtr_isSome_iff.mp (by rw [hm]; rfl))
      · exact .inr (.inl ((matchForward_isSome_iff hc).mp (by rw [hm]; rfl)))
    | noName z =>
      rw [hr] at hans
      simp [noNameReply] at hans
    | noZone =>
      rw [hr] at hans
      cases hp : zones.config.params.outOfZone <;> simp [hp, Reply.refused, Reply.error] at hans

/-- **What has a record** of some type, whatever the upstreams say. -/
lemma Config.hasRecord_iff : zones.config.HasRecord q ↔
    ∃ t, t.isQuery ∧ (decide zones lookup q t .IN).answers ≠ [] := by
  constructor
  · rintro (hrev | hfwd | ⟨hapex, hset⟩)
    · exact ⟨.PTR, by decide, answers_reverse hc lookup hrev⟩
    · exact ⟨.AAAA, by decide, answers_forward hc lookup hfwd⟩
    · exact ⟨.ANY, by decide, answers_apex lookup hapex hset⟩
  · rintro ⟨t, ht, hans⟩
    exact hasRecord_of_answers hc lookup ht hans

end Records

/-- **Existence across types**: a name with a record of some type is denied for another type,
except when a template spells it, or it is the name of an address and the type is a reverse type,
or it is an apex and the type is one of the apex's. -/
theorem decide_existence_iff {hk : Hickory} {input : Bytes} {zones : Zones}
    (h : Config.parse hk input = .ok zones.config) {lookup₁ lookup₂ : IpAddr → LookupOutcome}
    {q : Name} {t₁ t₂ : RecordType} (ht₁ : t₁.isQuery) (ht₂ : t₂.isQuery)
    (hans : (decide zones lookup₁ q t₁ .IN).answers ≠ []) :
    (decide zones lookup₂ q t₂ .IN).code ≠ .nxDomain ↔
      zones.config.HasForward q ∨ (reverseHasType t₂ = true ∧ zones.config.HasReverse q) ∨
        (apexHasType t₂ = true ∧ zones.config.HasApex q) := by
  have hc := parse_wf h
  rw [ne_eq, decide_code_eq_nxDomain_iff hc ht₂]
  have hknown : zones.config.HasForward q ∨ zones.config.Covers q := by
    rcases hasRecord_of_answers hc lookup₁ ht₁ hans with hrev | hfwd | ⟨hapex, -⟩
    · exact .inr (hrev.covers hc)
    · exact .inl hfwd
    · exact .inr hapex.covers
  constructor
  · intro hno
    by_contra hnone
    push Not at hnone
    obtain ⟨hfwd, hrev, hapex⟩ := hnone
    refine hno ⟨fun hboth => hapex hboth.1 hboth.2, hrev, hfwd, .inl ?_⟩
    exact hknown.resolve_left hfwd
  · rintro (hfwd | ⟨hty, hrev⟩ | hapex) ⟨hna, hnr, hnf, -⟩
    · exact hnf hfwd
    · exact hnr hty hrev
    · exact hna hapex

/-- The zones of the sample, with a client for its upstream. -/
def sampleZones : Zones := ⟨parsed sampleInput, (parsed sampleInput).zones.filterMap Zone.upstream⟩

/-- They are what is built at startup, if a client can be built. -/
lemma new_sampleZones : Zones.new (fun _ _ => .ok ()) sampleZones.config = .ok sampleZones := by
  decide +kernel

/-- Their configuration is accepted. -/
lemma parse_sampleZones :
    Config.parse namelessHickory sampleInput = .ok sampleZones.config := by
  rw [parse_sampleInput, sampleZones]

/-- The reverse name of an address of the sample's inner network. -/
def sampleReverse : Name := (netmaskToPtrName 0x20010db80000004200000000deadbeef 128).getD Name.root

/-- A name of the sample's template exists for type A too: the template spells it. -/
theorem decide_existence_sampleName :
    sampleZones.config.HasForward sampleName ∨
      (reverseHasType .A = true ∧ sampleZones.config.HasReverse sampleName) ∨
        (apexHasType .A = true ∧ sampleZones.config.HasApex sampleName) := by
  have hans : (decide sampleZones (fun _ => .failed) sampleName .AAAA .IN).answers ≠ [] := by
    decide +kernel
  have hparse := parse_sampleZones
  have hcode : (decide sampleZones (fun _ => .failed) sampleName .A .IN).code ≠ .nxDomain := by
    decide +kernel
  exact (decide_existence_iff hparse (by decide) (by decide) hans).mp hcode

/-- The name of an address has a PTR record, and does not exist for type A. -/
theorem decide_existence_sampleReverse :
    Config.parse namelessHickory sampleInput = .ok sampleZones.config ∧
      Zones.new (fun _ _ => .ok ()) sampleZones.config = .ok sampleZones ∧
      (decide sampleZones (fun _ => .failed) sampleReverse .PTR .IN).answers ≠ [] ∧
      (decide sampleZones (fun _ => .failed) sampleReverse .A .IN).code = .nxDomain := by
  refine ⟨parse_sampleZones, new_sampleZones, ?_⟩
  decide +kernel

/-! ## Names above names -/

/-- Above a full reverse name, under an apex, there is a name under an apex that no template
spells.

**Proof sketch.** Induction on the number of labels. If a template spells the name, then the
template's apex is a shorter one, and a name above the reverse name too. -/
lemma exists_covered_unspelled {c : Config} (hc : c.Wf) {a : U128} (q : Name)
    (hsuf : q.key <:+ reverseLabels a 32) (hcov : c.Covers q) :
    ∃ q₀ : Name, q₀.key <:+ q.key ∧ c.Covers q₀ ∧ ¬c.HasForward q₀ := by
  induction hn : q.key.length using Nat.strong_induction_on generalizing q with
  | _ n ih =>
    by_cases hfwd : c.HasForward q
    · obtain ⟨z, hz, b, hspells⟩ := hfwd
      rw [Name.counted_of_not_star (head_ne_star_of_suffix hsuf)] at hspells
      have hshort := (hc.zones z hz).length_lt_of_spells hspells
      have hparent := (hc.zones z hz).suffix_of_spells hspells
      have hapex : c.HasApex z.fwdParent := ⟨z, hz, .inr rfl⟩
      obtain ⟨q₀, h₀, hcov₀, hno₀⟩ :=
        ih _ (hn ▸ hshort) z.fwdParent (hparent.trans hsuf) hapex.covers rfl
      exact ⟨q₀, h₀.trans hparent, hcov₀, hno₀⟩
    · exact ⟨q, List.suffix_refl _, hcov, hfwd⟩

/-- **In every configuration with a network, a name above a record is denied.**

**Proof sketch.** The network's own address has a PTR record, and the apex of the network is above
its name. At or above the apex there is a name under an apex that no template spells, and for type
A neither the apexes nor the reverse zones are looked at. -/
lemma exists_denied_ancestor {zones : Zones} (hc : zones.config.Wf) (hne : zones.config.zones ≠ [])
    (lookup lookup' : IpAddr → LookupOutcome) :
    ∃ q q', q.zoneOf q' = true ∧ q.labels.length < q'.labels.length ∧
      (decide zones lookup' q' .PTR .IN).answers ≠ [] ∧
      (decide zones lookup q .A .IN).code = .nxDomain := by
  obtain ⟨z, hz⟩ := List.exists_mem_of_ne_nil _ hne
  have hwf := hc.zones z hz
  obtain ⟨r, -, hr⟩ := netmaskToPtrName_full z.pfx
  have hin : z.contains z.pfx = true := (z.contains_iff _).mpr hwf.masked
  have hrev : zones.config.HasReverse r := ⟨z, hz, z.pfx, hin, hr⟩
  have hk32 : z.mask / 4 < 32 := by
    have := hwf.mask_le
    omega
  have hsuf : z.ptrZone.key <:+ reverseLabels z.pfx 32 := by
    rw [hwf.key_ptrZone]
    exact ⟨_, (reverseLabels_eq_append z.pfx hk32.le le_rfl).symm⟩
  have hapex : zones.config.HasApex z.ptrZone := ⟨z, hz, .inl rfl⟩
  obtain ⟨q, hq, hcov, hno⟩ := exists_covered_unspelled hc z.ptrZone hsuf hapex.covers
  have habove : q.zoneOf r = true := by
    rw [Name.zoneOf_iff, hr]
    exact hq.trans hsuf
  have hshort : q.labels.length < r.labels.length := by
    have h₁ := hq.length_le
    rw [hwf.key_ptrZone, length_reverseLabels, Name.length_key] at h₁
    have h₂ := congrArg List.length hr
    rw [length_reverseLabels, Name.length_key] at h₂
    omega
  refine ⟨q, r, habove, hshort, answers_reverse hc _ hrev, ?_⟩
  rw [decide_code_eq_nxDomain_iff hc (by decide)]
  exact ⟨by simp [apexHasType], by simp [reverseHasType], hno, .inl hcov⟩

/-- **Names above names**: a query is never denied above an answer exactly when nothing below the
name has a record, or a template spells the name, or it is found for the type in the reverse zones
or at the apexes, or it is under no apex and what is out of zone is refused. For all queries at
once that is never so, unless there is no network. -/
theorem decide_ancestor_iff {hk : Hickory} {input : Bytes} {zones : Zones}
    (h : Config.parse hk input = .ok zones.config) :
    (∀ lookup q t, t.isQuery →
      ((∀ lookup' q' t', t'.isQuery → q.zoneOf q' = true → q.labels.length < q'.labels.length →
        (decide zones lookup' q' t' .IN).answers ≠ [] →
          (decide zones lookup q t .IN).code ≠ .nxDomain) ↔
        ¬zones.config.RecordBelow q ∨ zones.config.HasForward q ∨
          (reverseHasType t = true ∧ zones.config.HasReverse q) ∨
          (apexHasType t = true ∧ zones.config.HasApex q) ∨
          (¬zones.config.Covers q ∧ zones.config.params.outOfZone = .refused))) ∧
    ((∀ lookup lookup' q q' t t', t.isQuery → t'.isQuery → q.zoneOf q' = true →
      q.labels.length < q'.labels.length → (decide zones lookup' q' t' .IN).answers ≠ [] →
        (decide zones lookup q t .IN).code ≠ .nxDomain) ↔ zones.config.zones = []) := by
  have hc := parse_wf h
  refine ⟨?_, ?_, ?_⟩
  · intro lookup q t ht
    have hpolicy : zones.config.params.outOfZone = .refused ↔
        zones.config.params.outOfZone ≠ .nxDomain := by
      cases zones.config.params.outOfZone <;> decide
    rw [ne_eq, decide_code_eq_nxDomain_iff hc ht, hpolicy]
    constructor
    · intro hall
      by_contra hnone
      obtain ⟨hbelow, hdenied⟩ := not_or.mp hnone
      obtain ⟨q', habove, hshort, hrecord⟩ := not_not.mp hbelow
      obtain ⟨t', ht', hans⟩ := (Config.hasRecord_iff hc lookup).mp hrecord
      refine hall lookup q' t' ht' habove hshort hans ?_
      tauto
    · rintro (hbelow | hfound) lookup' q' t' ht' habove hshort hans
      · exact absurd ⟨q', habove, hshort, hasRecord_of_answers hc lookup' ht' hans⟩ hbelow
      · tauto
  · intro hall
    by_contra hne
    obtain ⟨q, q', habove, hshort, hans, hcode⟩ :=
      exists_denied_ancestor hc hne (fun _ => .failed) (fun _ => .failed)
    exact hall _ _ q q' .A .PTR (by decide) (by decide) habove hshort hans hcode
  · intro hempty lookup lookup' q q' t t' _ ht' _ _ hans
    rcases hasRecord_of_answers hc lookup' ht' hans with
      ⟨z, hz, -⟩ | ⟨z, hz, -⟩ | ⟨⟨z, hz, -⟩, -⟩
    all_goals simp [hempty] at hz

/-- The parent of `sampleName`, the apex of its zone. -/
def sampleParent : Name :=
  ⟨sampleName.labels.drop 1, validLabels_of_suffix (List.drop_suffix _ _) sampleName.valid⟩

/-- An apex exists for its own types; but not all names above records do. -/
theorem decide_ancestor_sampleParent :
    (decide sampleZones (fun _ => .failed) sampleParent .SOA .IN).code ≠ .nxDomain ∧
      ¬∀ lookup lookup' q q' t t', t.isQuery → t'.isQuery → q.zoneOf q' = true →
        q.labels.length < q'.labels.length → (decide sampleZones lookup' q' t' .IN).answers ≠ [] →
          (decide sampleZones lookup q t .IN).code ≠ .nxDomain := by
  have hparse := parse_sampleZones
  obtain ⟨hquery, hall⟩ := decide_ancestor_iff hparse
  have hans : (decide sampleZones (fun _ => .failed) sampleName .AAAA .IN).answers ≠ [] := by
    decide +kernel
  have hapex : sampleZones.config.HasApex sampleParent := by
    unfold Config.HasApex
    decide +kernel
  refine ⟨?_, fun h => ?_⟩
  · refine (hquery _ sampleParent .SOA (by decide)).mpr ?_ _ sampleName .AAAA (by decide)
      (by decide +kernel) (by decide) hans
    exact .inr (.inr (.inr (.inl ⟨by decide, hapex⟩)))
  · exact absurd (hall.mp h) (by decide +kernel)

/-- The name above `sampleReverse`. -/
def sampleReverseParent : Name :=
  ⟨sampleReverse.labels.drop 1, validLabels_of_suffix (List.drop_suffix _ _) sampleReverse.valid⟩

/-- The name of an address has a PTR record, and the name above it does not exist. -/
theorem decide_ancestor_sampleReverse :
    Config.parse namelessHickory sampleInput = .ok sampleZones.config ∧
      Zones.new (fun _ _ => .ok ()) sampleZones.config = .ok sampleZones ∧
      sampleReverseParent.zoneOf sampleReverse = true ∧
      sampleReverseParent.labels.length < sampleReverse.labels.length ∧
      (decide sampleZones (fun _ => .failed) sampleReverse .PTR .IN).answers ≠ [] ∧
      (decide sampleZones (fun _ => .failed) sampleReverseParent .PTR .IN).code = .nxDomain := by
  refine ⟨parse_sampleZones, new_sampleZones, ?_⟩
  decide +kernel

end PanoptiDns
