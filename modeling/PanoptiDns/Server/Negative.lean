import PanoptiDns.Server.Relay

set_option relaxedAutoImplicit false
set_option autoImplicit false

/-!
# The authority section of a negative answer

A negative answer can be cached if it carries the SOA of the zone that denies the name. The handler
builds that section in three places: not at all at an apex, from a scan of the zones for NODATA,
and from the zone that contains the name for NXDOMAIN. The last two come to the same, the first
apex listed that is at or above the name.

## Main definitions

* `Config.Deniable` — the queries whose denial has an apex to speak for it.
* `Config.Closest` — the longest apex at or above a name.

## Main results

* `decide_replies` — what is in the answer and authority sections.
* `negative_soa_iff` — when a negative answer carries one SOA.
* `negative_soa_closest_iff` — when that SOA is the closest apex's.
-/

namespace PanoptiDns

open Bytes

/-! ## The first apex -/

/-- **The first apex at or above a name**, as the zones are scanned. -/
lemma find?_apexes (c : Config) (q : Name) : c.apexes.find? (·.zoneOf q) =
    c.zones.findSome? fun z => [z.ptrZone, z.fwdParent].find? (·.zoneOf q) := by
  have hkey : ∀ n m : Name, n.key = m.key → n.zoneOf q = m.zoneOf q := by
    intro n m h
    unfold Name.zoneOf
    rw [h]
  rw [Config.apexes, find?_foldl_pushDistinct hkey, List.nil_append, List.find?_flatMap]

/-- There is one iff the name is covered. -/
lemma find?_apexes_isSome_iff (c : Config) (q : Name) :
    (c.apexes.find? (·.zoneOf q)).isSome = true ↔ c.Covers q := by
  rw [find?_apexes, List.findSome?_isSome_iff]
  unfold Config.Covers
  simp [List.find?_isSome]

/-- The zone that contains a name has the first apex at or above it. -/
lemma find?_apexes_of_zoneContaining {c : Config} {q : Name} {z : Zone}
    (h : zoneContaining c q = some z) : c.apexes.find? (·.zoneOf q) =
      some (if z.ptrZone.zoneOf q then z.ptrZone else z.fwdParent) := by
  obtain ⟨hz, pre, post, hsplit, hpre⟩ := List.find?_eq_some_iff_append.mp h
  rw [find?_apexes, List.findSome?_eq_some_iff]
  refine ⟨pre, z, post, hsplit, ?_, ?_⟩
  · rw [Bool.or_eq_true] at hz
    by_cases hptr : z.ptrZone.zoneOf q = true
    · simp [hptr]
    · simp [hptr, hz.resolve_left hptr]
  · intro w hw
    have := hpre w hw
    simp only [Bool.not_eq_true', Bool.or_eq_false_iff] at this
    simp [this.1, this.2]

section Soa

variable {c : Config} {soa : SoaParams} (hsoa : c.soa = some soa)

include hsoa

/-- **NODATA** carries the SOA of the first apex at or above the name, if there is one. -/
lemma negativeAuthority_eq (q : Name) :
    (c.apexes.find? (·.zoneOf q) = none ∧ negativeAuthority c q .negative = []) ∨
    ∃ apex ttl, c.apexes.find? (·.zoneOf q) = some apex ∧
      negativeAuthority c q .negative = [soaRecord apex soa ttl] := by
  rw [find?_apexes]
  unfold negativeAuthority
  rw [if_neg (by simp), hsoa]
  simp only
  generalize c.zones = zones
  induction zones with
  | nil => exact .inl ⟨rfl, rfl⟩
  | cons z zones ih =>
    rw [List.findSome?_cons, List.findSome?_cons]
    cases [z.ptrZone, z.fwdParent].find? (·.zoneOf q) with
    | none => exact ih
    | some apex => exact .inr ⟨apex, z.ttl, rfl, rfl⟩

/-- **NXDOMAIN** does too. -/
lemma authority_noNameReply {q : Name} {z : Zone} (h : zoneContaining c q = some z) :
    ∃ apex, c.apexes.find? (·.zoneOf q) = some apex ∧
      (noNameReply c q z).authority = [soaRecord apex soa z.ttl] := by
  refine ⟨_, find?_apexes_of_zoneContaining h, ?_⟩
  simp only [noNameReply, hsoa]
  rfl

end Soa

/-! ## The sections of a reply -/

/-- The queries whose denial has an apex to speak for it: not for the name servers of an apex when
none are configured, and not for a name that a template spells away from every apex. -/
def Config.Deniable (c : Config) (q : Name) (t : RecordType) : Prop :=
  (t = .NS → c.HasApex q → c.nameservers ≠ []) ∧
    (c.HasForward q → forwardHasType t = true ∨ c.Covers q)

/-- The answers at an apex, for a configuration with a SOA. -/
lemma answers_apexReply_eq_nil_iff {c : Config} (hsoa : c.soa.isSome = true) (apex : Name)
    {t : RecordType} (ht : apexHasType t = true) :
    (apexReply c apex t).answers = [] ↔ t = .NS ∧ c.nameservers = [] := by
  obtain ⟨soa, hsoa⟩ := Option.isSome_iff_exists.mp hsoa
  simp only [apexHasType, Bool.or_eq_true, decide_eq_true_eq] at ht
  rcases ht with (rfl | rfl) | rfl <;> simp [apexReply, hsoa, nsRecords]

/-- Without records to override, an upstream is not asked. -/
lemma answerReply_nil (zones : Zones) (lookup : IpAddr → LookupOutcome) (q : Name) (t : RecordType)
    (z : Zone) : answerReply zones lookup q t z [] =
      ⟨.noError, true, [], negativeAuthority zones.config q .negative, .negative⟩ := rfl

/-- An answer has no authority section. -/
lemma authority_answerReply {zones : Zones} {lookup : IpAddr → LookupOutcome} {q : Name}
    {t : RecordType} {z : Zone} {records : List Record} (h : records ≠ []) :
    (answerReply zones lookup q t z records).authority = [] := by
  have hans : (answerReply zones lookup q t z records).answers ≠ [] := answers_answerReply_ne_nil h
  exact congrArg Reply.authority (recordsReply_of_ne_nil zones.config q hans)

/-- A name that is not there is in the zone that contains it. -/
lemma zoneContaining_of_noName {c : Config} {q : Name} {t : RecordType} {z : Zone}
    (h : resolve c q t = .noName z) : zoneContaining c q = some z := by
  unfold resolve at h
  split at h
  · cases h
  · unfold resolveForward at h
    split at h
    · cases h
    · split at h
      · rename_i w hw
        rw [hw, Outcome.noName.inj h]
      · cases h

/-- A class or a type the handler does not serve is refused. -/
lemma decide_eq_refused {t : RecordType} {cl : DNSClass}
    (h : ¬((cl = .IN ∨ cl = .ANY) ∧ t.isQuery)) (zones : Zones) (lookup : IpAddr → LookupOutcome)
    (q : Name) : decide zones lookup q t cl = .refused := by
  unfold decide
  split
  · rfl
  · rename_i hcl
    rw [if_pos]
    unfold RecordType.isQuery at h
    tauto

section Decide

variable {zones : Zones} (hc : zones.config.Wf) {soa : SoaParams}
  (hsoa : zones.config.soa = some soa) (lookup : IpAddr → LookupOutcome) (q : Name)
  {t : RecordType} {cl : DNSClass}

include hc hsoa

/-- The answer and authority sections of a reply: records, which some type has; a refusal, away from
every apex; the SOA of the first apex at or above the name; or nothing, exactly when the query is
not `Deniable`. -/
inductive Replies (c : Config) (soa : SoaParams) (q : Name) (t : RecordType) (reply : Reply) : Prop
  | records (hden : c.Deniable q t) (hans : reply.answers ≠ []) (hauth : reply.authority = [])
      (hty : apexHasType t = true ∨ reverseHasType t = true ∨ forwardHasType t = true)
  | outside (hden : c.Deniable q t) (hcov : ¬c.Covers q) (haa : reply.authoritative = false)
      (hauth : reply.authority = [])
  | denial (hden : c.Deniable q t) (hans : reply.answers = []) (apex : Name) (ttl : ℕ)
      (hfind : c.apexes.find? (·.zoneOf q) = some apex)
      (hauth : reply.authority = [soaRecord apex soa ttl])
  | nothing (hden : ¬c.Deniable q t) (haa : reply.authoritative = true) (hans : reply.answers = [])
      (hauth : reply.authority = [])

omit hc in
/-- At an apex, only the name servers can be missing. -/
lemma replies_apexReply {apex : Name} (hty : apexHasType t = true)
    (hapex : zones.config.HasApex q) :
    Replies zones.config soa q t (apexReply zones.config apex t) := by
  have hsome : zones.config.soa.isSome = true := by rw [hsoa]; rfl
  have hnil := answers_apexReply_eq_nil_iff hsome apex hty
  by_cases hns : t = .NS ∧ zones.config.nameservers = []
  · exact .nothing (fun hden => hden.1 hns.1 hapex hns.2) rfl (hnil.mpr hns) rfl
  · refine .records ⟨fun h₁ _ h₂ => hns ⟨h₁, h₂⟩, fun _ => .inr hapex.covers⟩ ?_ rfl (.inl hty)
    rw [ne_eq, hnil]
    exact hns

/-- A name that a template spells has a record of its type, or NODATA with what the scan finds. -/
lemma replies_forward {z : Zone} {a : U128} (hm : matchForward zones.config q = some (z, a))
    (hden : (zones.config.HasForward q → forwardHasType t = true ∨ zones.config.Covers q) →
      zones.config.Deniable q t) :
    Replies zones.config soa q t (answerReply zones lookup q t z
      (if forwardHasType t then [aaaaRecord z q a] else [])) := by
  by_cases hty : forwardHasType t = true
  · rw [if_pos hty]
    exact .records (hden fun _ => .inl hty) (answers_answerReply_ne_nil (by simp))
      (authority_answerReply (by simp)) (.inr (.inr hty))
  · rw [if_neg hty, answerReply_nil]
    have hfwd : zones.config.HasForward q := (matchForward_isSome_iff hc).mp (by rw [hm]; rfl)
    rcases negativeAuthority_eq hsoa q with ⟨hnone, hauth⟩ | ⟨apex, ttl, hsome, hauth⟩
    · refine .nothing (fun h => ?_) rfl rfl hauth
      have hcov := (h.2 hfwd).resolve_left hty
      rw [← find?_apexes_isSome_iff, hnone] at hcov
      simp at hcov
    · refine .denial (hden fun _ => .inr ?_) rfl apex ttl hsome hauth
      rw [← find?_apexes_isSome_iff, hsome]
      rfl

/-- **The answer and authority sections** of the handler's reply.

**Proof sketch.** The branches of the handler, in its order. An apex is at or above itself and a
reverse name is below its zone, so that in these branches only the name servers can be missing. -/
lemma decide_replies (hcl : cl = .IN ∨ cl = .ANY) (ht : t.isQuery) :
    Replies zones.config soa q t (decide zones lookup q t cl) := by
  have hname : decide zones lookup q t cl = decideName zones lookup q t := by
    unfold decide
    rw [if_neg (by rcases hcl with rfl | rfl <;> simp), if_neg (by simp [ht.1, ht.2])]
  rw [hname, decideName]
  have hstep := apexStep_isSome_iff (c := zones.config) (q := q) (t := t)
  cases hfind : (if apexHasType t then zones.config.apexes.find? (·.sameName q) else none) with
  | some apex =>
    rw [hfind] at hstep
    obtain ⟨hty, hapex⟩ := hstep.mp rfl
    exact replies_apexReply hsoa q hty hapex
  | none =>
    rw [hfind] at hstep
    have hnoapex : t = .NS → ¬zones.config.HasApex q := by
      rintro rfl hapex
      exact absurd (hstep.mpr ⟨by decide, hapex⟩) (by simp)
    have hden : (zones.config.HasForward q → forwardHasType t = true ∨ zones.config.Covers q) →
        zones.config.Deniable q t := fun h => ⟨fun h₁ h₂ => absurd h₂ (hnoapex h₁), h⟩
    simp only
    cases hr : resolve zones.config q t with
    | answer z records =>
      rcases resolve_eq_answer hr with ⟨a, hty, hm, rfl⟩ | ⟨a, hm, rfl⟩
      · -- the name of an address has a record, and is below its zone
        obtain ⟨hq, hz⟩ := matchPtr_eq_some_iff.mp hm
        obtain ⟨hmem, hin⟩ := of_zoneForAddr hz
        obtain ⟨n, hn, -⟩ := (hc.zones z hmem).exists_spells hin
        have hne : (ptrRecord z q a).toList ≠ [] := by simp [ptrRecord, hn]
        have hcov : zones.config.Covers q :=
          Config.HasReverse.covers hc ⟨z, hmem, a, hin, hq⟩
        exact .records (hden fun _ => .inr hcov) (answers_answerReply_ne_nil hne)
          (authority_answerReply hne) (.inr (.inl hty))
      · exact replies_forward hc hsoa lookup q hm hden
    | noName z =>
      have hnofwd := ((resolve_eq_noName_iff hc).mp ⟨z, hr⟩).2.1
      obtain ⟨apex, hfind, hauth⟩ := authority_noNameReply hsoa (zoneContaining_of_noName hr)
      exact .denial (hden fun h => absurd h hnofwd) rfl apex z.ttl hfind hauth
    | noZone =>
      obtain ⟨-, hnofwd, hnocov⟩ := (resolve_eq_noZone_iff hc).mp hr
      have hdeny := hden fun h => absurd h hnofwd
      cases zones.config.params.outOfZone with
      | refused => exact .outside hdeny hnocov rfl rfl
      | nxDomain => exact .outside hdeny hnocov rfl rfl

end Decide

/-- **When a negative answer can be cached**: an authoritative reply without answers has exactly
one record in its authority section, a SOA at or above the name, except when the query is for the
name servers of an apex and there are none, or a template spells the name away from every apex and
has no record of the type. -/
theorem negative_soa_iff {hk : Hickory} {input : Bytes} {zones : Zones}
    (h : Config.parse hk input = .ok zones.config) (hsoa : zones.config.soa.isSome = true)
    (lookup : IpAddr → LookupOutcome) (q : Name) (t : RecordType) {cl : DNSClass}
    (hcl : cl = .IN ∨ cl = .ANY) :
    ((decide zones lookup q t cl).authoritative = true →
      (decide zones lookup q t cl).answers = [] →
        ∃ record, (decide zones lookup q t cl).authority = [record] ∧
          record.data.recordType = .SOA ∧ record.name.zoneOf q = true) ↔
    (t.isQuery → (t = .NS → zones.config.HasApex q → zones.config.nameservers ≠ []) ∧
      (zones.config.HasForward q → forwardHasType t = true ∨ zones.config.Covers q)) := by
  obtain ⟨soa, hsoa⟩ := Option.isSome_iff_exists.mp hsoa
  by_cases ht : t.isQuery
  · simp only [ht, true_imp_iff]
    change _ ↔ zones.config.Deniable q t
    cases decide_replies (parse_wf h) hsoa lookup q hcl ht with
    | records hden hans hauth hty => exact iff_of_true (fun _ hnil => absurd hnil hans) hden
    | outside hden hcov haa hauth => exact iff_of_true (fun htrue => by simp [haa] at htrue) hden
    | denial hden hans apex ttl hfind hauth =>
      refine iff_of_true (fun _ _ => ⟨_, hauth, rfl, ?_⟩) hden
      exact List.find?_some (p := fun apex : Name => apex.zoneOf q) hfind
    | nothing hden haa hans hauth =>
      refine iff_of_false (fun hall => ?_) hden
      obtain ⟨record, hrecord, -⟩ := hall haa hans
      simp [hauth] at hrecord
  · refine iff_of_true (fun htrue => ?_) fun hquery => absurd hquery ht
    rw [decide_eq_refused (fun hserved => ht hserved.2)] at htrue
    simp [Reply.refused, Reply.error] at htrue

/-- A zone with a SOA and no name servers. -/
def serverlessInput : Bytes := ofString "primary ns1.example.net
hostmaster hostmaster.example.net
network 2001:db8::/64
    resolves to %DIGITS%.example.net
"

/-- The zones of `serverlessInput`. -/
def serverlessZones : Zones := ⟨plainlyParsed serverlessInput, []⟩

/-- It is accepted. -/
lemma parse_serverlessInput :
    Config.parse plainHickory serverlessInput = .ok serverlessZones.config := by
  decide +kernel

/-- The forward apex of `serverlessInput`. -/
def exampleNet : Name := ⟨[ofString "example", ofString "net"], by decide⟩

/-- A name below it. -/
def wwwExampleNet : Name := ⟨[ofString "www", ofString "example", ofString "net"], by decide⟩

/-- The denial of a name below the apex carries its SOA. -/
theorem negative_soa_serverlessInput :
    Config.parse plainHickory serverlessInput = .ok serverlessZones.config ∧
    ∃ record,
      (decide serverlessZones (fun _ => .failed) wwwExampleNet .A .IN).authority = [record] ∧
      record.data.recordType = .SOA ∧ record.name.zoneOf wwwExampleNet = true := by
  have hparse := parse_serverlessInput
  have hiff := negative_soa_iff hparse (by decide +kernel) (fun _ => .failed) wwwExampleNet .A
    (.inl rfl)
  refine ⟨hparse, hiff.mpr (fun _ => ⟨?_, fun _ => .inr ?_⟩) (by decide +kernel)
    (by decide +kernel)⟩
  · intro h
    cases h
  · unfold Config.Covers
    decide +kernel

/-- The denial of name servers at the apex does not. -/
theorem negative_ns_serverlessInput :
    Config.parse plainHickory serverlessInput = .ok serverlessZones.config ∧
      serverlessZones.config.soa.isSome = true ∧
      (decide serverlessZones (fun _ => .failed) exampleNet .NS .IN).authoritative = true ∧
      (decide serverlessZones (fun _ => .failed) exampleNet .NS .IN).answers = [] ∧
      (decide serverlessZones (fun _ => .failed) exampleNet .NS .IN).authority = [] := by
  decide +kernel

/-! ## Whose SOA it is -/

/-- The longest apex at or above a name. -/
def Config.Closest (c : Config) (q apex : Name) : Prop :=
  apex ∈ c.apexes ∧ apex.zoneOf q = true ∧
    ∀ other ∈ c.apexes, other.zoneOf q = true → other.labels.length ≤ apex.labels.length

/-- Two names above a third are one above the other. -/
lemma zoneOf_or_zoneOf {n m q : Name} (hn : n.zoneOf q = true) (hm : m.zoneOf q = true) :
    n.zoneOf m = true ∨ m.zoneOf n = true := by
  simp only [Name.zoneOf_iff] at *
  exact List.suffix_or_suffix_of_suffix hn hm

/-- A name has at least the labels of the names above it. -/
lemma length_le_of_zoneOf {n m : Name} (h : n.zoneOf m = true) :
    n.labels.length ≤ m.labels.length := by
  rw [Name.zoneOf_iff] at h
  simpa using h.length_le

/-- No two apexes are the same name. -/
lemma pairwise_apexes (c : Config) : c.apexes.Pairwise fun n m => n.key ≠ m.key := by
  have hfold : ∀ names out : List Name, (out.Pairwise fun n m => n.key ≠ m.key) →
      (names.foldl pushDistinct out).Pairwise fun n m => n.key ≠ m.key := by
    intro names
    induction names with
    | nil => exact fun out hout => hout
    | cons m names ih =>
      intro out hout
      apply ih
      unfold pushDistinct
      split
      · exact hout
      · rename_i hnew
        rw [List.pairwise_append]
        refine ⟨hout, List.pairwise_singleton _ _, fun n hn m' hm' => ?_⟩
        rw [List.mem_singleton.mp hm']
        intro hkey
        exact hnew (List.any_eq_true.mpr ⟨n, hn, (Name.sameName_iff n m).mpr hkey⟩)
  exact hfold _ [] List.Pairwise.nil

/-- Every SOA in an authority section is the first apex's that is at or above the name. -/
lemma find?_apexes_of_mem_authority {zones : Zones} (hc : zones.config.Wf)
    (hsoa : zones.config.soa.isSome = true) {lookup : IpAddr → LookupOutcome} {q : Name}
    {t : RecordType} {cl : DNSClass} {record : Record}
    (h : record ∈ (decide zones lookup q t cl).authority) :
    zones.config.apexes.find? (·.zoneOf q) = some record.name := by
  obtain ⟨soa, hsoa⟩ := Option.isSome_iff_exists.mp hsoa
  by_cases hserved : (cl = .IN ∨ cl = .ANY) ∧ t.isQuery
  · cases decide_replies hc hsoa lookup q hserved.1 hserved.2 with
    | records hden hans hauth hty => simp [hauth] at h
    | outside hden hcov haa hauth => simp [hauth] at h
    | denial hden hans apex ttl hfind hauth =>
      rw [hauth, List.mem_singleton] at h
      rw [hfind, h]
      rfl
    | nothing hden haa hans hauth => simp [hauth] at h
  · rw [decide_eq_refused hserved] at h
    simp [Reply.refused, Reply.error] at h

/-- A name under an apex gets a SOA for type A, whatever else it is. -/
lemma exists_authority {zones : Zones} (hc : zones.config.Wf)
    (hsoa : zones.config.soa.isSome = true) (lookup : IpAddr → LookupOutcome) {q : Name}
    (hcov : zones.config.Covers q) :
    ∃ record ∈ (decide zones lookup q .A .IN).authority, record.data.recordType = .SOA := by
  obtain ⟨soa, hsoa⟩ := Option.isSome_iff_exists.mp hsoa
  have hcl : DNSClass.IN = .IN ∨ DNSClass.IN = .ANY := .inl rfl
  cases decide_replies hc hsoa lookup q (t := .A) hcl (by decide) with
  | records hden hans hauth hty => exact absurd hty (by decide)
  | outside hden hno haa hauth => exact absurd hcov hno
  | denial hden hans apex ttl hfind hauth =>
    exact ⟨_, by rw [hauth]; exact List.mem_singleton_self _, rfl⟩
  | nothing hden haa hans hauth =>
    refine absurd ⟨fun h => ?_, fun _ => .inr hcov⟩ hden
    cases h

/-- **The first apex listed is the closest** iff no later one below it is at or above the name. -/
lemma closest_iff {c : Config} {q apex : Name} (h : c.apexes.find? (·.zoneOf q) = some apex) :
    c.Closest q apex ↔ ∀ pre first post, c.apexes = pre ++ first :: post →
      (∀ n ∈ pre, n.zoneOf q = false) → first.zoneOf q = true →
        ∀ n ∈ post, n.zoneOf q = true → first.zoneOf n = false := by
  constructor
  · rintro ⟨-, -, hlongest⟩ pre first post hsplit hpre hcov n hn hnq
    obtain rfl : apex = first := by
      have hfirst : c.apexes.find? (·.zoneOf q) = some first := by
        rw [List.find?_eq_some_iff_append]
        exact ⟨hcov, pre, post, hsplit, fun n hn => by simp [hpre n hn]⟩
      exact Option.some.inj (h.symm.trans hfirst)
    by_contra habove
    rw [Bool.not_eq_false, Name.zoneOf_iff] at habove
    have hdistinct := pairwise_apexes c
    rw [hsplit, List.pairwise_append, List.pairwise_cons] at hdistinct
    have hlen := hlongest n (by simp [hsplit, hn]) hnq
    exact hdistinct.2.1.1 n hn (habove.eq_of_length_le (by simpa using hlen))
  · intro hlater
    obtain ⟨hcov, pre, post, hsplit, hpre⟩ := List.find?_eq_some_iff_append.mp h
    refine ⟨List.mem_of_find?_eq_some h, hcov, fun n hn hnq => ?_⟩
    rw [hsplit, List.mem_append, List.mem_cons] at hn
    rcases hn with hn | rfl | hn
    · have := hpre n hn
      simp [hnq] at this
    · exact le_rfl
    · have hno := hlater pre apex post hsplit (fun n hn => by simpa using hpre n hn) hcov n hn hnq
      apply length_le_of_zoneOf
      exact (zoneOf_or_zoneOf hcov hnq).resolve_left (by simp [hno])

/-- **Whose SOA a negative answer carries.** It is the longest apex's at or above the name iff no
apex that is listed after the first one at or above the name lies between the two; and it is so for
every query iff no apex is listed before one that lies below it.

**Proof sketch.** The SOA is the first apex's. If an apex is listed before one below it, then the
lower one, asked for type A, gets the SOA of a name above it. -/
theorem negative_soa_closest_iff {hk : Hickory} {input : Bytes} {zones : Zones}
    (h : Config.parse hk input = .ok zones.config) (hsoa : zones.config.soa.isSome = true) :
    (∀ lookup q t cl, ∀ record ∈ (decide zones lookup q t cl).authority,
      record.data.recordType = .SOA →
        (zones.config.Closest q record.name ↔ ∀ pre first post,
          zones.config.apexes = pre ++ first :: post → (∀ n ∈ pre, n.zoneOf q = false) →
            first.zoneOf q = true → ∀ n ∈ post, n.zoneOf q = true → first.zoneOf n = false)) ∧
    ((∀ lookup q t cl, ∀ record ∈ (decide zones lookup q t cl).authority,
      record.data.recordType = .SOA → zones.config.Closest q record.name) ↔
        zones.config.apexes.Pairwise fun n m => n.zoneOf m = false) := by
  have hc := parse_wf h
  refine ⟨?_, ?_, ?_⟩
  · intro lookup q t cl record hrecord _
    exact closest_iff (find?_apexes_of_mem_authority hc hsoa hrecord)
  · intro hall
    rw [List.pairwise_iff_getElem]
    intro i j hi hj hij
    by_contra habove
    rw [Bool.not_eq_false] at habove
    -- the lower apex is asked for
    have hapex : zones.config.HasApex zones.config.apexes[j] :=
      (exists_mem_apexes_iff _ _).mp ⟨_, List.getElem_mem hj, rfl⟩
    obtain ⟨record, hrecord, hsoaType⟩ := exists_authority hc hsoa (fun _ => .failed) hapex.covers
    obtain ⟨-, hcov, hlongest⟩ := hall _ _ _ _ record hrecord hsoaType
    have hself : zones.config.apexes[j].zoneOf zones.config.apexes[j] = true :=
      (Name.zoneOf_iff _ _).mpr (List.suffix_refl _)
    have hlen := hlongest _ (List.getElem_mem hj) hself
    have hkey : record.name.key = zones.config.apexes[j].key := by
      rw [Name.zoneOf_iff] at hcov
      exact hcov.eq_of_length_le (by simpa using hlen)
    -- the SOA is that of an apex listed no later than the upper one
    obtain ⟨-, k, hk', hname, hbefore⟩ := List.find?_eq_some_iff_getElem.mp
      (find?_apexes_of_mem_authority hc hsoa hrecord)
    have hki : k ≤ i := by
      by_contra hik
      have := hbefore i (by omega)
      simp [habove] at this
    have hdistinct :=
      List.pairwise_iff_getElem.mp (pairwise_apexes zones.config) k j hk' hj (by omega)
    exact hdistinct (by rw [hname, hkey])
  · intro hlisted lookup q t cl record hrecord _
    have hfind := find?_apexes_of_mem_authority hc hsoa hrecord
    have hcov : record.name.zoneOf q = true :=
      List.find?_some (p := fun apex : Name => apex.zoneOf q) hfind
    refine ⟨List.mem_of_find?_eq_some hfind, hcov, fun n hn hnq => length_le_of_zoneOf ?_⟩
    refine FirstMatch.above_of_find? (r := fun n m => n.zoneOf m = true)
      (hlisted.imp fun h => by simp [h]) ?_ (fun n m => zoneOf_or_zoneOf) hfind hn hnq
    intro n
    exact (Name.zoneOf_iff n n).mpr (List.suffix_refl _)

/-- A forward apex below that of a longer prefix. -/
def nestedInput : Bytes := ofString "primary ns1.example.net
hostmaster hostmaster.example.net
network 2001:db8:0:42::/64
    resolves to %DIGITS%.example.net
network 2001:db8:1::/48
    resolves to %DIGITS%.lan.example.net
"

/-- The zones of `nestedInput`. -/
def nestedZones : Zones := ⟨plainlyParsed nestedInput, []⟩

/-- The lower apex of `nestedInput`. -/
def lanExampleNet : Name := ⟨[ofString "lan", ofString "example", ofString "net"], by decide⟩

/-- With one forward apex, the SOA of a denial is the closest. -/
theorem negative_soa_closest_serverlessInput :
    Config.parse plainHickory serverlessInput = .ok serverlessZones.config ∧
      ∀ lookup q t cl, ∀ record ∈ (decide serverlessZones lookup q t cl).authority,
        record.data.recordType = .SOA → serverlessZones.config.Closest q record.name := by
  have hparse := parse_serverlessInput
  exact ⟨hparse, (negative_soa_closest_iff hparse (by decide +kernel)).2.mpr (by decide +kernel)⟩

/-- With an apex under another, a denial at the inner one has the SOA of the outer. -/
theorem negative_soa_nestedInput :
    Config.parse plainHickory nestedInput = .ok nestedZones.config ∧
      nestedZones.config.soa.isSome = true ∧ lanExampleNet ∈ nestedZones.config.apexes ∧
      (decide nestedZones (fun _ => .failed) lanExampleNet .A .IN).authority.map
        (fun record => (record.name, record.data.recordType)) = [(exampleNet, .SOA)] := by
  decide +kernel

end PanoptiDns
