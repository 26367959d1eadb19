import PanoptiDns.Server.CaseFold
import PanoptiDns.Server.Negative

set_option relaxedAutoImplicit false
set_option autoImplicit false

/-!
# The database a configuration stands for

A name server is usually described by its records, a relation between owner names and data. This
program stores none: it computes an answer from the zones. This file says which database a
configuration stands for, and that the handler answers from it.

## Main definitions

* `Config.Holds` — the database: owner, TTL, data.
* `Config.Selects` — which of the records of a name a query of a type is answered with.

## Main results

* `Config.Holds.unique` — a name has one record of each type but NS, and one TTL.
* `decide_answers_iff` — the handler refines the database.
* `Config.Holds.confirmed` — when the PTR record of an address leads back to the name that has
  the address.
-/

namespace PanoptiDns

open Bytes

/-- The data of the SOA record at every apex. -/
def SoaParams.data (soa : SoaParams) : SOA :=
  let i32 := fun n => min n (2 ^ 31 - 1)
  ⟨soa.primary, soa.hostmaster, soa.serial, i32 soa.refresh, i32 soa.retry, i32 soa.expire,
    soa.minimum⟩

/-- **The database of a configuration**: the TTL and the data of the records at a name. Names are
compared without regard to case; the AAAA records are those of the labels that count. -/
inductive Config.Holds (c : Config) (q : Name) : ℕ → RData → Prop
  /-- Both apexes of a zone have the SOA record, if there is one. -/
  | soa {z : Zone} {soa : SoaParams} (hz : z ∈ c.zones)
      (hq : z.ptrZone.key = q.key ∨ z.fwdParent.key = q.key) (hsoa : c.soa = some soa) :
      c.Holds q (min z.ttl soa.minimum) (.soa soa.data)
  /-- Both apexes of a zone have the name servers. -/
  | ns {z : Zone} {host : Name} (hz : z ∈ c.zones)
      (hq : z.ptrZone.key = q.key ∨ z.fwdParent.key = q.key) (hhost : host ∈ c.nameservers) :
      c.Holds q z.ttl (.ns host)
  /-- The reverse name of an address has the name that the longest prefix gives it. -/
  | ptr {z : Zone} {a : U128} {n : Name} (hz : z ∈ c.zones) (ha : z.contains a = true)
      (hlongest : ∀ w ∈ c.zones, w ≠ z → w.contains a = true → w.mask < z.mask)
      (hq : q.key = reverseLabels a 32) (hn : forwardName z a = some n) :
      c.Holds q z.ttl (.ptr n)
  /-- A name that a zone spells has the address of the first zone that spells it. -/
  | aaaa {pre post : List Zone} {z : Zone} {a : U128} (hz : c.zones = pre ++ z :: post)
      (hq : z.Spells a q.counted) (hfirst : ∀ w ∈ pre, ∀ b, ¬w.Spells b q.counted) :
      c.Holds q z.ttl (.aaaa a)

/-- An ANY query is answered with the records of the apex if the name is one, else with that of
the address whose name it is, else with that of the name. -/
def Config.Foremost (c : Config) (q : Name) : RecordType → Prop
  | .PTR => ¬c.HasApex q
  | .AAAA => ¬c.HasApex q ∧ ¬c.HasReverse q
  | _ => True

/-- The records of type `d` at a name are in the answer to a query of type `t`. -/
def Config.Selects (c : Config) (q : Name) (t d : RecordType) : Prop :=
  t = d ∨ t = .ANY ∧ c.Foremost q d

/-- The class and the type are ones the handler answers from records. -/
def Answerable (t : RecordType) (cl : DNSClass) : Prop := (cl = .IN ∨ cl = .ANY) ∧ t.isQuery

/-! ## The records of a name -/

/-- The zones of an accepted configuration have one TTL. -/
lemma ttl_eq_of_parse {hk : Hickory} {input : Bytes} {c : Config}
    (h : Config.parse hk input = .ok c) : ∃ ttl, ∀ z ∈ c.zones, z.ttl = ttl := by
  obtain ⟨-, -, -, zs, -, -, rfl⟩ := parse_eq_ok_iff.mp h
  refine ⟨(compileGlobals hk (parse input).cfg).ttl, fun z hz => ?_⟩
  obtain ⟨w, -, rfl⟩ := List.mem_map.mp ((sortByMask_perm _).mem_iff.mp hz)
  rfl

section Records

variable {c : Config} (hc : c.Wf) {q : Name} {ttl : ℕ}

include hc

/-- The record of an address, as the reverse scan finds it. -/
lemma Config.holds_ptr_iff {n : Name} : c.Holds q ttl (.ptr n) ↔
    ∃ z a, matchPtr c q = some (z, a) ∧ forwardName z a = some n ∧ z.ttl = ttl := by
  constructor
  · intro h
    cases h with
    | @ptr z a _ hz ha hlongest hq hn =>
      have hzone := (zoneForAddr_eq_some_iff hc).mpr ⟨hz, ha, hlongest⟩
      exact ⟨z, a, matchPtr_eq_some_iff.mpr ⟨hq, hzone⟩, hn, rfl⟩
  · rintro ⟨z, a, hm, hn, rfl⟩
    obtain ⟨hq, hzone⟩ := matchPtr_eq_some_iff.mp hm
    obtain ⟨hz, ha, hlongest⟩ := (zoneForAddr_eq_some_iff hc).mp hzone
    exact .ptr hz ha hlongest hq hn

/-- The record of a name, as the forward scan finds it. -/
lemma Config.holds_aaaa_iff {a : U128} : c.Holds q ttl (.aaaa a) ↔
    ∃ z, matchForward c q = some (z, a) ∧ z.ttl = ttl := by
  constructor
  · intro h
    cases h with
    | @aaaa pre post z _ hz hq hfirst =>
      exact ⟨z, (matchForward_eq_some_iff hc).mpr ⟨pre, post, hz, hq, hfirst⟩, rfl⟩
  · rintro ⟨z, hm, rfl⟩
    obtain ⟨pre, post, hz, hq, hfirst⟩ := (matchForward_eq_some_iff hc).mp hm
    exact .aaaa hz hq hfirst

end Records

/-- **Record sets**: the records of one type at one name have one TTL, and, name servers apart,
there is one record. -/
lemma Config.Holds.unique {hk : Hickory} {input : Bytes} {c : Config}
    (h : Config.parse hk input = .ok c) {q : Name} {ttl₁ ttl₂ : ℕ} {d₁ d₂ : RData}
    (h₁ : c.Holds q ttl₁ d₁) (h₂ : c.Holds q ttl₂ d₂) (htype : d₁.recordType = d₂.recordType) :
    ttl₁ = ttl₂ ∧ (d₁.recordType ≠ .NS → d₁ = d₂) := by
  have hc := parse_wf h
  obtain ⟨ttl, httl⟩ := ttl_eq_of_parse h
  cases d₁ with
  | soa s₁ =>
    cases h₁ with | soa hz₁ _ hsoa₁ =>
    cases h₂ with
    | soa hz₂ _ hsoa₂ =>
      obtain rfl := Option.some.inj (hsoa₁.symm.trans hsoa₂)
      rw [httl _ hz₁, httl _ hz₂]
      exact ⟨rfl, fun _ => rfl⟩
    | _ => simp [RData.recordType] at htype
  | ns n₁ =>
    cases h₁ with | ns hz₁ _ _ =>
    cases h₂ with
    | ns hz₂ _ _ => exact ⟨(httl _ hz₁).trans (httl _ hz₂).symm, fun hne => absurd rfl hne⟩
    | _ => simp [RData.recordType] at htype
  | ptr n₁ =>
    cases d₂ with
    | ptr n₂ =>
      obtain ⟨z₁, a₁, hm₁, hn₁, rfl⟩ := (Config.holds_ptr_iff hc).mp h₁
      obtain ⟨z₂, a₂, hm₂, hn₂, rfl⟩ := (Config.holds_ptr_iff hc).mp h₂
      obtain ⟨rfl, rfl⟩ := Prod.mk.inj (Option.some.inj (hm₁.symm.trans hm₂))
      exact ⟨rfl, fun _ => congrArg _ (Option.some.inj (hn₁.symm.trans hn₂))⟩
    | _ => cases h₂ <;> simp [RData.recordType] at htype
  | aaaa a₁ =>
    cases d₂ with
    | aaaa a₂ =>
      obtain ⟨z₁, hm₁, rfl⟩ := (Config.holds_aaaa_iff hc).mp h₁
      obtain ⟨z₂, hm₂, rfl⟩ := (Config.holds_aaaa_iff hc).mp h₂
      obtain ⟨rfl, rfl⟩ := Prod.mk.inj (Option.some.inj (hm₁.symm.trans hm₂))
      exact ⟨rfl, fun _ => rfl⟩
    | _ => cases h₂ <;> simp [RData.recordType] at htype
  | other => cases h₁

/-! ## The handler answers from the database -/

/-- The upstream that is asked for the name of an address: that of the zone with the longest
prefix, if a client was built for it. -/
def Zones.Relays (zones : Zones) (q : Name) (addr : IpAddr) : Prop :=
  ∃ z a, q.key = reverseLabels a 32 ∧ zoneForAddr zones.config a = some z ∧
    z.upstream = some addr ∧ addr ∈ zones.upstreams

section Answers

variable {c : Config} {q : Name} {t : RecordType} {ttl : ℕ} {data : RData}

/-- The answer of an apex: the SOA record and the name servers, as the type selects them. -/
lemma mem_apexReply_iff {T : ℕ} (httl : ∀ z ∈ c.zones, z.ttl = T) (hapex : c.HasApex q)
    (hty : apexHasType t = true) (apex : Name) :
    (∃ r ∈ (apexReply c apex t).answers, r.ttl = ttl ∧ r.data = data) ↔
      c.Holds q ttl data ∧ c.Selects q t data.recordType := by
  obtain ⟨z, hz, hq⟩ := id hapex
  have hhead : (c.zones.head?.map Zone.ttl).getD 3600 = T := by
    cases hzones : c.zones with
    | nil => simp [hzones] at hz
    | cons w ws => simpa using httl w (by simp [hzones])
  simp only [apexHasType, Bool.or_eq_true, decide_eq_true_eq] at hty
  simp only [apexReply, hhead, List.mem_append, Bool.or_eq_true, decide_eq_true_eq]
  constructor
  · rintro ⟨r, hr | hr, rfl, rfl⟩
    · split at hr
      · rename_i hsel
        obtain ⟨p, hp, rfl⟩ := Option.map_eq_some_iff.mp (Option.mem_toList.mp hr)
        exact ⟨httl z hz ▸ Config.Holds.soa hz hq hp, hsel.imp id fun h => ⟨h, trivial⟩⟩
      · simp at hr
    · split at hr
      · rename_i hsel
        obtain ⟨host, hhost, rfl⟩ := List.mem_map.mp hr
        exact ⟨httl z hz ▸ Config.Holds.ns hz hq hhost, hsel.imp id fun h => ⟨h, trivial⟩⟩
      · simp at hr
  · rintro ⟨hholds, hsel⟩
    cases hholds with
    | @soa w p hw hq' hp =>
      have hsel : t = .SOA ∨ t = .ANY := hsel.imp id And.left
      refine ⟨soaRecord apex p T, .inl ?_, by rw [httl w hw]; rfl, rfl⟩
      rw [if_pos hsel, hp]
      simp
    | @ns w host hw hq' hhost =>
      have hsel : t = .NS ∨ t = .ANY := hsel.imp id And.left
      refine ⟨.fromRData apex T (.ns host), .inr ?_, (httl w hw).symm, rfl⟩
      rw [if_pos hsel]
      exact List.mem_map.mpr ⟨host, hhost, rfl⟩
    | ptr =>
      rcases hsel with rfl | ⟨-, hno⟩
      · simp [RData.recordType] at hty
      · exact absurd hapex hno
    | aaaa =>
      rcases hsel with rfl | ⟨-, hno, -⟩
      · simp [RData.recordType] at hty
      · exact absurd hapex hno

/-- Away from the apexes, a PTR record is selected by the reverse types. -/
lemma Config.selects_ptr_iff (hapex : ¬(apexHasType t = true ∧ c.HasApex q)) :
    c.Selects q t .PTR ↔ reverseHasType t = true := by
  simp only [Config.Selects, Config.Foremost, reverseHasType, Bool.or_eq_true, decide_eq_true_eq]
  refine or_congr_right ⟨And.left, fun hany => ⟨hany, fun h => hapex ⟨?_, h⟩⟩⟩
  rw [hany]
  rfl

/-- Away from the apexes, an AAAA record is selected by the forward types, unless the type is a
reverse one too and the name is that of an address. -/
lemma Config.selects_aaaa_iff (hapex : ¬(apexHasType t = true ∧ c.HasApex q)) :
    c.Selects q t .AAAA ↔
      forwardHasType t = true ∧ (reverseHasType t = true → ¬c.HasReverse q) := by
  simp only [Config.Selects, Config.Foremost, forwardHasType, Bool.or_eq_true, decide_eq_true_eq]
  constructor
  · rintro (rfl | ⟨rfl, -, hrev⟩)
    · exact ⟨.inl rfl, fun h => absurd h (by decide)⟩
    · exact ⟨.inr rfl, fun _ => hrev⟩
  · rintro ⟨rfl | rfl, hrev⟩
    · exact .inl rfl
    · exact .inr ⟨rfl, fun h => hapex ⟨rfl, h⟩, hrev rfl⟩

/-- The answer of the zones: the record of the address if the type is a reverse one and the name
is that of an address, else the record of the name if the type is a forward one. -/
lemma mem_resolve_iff (hc : c.Wf) (hapex : ¬(apexHasType t = true ∧ c.HasApex q)) :
    (∃ z records, resolve c q t = .answer z records ∧
        ∃ r ∈ records, r.ttl = ttl ∧ r.data = data) ↔
      c.Holds q ttl data ∧ c.Selects q t data.recordType := by
  constructor
  · rintro ⟨z, records, hr, r, hmem, rfl, rfl⟩
    rcases resolve_eq_answer hr with ⟨a, hty, hm, rfl⟩ | ⟨a, hm, rfl⟩
    · obtain ⟨n, hn, rfl⟩ : ∃ n, forwardName z a = some n ∧ .fromRData q z.ttl (.ptr n) = r := by
        simpa [ptrRecord, Option.bind_eq_some_iff] using hmem
      exact ⟨(Config.holds_ptr_iff hc).mpr ⟨z, a, hm, hn, rfl⟩,
        (Config.selects_ptr_iff hapex).mpr hty⟩
    · obtain ⟨hty, rfl⟩ : forwardHasType t = true ∧ r = aaaaRecord z q a := by
        split at hmem
        · exact ⟨‹_›, by simpa using hmem⟩
        · simp at hmem
      refine ⟨(Config.holds_aaaa_iff hc).mpr ⟨z, hm, rfl⟩,
        (Config.selects_aaaa_iff hapex).mpr ⟨hty, fun hrevty hrev => ?_⟩⟩
      -- the name of an address has a PTR record, which this one is not
      obtain ⟨⟨w, b⟩, hw⟩ := Option.isSome_iff_exists.mp (matchPtr_isSome_iff.mpr hrev)
      obtain ⟨rfl, hrecords⟩ := Outcome.answer.inj ((resolve_of_matchPtr hrevty hw).symm.trans hr)
      rw [if_pos hty] at hrecords
      have hptr : aaaaRecord w q a ∈ (ptrRecord w q b).toList := by simp [hrecords]
      simp [ptrRecord, aaaaRecord, Record.fromRData, Option.bind_eq_some_iff] at hptr
  · rintro ⟨hholds, hsel⟩
    cases data with
    | ptr n =>
      obtain ⟨z, a, hm, hn, rfl⟩ := (Config.holds_ptr_iff hc).mp hholds
      refine ⟨z, _, resolve_of_matchPtr ((Config.selects_ptr_iff hapex).mp hsel) hm,
        .fromRData q z.ttl (.ptr n), ?_, rfl, rfl⟩
      simp [ptrRecord, hn]
    | aaaa a =>
      obtain ⟨z, hm, rfl⟩ := (Config.holds_aaaa_iff hc).mp hholds
      obtain ⟨hty, hrev⟩ := (Config.selects_aaaa_iff hapex).mp hsel
      refine ⟨z, [aaaaRecord z q a], ?_, aaaaRecord z q a, by simp, rfl, rfl⟩
      rw [resolve_of_matchForward hrev hm, if_pos hty]
    | soa | ns =>
      cases hholds with | _ hz hq =>
      rcases hsel with rfl | ⟨rfl, -⟩
      · exact absurd ⟨rfl, _, hz, hq⟩ hapex
      · exact absurd ⟨rfl, _, hz, hq⟩ hapex
    | other => cases hholds

/-- A record of the zones is under the name of the query. -/
lemma owner_of_mem_resolve {z : Zone} {records : List Record}
    (hr : resolve c q t = .answer z records) {r : Record} (hmem : r ∈ records) :
    r.dnsClass = .IN ∧ r.name = q := by
  rcases resolve_eq_answer hr with ⟨a, -, -, rfl⟩ | ⟨a, -, rfl⟩
  · obtain ⟨n, -, rfl⟩ : ∃ n, forwardName z a = some n ∧ .fromRData q z.ttl (.ptr n) = r := by
      simpa [ptrRecord, Option.bind_eq_some_iff] using hmem
    exact ⟨rfl, rfl⟩
  · split at hmem
    · obtain rfl := List.mem_singleton.mp hmem
      exact ⟨rfl, rfl⟩
    · simp at hmem

/-- A relayed record is under the name of the query. -/
lemma owner_of_mem_lookupPtr {outcome : LookupOutcome} {r : Record}
    (hmem : r ∈ lookupPtr q outcome) : r.dnsClass = .IN ∧ r.name = q := by
  cases hup : upstreamQname q with
  | none => cases outcome <;> simp [lookupPtr, hup] at hmem
  | some up =>
    rw [lookupPtr_eq hup] at hmem
    obtain ⟨hname, hclass, -⟩ := mem_map_relayed hmem
    exact ⟨hclass, hname⟩

/-- A record of an apex is of class `IN`. -/
lemma class_of_mem_apexReply {apex : Name} {r : Record} (hmem : r ∈ (apexReply c apex t).answers) :
    r.dnsClass = .IN := by
  simp only [apexReply, List.mem_append] at hmem
  rcases hmem with hmem | hmem
  · split at hmem
    · obtain ⟨soa, -, rfl⟩ := Option.map_eq_some_iff.mp (Option.mem_toList.mp hmem)
      rfl
    · simp at hmem
  · split at hmem
    · obtain ⟨ns, -, rfl⟩ := List.mem_map.mp hmem
      rfl
    · simp at hmem

variable {zones : Zones} {lookup : IpAddr → LookupOutcome}

/-- The name of an address whose upstream is asked has a record for the upstream to override. -/
lemma resolve_of_relays (hc : zones.config.Wf) {addr : IpAddr} (h : zones.Relays q addr) :
    ∃ z records, resolve zones.config q .PTR = .answer z records ∧ records ≠ [] ∧
      z.upstream = some addr ∧ addr ∈ zones.upstreams := by
  obtain ⟨z, a, hq, hzone, hup, hmem⟩ := h
  obtain ⟨hz, ha⟩ := of_zoneForAddr hzone
  obtain ⟨n, hn, -⟩ := (hc.zones z hz).exists_spells ha
  exact ⟨z, _, resolve_of_matchPtr rfl (matchPtr_eq_some_iff.mpr ⟨hq, hzone⟩),
    by simp [ptrRecord, hn], hup, hmem⟩

/-- An upstream with something to say is relayed. -/
lemma answers_answerReply_relayed {z : Zone} {records : List Record} {addr : IpAddr}
    (hne : records ≠ []) (hup : z.upstream = some addr) (hmem : addr ∈ zones.upstreams)
    (hoffer : lookupPtr q (lookup addr) ≠ []) :
    (answerReply zones lookup q .PTR z records).answers = lookupPtr q (lookup addr) := by
  simp [answerReply, hne, hup, hmem, hoffer]

/-- Without one, the records are those of the zones. -/
lemma answers_answerReply_quiet {z : Zone} {records : List Record}
    (hquiet : t = .PTR → records ≠ [] → ∀ addr, z.upstream = some addr → addr ∈ zones.upstreams →
      lookupPtr q (lookup addr) = []) :
    (answerReply zones lookup q t z records).answers = records := by
  unfold answerReply
  by_cases hask : t = .PTR ∧ records ≠ []
  · obtain ⟨rfl, hne⟩ := hask
    cases hup : z.upstream with
    | none => simp
    | some addr =>
      by_cases hmem : addr ∈ zones.upstreams
      · simp [hne, hmem, hquiet rfl hne addr hup hmem]
      · simp [hmem]
  · have hno : (!records.isEmpty && Decidable.decide (t = .PTR)) = false := by
      rw [Bool.eq_false_iff]
      simpa [and_comm] using hask
    simp only [hno, Bool.false_eq_true, if_false, List.isEmpty_nil, if_true]

/-- Every record of the reply for a name the zones answer is under the name of the query. -/
lemma owner_of_mem_answerReply {z : Zone} {records : List Record}
    (hr : resolve c q t = .answer z records) {r : Record}
    (hmem : r ∈ (answerReply zones lookup q t z records).answers) :
    r.dnsClass = .IN ∧ r.name = q := by
  by_cases hquiet : t = .PTR → records ≠ [] → ∀ addr, z.upstream = some addr →
      addr ∈ zones.upstreams → lookupPtr q (lookup addr) = []
  · rw [answers_answerReply_quiet hquiet] at hmem
    exact owner_of_mem_resolve hr hmem
  · push Not at hquiet
    obtain ⟨rfl, hne, addr, hup, haddr, hoffer⟩ := hquiet
    rw [answers_answerReply_relayed hne hup haddr hoffer] at hmem
    exact owner_of_mem_lookupPtr hmem

/-- The answers to a query that is served: under its name, and a relay's if one has any to offer,
else the selected records of the database. -/
structure FromDatabase (zones : Zones) (lookup : IpAddr → LookupOutcome) (q : Name) (t : RecordType)
    (answers : List Record) : Prop where
  owner : ∀ r ∈ answers, r.dnsClass = .IN ∧ r.name.key = q.key
  relayed : ∀ addr, zones.Relays q addr → t = .PTR → lookupPtr q (lookup addr) ≠ [] →
    answers = lookupPtr q (lookup addr)
  held : (∀ addr, zones.Relays q addr → t = .PTR → lookupPtr q (lookup addr) = []) →
    ∀ ttl data, (∃ r ∈ answers, r.ttl = ttl ∧ r.data = data) ↔
      zones.config.Holds q ttl data ∧ zones.config.Selects q t data.recordType

section Branches

variable (hc : zones.config.Wf)

include hc

/-- A query of another type than the apex's, with an answer of the zones. -/
lemma fromDatabase_answer (hapex : ¬(apexHasType t = true ∧ zones.config.HasApex q)) {z : Zone}
    {records : List Record} (hr : resolve zones.config q t = .answer z records) :
    FromDatabase zones lookup q t (answerReply zones lookup q t z records).answers := by
  refine ⟨fun r hmem => ?_, ?_, fun hquiet ttl data => ?_⟩
  · obtain ⟨hclass, hname⟩ := owner_of_mem_answerReply hr hmem
    exact ⟨hclass, congrArg Name.key hname⟩
  · rintro addr hrel rfl hoffer
    obtain ⟨w, recs, hr', hne, hup, hmem⟩ := resolve_of_relays hc hrel
    obtain ⟨rfl, rfl⟩ := Outcome.answer.inj (hr.symm.trans hr')
    exact answers_answerReply_relayed hne hup hmem hoffer
  · have hrelays : t = .PTR → records ≠ [] → ∀ addr, z.upstream = some addr →
        addr ∈ zones.upstreams → zones.Relays q addr := by
      rintro rfl hne addr hup hmem
      rcases resolve_eq_answer hr with ⟨a, -, hm, -⟩ | ⟨a, -, rfl⟩
      · obtain ⟨hq, hzone⟩ := matchPtr_eq_some_iff.mp hm
        exact ⟨z, a, hq, hzone, hup, hmem⟩
      · exact absurd rfl hne
    rw [answers_answerReply_quiet
      fun ht hne addr hup hmem => hquiet addr (hrelays ht hne addr hup hmem) ht,
      ← mem_resolve_iff hc hapex]
    constructor
    · exact fun hmem => ⟨z, records, hr, hmem⟩
    · rintro ⟨w, recs, heq, hmem⟩
      obtain ⟨rfl, rfl⟩ := Outcome.answer.inj (hr.symm.trans heq)
      exact hmem

/-- A query without one: the database selects nothing, and no relay is asked. -/
lemma fromDatabase_nil (hapex : ¬(apexHasType t = true ∧ zones.config.HasApex q))
    (hr : ∀ z records, resolve zones.config q t ≠ .answer z records) :
    FromDatabase zones lookup q t [] := by
  refine ⟨by simp, ?_, fun _ ttl data => ?_⟩
  · rintro addr hrel rfl -
    obtain ⟨z, records, hr', -⟩ := resolve_of_relays hc hrel
    exact absurd hr' (hr z records)
  · rw [← mem_resolve_iff hc hapex]
    constructor
    · rintro ⟨r, hmem, -⟩
      cases hmem
    · rintro ⟨z, records, hr', -⟩
      exact absurd hr' (hr z records)

/-- **The answers to a name** are those of the database.

**Proof sketch.** The branches of the handler: at an apex its own records, elsewhere the answer of
the zones, and none if there is none. -/
lemma fromDatabase_decideName {T : ℕ} (httl : ∀ z ∈ zones.config.zones, z.ttl = T) :
    FromDatabase zones lookup q t (decideName zones lookup q t).answers := by
  have hstep := apexStep_isSome_iff (c := zones.config) (q := q) (t := t)
  simp only [decideName]
  cases hfind : (if apexHasType t then zones.config.apexes.find? (·.sameName q) else none) with
  | some apex =>
    rw [hfind] at hstep
    obtain ⟨hty, hapex⟩ := hstep.mp rfl
    refine ⟨fun r hr => ⟨class_of_mem_apexReply hr, ?_⟩, ?_, fun _ ttl data => ?_⟩
    · rw [name_of_mem_apexReply hr]
      exact (of_apexStep hfind).2
    · rintro addr - rfl
      simp [apexHasType] at hty
    · exact mem_apexReply_iff httl hapex hty apex
  | none =>
    have hapex : ¬(apexHasType t = true ∧ zones.config.HasApex q) := by
      rw [← hstep, hfind]
      simp
    cases hr : resolve zones.config q t with
    | answer z records => exact fromDatabase_answer hc hapex hr
    | noName z => exact fromDatabase_nil hc hapex fun w records => by simp [hr]
    | noZone =>
      cases zones.config.params.outOfZone with
      | refused => exact fromDatabase_nil hc hapex fun w records => by simp [hr]
      | nxDomain => exact fromDatabase_nil hc hapex fun w records => by simp [hr]

end Branches

end Answers

/-- **The handler refines the database.** A query that a relay answers gets what the upstream's
reply comes to. Every other query gets, of the records that the database has at the name, those
that the type selects, and nothing for a class or a type that is not served. -/
theorem decide_answers_iff {hk : Hickory} {input : Bytes} {zones : Zones}
    (h : Config.parse hk input = .ok zones.config) (lookup : IpAddr → LookupOutcome) (q : Name)
    (t : RecordType) (cl : DNSClass) :
    let answers := (decide zones lookup q t cl).answers
    (∀ r ∈ answers, r.dnsClass = .IN ∧ r.name.key = q.key) ∧
    (∀ addr, zones.Relays q addr → t = .PTR → Answerable t cl → lookupPtr q (lookup addr) ≠ [] →
      answers = lookupPtr q (lookup addr)) ∧
    ((∀ addr, zones.Relays q addr → t = .PTR → lookupPtr q (lookup addr) = []) →
      ∀ ttl data, (∃ r ∈ answers, r.ttl = ttl ∧ r.data = data) ↔
        Answerable t cl ∧ zones.config.Holds q ttl data ∧
          zones.config.Selects q t data.recordType) := by
  by_cases hans : Answerable t cl
  · have hname : decide zones lookup q t cl = decideName zones lookup q t := by
      unfold decide
      rw [if_neg (by rcases hans.1 with rfl | rfl <;> simp), if_neg (by simp [hans.2.1, hans.2.2])]
    obtain ⟨T, httl⟩ := ttl_eq_of_parse h
    obtain ⟨howner, hrelayed, hheld⟩ :
        FromDatabase zones lookup q t (decideName zones lookup q t).answers :=
      fromDatabase_decideName (parse_wf h) httl
    simp only [hname, hans, true_and]
    exact ⟨howner, fun addr hrel ht _ => hrelayed addr hrel ht, hheld⟩
  · have hnone : (decide zones lookup q t cl).answers = [] := by
      rw [decide_eq_refused hans]
      rfl
    simp [hnone, hans]

/-- The handler's answer for the name of the sample is in the database. -/
theorem decide_answers_sampleName : ∃ ttl,
    sampleZones.config.Holds sampleName ttl (.aaaa 0x20010db80000004200000000deadbeef) := by
  obtain ⟨-, -, hiff⟩ :=
    decide_answers_iff parse_sampleZones (fun _ => .failed) sampleName .AAAA .IN
  have hans : ∃ r ∈ (decide sampleZones (fun _ => .failed) sampleName .AAAA .IN).answers,
      r.ttl = 3600 ∧ r.data = .aaaa 0x20010db80000004200000000deadbeef := by
    decide +kernel
  exact ⟨3600, ((hiff (fun _ _ _ => rfl) _ _).mp hans).2.1⟩

/-! ## Forward-confirmed reverse names -/

/-- **When a name is confirmed**: an address that a name has belongs to a name of its own, with the
same TTL, and it is the same name exactly when no more specific network has the address. This is
before an upstream is asked, whose PTR records replace the one of the database.

**Proof sketch.** The PTR record is the one of the longest prefix. If that is the zone which spells
the name first, both are the name it gives the address. If it is another, its mask is longer, so
that it is scanned before, and it does not spell the name. -/
theorem Config.Holds.confirmed {hk : Hickory} {input : Bytes} {c : Config}
    (h : Config.parse hk input = .ok c) {q r : Name} {ttl : ℕ} {a : U128}
    (hstar : q.labels.head? ≠ some Name.star) (hq : c.Holds q ttl (.aaaa a))
    (hr : r.key = reverseLabels a 32) :
    ∃ z ∈ c.zones, z.Spells a q.key ∧ ∃ n,
      (∀ ttl' data, data.recordType = .PTR →
        (c.Holds r ttl' data ↔ ttl' = ttl ∧ data = .ptr n)) ∧
      (n.key = q.key ↔ ∀ w ∈ c.zones, w.contains a = true → w.mask ≤ z.mask) := by
  have hc := parse_wf h
  obtain ⟨T, httl⟩ := ttl_eq_of_parse h
  cases hq with
  | @aaaa pre post z _ hz hq hfirst =>
  rw [Name.counted_of_not_star hstar] at hq hfirst
  have hzmem : z ∈ c.zones := by simp [hz]
  have hsome : (zoneForAddr c a).isSome = true := List.find?_isSome.mpr ⟨z, hzmem, hq.1⟩
  obtain ⟨w, hw⟩ := Option.isSome_iff_exists.mp hsome
  obtain ⟨hwmem, hwa, hlongest⟩ := (zoneForAddr_eq_some_iff hc).mp hw
  obtain ⟨n, hn, hspells⟩ := (hc.zones w hwmem).exists_spells hwa
  refine ⟨z, hzmem, hq, n, fun ttl' data hdata => ?_, ?_⟩
  · constructor
    · intro hholds
      obtain ⟨httl', hdata'⟩ := Config.Holds.unique h hholds
        (.ptr hwmem hwa hlongest hr hn) (by rw [hdata]; rfl)
      exact ⟨httl'.trans ((httl w hwmem).trans (httl z hzmem).symm),
        hdata' (by rw [hdata]; decide)⟩
    · rintro ⟨rfl, rfl⟩
      rw [httl z hzmem, ← httl w hwmem]
      exact .ptr hwmem hwa hlongest hr hn
  · constructor
    · intro hkey v hv hva
      by_cases hwz : w = z
      · subst hwz
        by_cases hvw : v = w
        · rw [hvw]
        · exact (hlongest v hv hvw hva).le
      · -- the zone of the longest prefix is scanned first, and gives the name to the address
        have hmask := hlongest z hzmem (Ne.symm hwz) hq.1
        have hsorted := hc.sorted
        rw [hz, List.pairwise_append, List.pairwise_cons] at hsorted
        rw [hz, List.mem_append, List.mem_cons] at hwmem
        rcases hwmem with hpre | rfl | hpost
        · exact absurd (hkey ▸ hspells) (hfirst w hpre a)
        · exact absurd rfl hwz
        · exact absurd (hsorted.2.1.1 w hpost) (by omega)
    · intro hmost
      have hwz : w = z := by
        by_contra hne
        have := hlongest z hzmem (Ne.symm hne) hq.1
        have := hmost w hwmem hwa
        omega
      subst hwz
      obtain ⟨-, m, hm, hkey⟩ := hq
      rw [← hkey, Option.some.inj (hn.symm.trans hm)]

/-- The name of the sample has an address whose one PTR record leads back to it: the address is in
no network more specific than the one that spells the name. -/
theorem holds_confirmed_sampleName : ∃ z ∈ (parsed sampleInput).zones,
    z.Spells 0x20010db80000004200000000deadbeef sampleName.key ∧ ∃ n : Name,
      (∀ ttl data, data.recordType = .PTR →
        ((parsed sampleInput).Holds sampleReverse ttl data ↔ ttl = 3600 ∧ data = .ptr n)) ∧
      n.key = sampleName.key ∧ ∀ w ∈ (parsed sampleInput).zones,
        w.contains 0x20010db80000004200000000deadbeef = true → w.mask ≤ z.mask := by
  have hc := parse_wf parse_sampleInput
  have hfind : (matchForward (parsed sampleInput) sampleName).map (fun m => (m.1.ttl, m.2)) =
      some (3600, 0x20010db80000004200000000deadbeef) := by
    decide +kernel
  obtain ⟨⟨z, a⟩, hm, hza⟩ := Option.map_eq_some_iff.mp hfind
  obtain ⟨httl, ha⟩ : z.ttl = 3600 ∧ a = 0x20010db80000004200000000deadbeef := Prod.mk.inj hza
  rw [← ha]
  have haaaa : (parsed sampleInput).Holds sampleName 3600 (.aaaa a) :=
    (Config.holds_aaaa_iff hc).mpr ⟨z, hm, httl⟩
  have hreverse : sampleReverse.key = reverseLabels a 32 := by
    rw [ha]
    decide +kernel
  obtain ⟨w, hw, hspells, n, hptr, hkey⟩ :=
    Config.Holds.confirmed parse_sampleInput (by decide) haaaa hreverse
  -- of the two networks, only the inner one spells the name
  have hinner : ∀ w ∈ (parsed sampleInput).zones,
      (forwardName w a).map Name.key = some sampleName.key →
        ∀ v ∈ (parsed sampleInput).zones, v.mask ≤ w.mask := by
    rw [ha]
    decide +kernel
  obtain ⟨-, m, hm, hmkey⟩ := id hspells
  have hmost : ∀ v ∈ (parsed sampleInput).zones, v.contains a = true → v.mask ≤ w.mask :=
    fun v hv _ => hinner w hw (by rw [hm, Option.map_some, hmkey]) v hv
  exact ⟨w, hw, hspells, n, hptr, hkey.mpr hmost, hmost⟩

end PanoptiDns
