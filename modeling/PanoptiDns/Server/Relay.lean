import PanoptiDns.Server.Existence

set_option relaxedAutoImplicit false
set_option autoImplicit false

/-!
# What an upstream can do to a reply

An upstream is not trusted: it may answer anything, late or not at all. `decide` is written out
here with the wait for the upstream as a step of its own, so that one can say when the upstream is
asked, and what the reply is then, for every outcome.

## Main definitions

* `Deciding`, `decideAsking` — the program of `decide`, with the question to the upstream explicit.
* `LookupOutcome.offers` — what an outcome offers to the question, record by record.

## Main results

* `decide_eq_run` — the program is `decide`.
* `decideAsking_eq_ask` — when an upstream is asked.
* `upstream_confined` — what becomes of its answer.
-/

namespace PanoptiDns

open Bytes

/-! ## The question made explicit -/

/-- A decision: a reply, or a question to an upstream and the reply each outcome leads to. -/
inductive Deciding
  | settled (reply : Reply)
  /-- `upstream.lookup_ptr(qname).await`. -/
  | ask (upstream : IpAddr) (k : LookupOutcome → Reply)

/-- The reply, for what the lookups come to. -/
def Deciding.run (lookup : IpAddr → LookupOutcome) : Deciding → Reply
  | .settled reply => reply
  | .ask upstream k => k (lookup upstream)

/-- An authoritative reply with these records: an answer, or NODATA. -/
def recordsReply (config : Config) (qname : Name) (records : List Record) : Reply :=
  let kind := kindOf records
  ⟨.noError, true, records, negativeAuthority config qname kind, kind⟩

/-- The reply for a name a zone answers: an upstream may override a PTR with a real hostname. -/
def answerAsking (zones : Zones) (qname : Name) (qtype : RecordType) (zone : Zone)
    (records : List Record) : Deciding :=
  if !records.isEmpty && qtype = .PTR then
    match zone.upstream with
    | some addr =>
      if addr ∈ zones.upstreams then
        .ask addr fun outcome =>
          let relayed := lookupPtr qname outcome
          recordsReply zones.config qname (if relayed.isEmpty then records else relayed)
      else .settled (recordsReply zones.config qname records)
    | none => .settled (recordsReply zones.config qname records)
  else .settled (recordsReply zones.config qname records)

/-- `Handler::decide`, up to the answer of the upstream. -/
def decideAsking (zones : Zones) (qname : Name) (qtype : RecordType) (qclass : DNSClass) :
    Deciding :=
  let config := zones.config
  if qclass ≠ .IN ∧ qclass ≠ .ANY then .settled .refused
  else if qtype = .AXFR ∨ qtype = .IXFR then .settled .refused
  else
    match if apexHasType qtype then config.apexes.find? (·.sameName qname) else none with
    | some apex => .settled (apexReply config apex qtype)
    | none =>
      match resolve config qname qtype with
      | .answer zone records => answerAsking zones qname qtype zone records
      | .noName zone => .settled (noNameReply config qname zone)
      | .noZone =>
        match config.params.outOfZone with
        | .refused => .settled .refused
        | .nxDomain => .settled (.error .nxDomain)

/-- The reply is what the program that asks comes to. -/
lemma answerReply_eq_run (zones : Zones) (lookup : IpAddr → LookupOutcome) (q : Name)
    (t : RecordType) (z : Zone) (records : List Record) :
    answerReply zones lookup q t z records = (answerAsking zones q t z records).run lookup := by
  unfold answerReply answerAsking
  by_cases hask : (!records.isEmpty && Decidable.decide (t = .PTR)) = true
  · rw [if_pos hask, if_pos hask]
    cases z.upstream with
    | none => rfl
    | some addr =>
      by_cases hmem : addr ∈ zones.upstreams
      · simp only [if_pos hmem]
        rfl
      · simp only [if_neg hmem]
        rfl
  · rw [if_neg hask, if_neg hask]
    rfl

/-- **The program is `decide`.** -/
lemma decide_eq_run (zones : Zones) (lookup : IpAddr → LookupOutcome) (q : Name) (t : RecordType)
    (cl : DNSClass) : decide zones lookup q t cl = (decideAsking zones q t cl).run lookup := by
  unfold decide decideAsking decideName
  simp only
  by_cases hclass : cl ≠ .IN ∧ cl ≠ .ANY
  · rw [if_pos hclass, if_pos hclass]
    rfl
  rw [if_neg hclass, if_neg hclass]
  by_cases hxfr : t = .AXFR ∨ t = .IXFR
  · rw [if_pos hxfr, if_pos hxfr]
    rfl
  rw [if_neg hxfr, if_neg hxfr]
  cases (if apexHasType t then zones.config.apexes.find? (·.sameName q) else none) with
  | some apex => rfl
  | none =>
    cases resolve zones.config q t with
    | answer z records => exact answerReply_eq_run zones lookup q t z records
    | noName z => rfl
    | noZone => cases zones.config.params.outOfZone <;> rfl

/-! ## When the upstream is asked -/

/-- **An upstream is asked** for the name of an address in a network it was configured for, and
for nothing else. What it says takes the place of the synthesized record. -/
lemma decideAsking_eq_ask {zones : Zones} {q : Name} {t : RecordType}
    {cl : DNSClass} {addr : IpAddr} {k : LookupOutcome → Reply}
    (h : decideAsking zones q t cl = .ask addr k) :
    t = .PTR ∧ ∃ z ∈ zones.config.zones, z.upstream = some addr ∧
      ∃ a, q.key = reverseLabels a 32 ∧ z.contains a = true ∧
      ∃ record, ptrRecord z q a = some record ∧ ∀ outcome, k outcome =
        recordsReply zones.config q
          (if (lookupPtr q outcome).isEmpty then [record] else lookupPtr q outcome) := by
  unfold decideAsking at h
  simp only at h
  -- the branches that reply at once
  split at h
  · cases h
  split at h
  · cases h
  split at h
  · cases h
  split at h
  · rename_i z records hres
    unfold answerAsking at h
    split at h
    · rename_i hask
      rw [Bool.and_eq_true, Bool.not_eq_true', List.isEmpty_eq_false_iff, decide_eq_true_eq] at hask
      obtain ⟨hne, rfl⟩ := hask
      split at h
      · rename_i addr' hup
        split at h
        · obtain ⟨rfl, hk⟩ := Deciding.ask.inj h
          -- a PTR record is in the answer only if the reverse zones gave it
          rcases resolve_eq_answer hres with ⟨a, -, hm, hrec⟩ | ⟨a, -, hrec⟩
          · obtain ⟨hq, hz⟩ := matchPtr_eq_some_iff.mp hm
            obtain ⟨hmem, hin⟩ := of_zoneForAddr hz
            refine ⟨rfl, z, hmem, hup, a, hq, hin, ?_⟩
            cases hptr : ptrRecord z q a with
            | none =>
              rw [hptr] at hrec
              exact absurd hrec hne
            | some record =>
              rw [hptr, Option.toList_some] at hrec
              refine ⟨record, rfl, fun outcome => ?_⟩
              rw [← hk, hrec]
          · exact absurd hrec hne
        · cases h
      · cases h
    · cases h
  · cases h
  · split at h <;> cases h

/-! ## What it can say -/

/-- The records of an outcome. -/
def LookupOutcome.answers : LookupOutcome → List Record
  | .found answers => answers
  | _ => []

/-- What a record offers to the question for `up`, a TTL and a target: nothing, unless it is of
class `IN` and type `PTR` and its owner is exactly `up`. -/
def Record.offer (up : Name) (record : Record) : Option (ℕ × Name) :=
  if record.dnsClass = .IN ∧ record.name.sameName up = true then
    match record.data with
    | .ptr target => some (record.ttl, target)
    | _ => none
  else none

/-- What an outcome offers to the question for `up`, in order. -/
def LookupOutcome.offers (up : Name) (outcome : LookupOutcome) : List (ℕ × Name) :=
  outcome.answers.filterMap (Record.offer up)

/-- The record an offer becomes: the owner is ours, the target is theirs. -/
def relayed (qname : Name) (offer : ℕ × Name) : Record :=
  .fromRData qname (max minRelayTtl (min offer.1 maxRelayTtl)) (.ptr offer.2)

/-- The allowlist keeps the first offers, and nothing else. -/
lemma filterUpstream_eq (q up : Name) (answers : List Record) :
    filterUpstream q up answers =
      ((answers.filterMap (Record.offer up)).take maxRelayedRecords).map (relayed q) := by
  unfold filterUpstream
  rw [List.map_take, List.map_take, ← List.filterMap_eq_map, List.filterMap_filter,
    List.map_filterMap]
  congr 2
  funext record
  obtain ⟨name, cls, ttl, data⟩ := record
  by_cases hclass : cls = .IN
  · by_cases hname : name.sameName up = true
    · cases data <;> simp [Record.offer, RData.recordType, hclass, hname, relayed]
    · simp [Record.offer, hname]
  · simp [Record.offer, hclass]

/-- The name the upstream is asked for fits the limits, for the name of an address. -/
lemma upstreamQname_reverse {q : Name} {a : U128} (hq : q.key = reverseLabels a 32) :
    ∃ up, upstreamQname q = some up ∧ up.labels = q.labels ++ [upstreamLabel] := by
  have hlens : (q.labels ++ [upstreamLabel]).map List.length =
      (List.replicate 32 [(0 : UInt8)] ++ arpaSuffix ++ [upstreamLabel]).map List.length := by
    rw [List.map_append, Name.map_length_labels, hq, map_length_reverseLabels, ← List.map_append]
  have hvalid : ValidLabels (q.labels ++ [upstreamLabel]) := by
    rw [validLabels_of_lengths hlens]
    decide
  refine ⟨⟨_, hvalid⟩, ?_, rfl⟩
  have hok : Name.fromLabels (q.labels ++ [upstreamLabel]) = .ok ⟨_, hvalid⟩ := by
    rw [Name.fromLabels_eq_ok]
  exact congrArg Except.toOption hok

/-- **What is relayed** of an outcome: its first offers. -/
lemma lookupPtr_eq {q up : Name} (hup : upstreamQname q = some up) (outcome : LookupOutcome) :
    lookupPtr q outcome = ((outcome.offers up).take maxRelayedRecords).map (relayed q) := by
  cases outcome with
  | found answers =>
    simp only [lookupPtr, hup]
    exact filterUpstream_eq q up answers
  | _ => rfl

/-- A reply with records is an answer, and has no authority section. -/
lemma recordsReply_of_ne_nil (c : Config) (q : Name) {records : List Record} (h : records ≠ []) :
    recordsReply c q records = ⟨.noError, true, records, [], .answer⟩ := by
  have hkind : kindOf records = .answer := by simp [kindOf, h]
  simp [recordsReply, hkind, negativeAuthority]

/-- What a relayed record is. -/
lemma mem_map_relayed {q : Name} {offers : List (ℕ × Name)} {r : Record}
    (h : r ∈ offers.map (relayed q)) :
    r.name = q ∧ r.dnsClass = .IN ∧ r.data.recordType = .PTR ∧ 30 ≤ r.ttl ∧ r.ttl ≤ 3600 := by
  obtain ⟨offer, -, rfl⟩ := List.mem_map.mp h
  refine ⟨rfl, rfl, rfl, ?_, ?_⟩
  · exact le_max_left _ _
  · exact max_le (by decide) (min_le_right _ _)

/-- **An upstream can only substitute PTR targets.** A query is either settled without any
upstream, or it asks for the PTR of the name of an address in a network with that upstream; and
then the reply is an authoritative answer, the synthesized record unless the upstream offers
something, else its first offers under the name of the query. Nothing else of the outcome counts.

**Proof sketch.** `decideAsking_eq_ask` says when it is asked, and that the reply is made of
`lookup_ptr`; `lookupPtr_eq` says what that is. -/
theorem upstream_confined (zones : Zones) (q : Name) (t : RecordType) (cl : DNSClass) :
    (∃ reply, decideAsking zones q t cl = .settled reply ∧
      ∀ lookup, decide zones lookup q t cl = reply) ∨
    ∃ addr k, decideAsking zones q t cl = .ask addr k ∧ t = .PTR ∧
      ∃ z ∈ zones.config.zones, z.upstream = some addr ∧
      ∃ a, ptrNameToAddr q = some a ∧ z.contains a = true ∧
      ∃ record, ptrRecord z q a = some record ∧
      ∃ up, upstreamQname q = some up ∧ up.labels = q.labels ++ [upstreamLabel] ∧
      (∀ lookup : IpAddr → LookupOutcome,
        let reply := decide zones lookup q t cl
        let offers := (lookup addr).offers up
        reply.code = .noError ∧ reply.authoritative = true ∧ reply.authority = [] ∧
        reply.kind = .answer ∧
        (offers = [] → reply.answers = [record]) ∧
        (offers ≠ [] → 1 ≤ reply.answers.length ∧ reply.answers.length ≤ 8 ∧
          (∀ r ∈ reply.answers, r.name = q ∧ r.dnsClass = .IN ∧ r.data.recordType = .PTR ∧
            30 ≤ r.ttl ∧ r.ttl ≤ 3600) ∧
          reply.answers.map Record.data = (offers.take 8).map fun offer => .ptr offer.2)) ∧
      ∀ lookup lookup' : IpAddr → LookupOutcome,
        (lookup addr).offers up = (lookup' addr).offers up →
          decide zones lookup q t cl = decide zones lookup' q t cl := by
  cases hask : decideAsking zones q t cl with
  | settled reply =>
    left
    refine ⟨reply, rfl, fun lookup => ?_⟩
    rw [decide_eq_run, hask, Deciding.run]
  | ask addr k =>
    right
    obtain ⟨rfl, z, hz, hzup, a, hq, hin, record, hrec, hk⟩ := decideAsking_eq_ask hask
    obtain ⟨up, hup, hlabels⟩ := upstreamQname_reverse hq
    have hreply : ∀ lookup, decide zones lookup q .PTR cl =
        let relay := (((lookup addr).offers up).take maxRelayedRecords).map (relayed q)
        ⟨.noError, true, if relay.isEmpty then [record] else relay, [], .answer⟩ := by
      intro lookup
      rw [decide_eq_run, hask, Deciding.run, hk, lookupPtr_eq hup]
      apply recordsReply_of_ne_nil
      split
      · simp
      · rename_i hne
        simpa using hne
    refine ⟨addr, k, rfl, rfl, z, hz, hzup, a, (ptrNameToAddr_eq_some_iff q a).mpr hq, hin, record,
      hrec, up, hup, hlabels, ?_, ?_⟩
    · intro lookup
      rw [hreply lookup]
      refine ⟨rfl, rfl, rfl, rfl, ?_, ?_⟩
      · intro hnone
        simp [hnone]
      · intro hsome
        have hne : (((lookup addr).offers up).take maxRelayedRecords).map (relayed q) ≠ [] := by
          simp [hsome, maxRelayedRecords]
        simp only [List.isEmpty_eq_false_iff.mpr hne, Bool.false_eq_true, if_false]
        refine ⟨List.length_pos_iff.mpr hne, ?_, fun r hr => mem_map_relayed hr, ?_⟩
        · simp [maxRelayedRecords]
        · rw [List.map_map]
          rfl
    · intro lookup lookup' hsame
      rw [hreply, hreply, hsame]

-- of a record for another owner and one with a short TTL, the second is relayed, for 30 seconds
example :
    let up := (upstreamQname sampleReverse).getD Name.root
    let answers := [.fromRData sampleName 60 (.ptr sampleName), .fromRData up 5 (.ptr sampleParent)]
    decide sampleZones (fun _ => .found answers) sampleReverse .PTR .IN =
      ⟨.noError, true, [.fromRData sampleReverse 30 (.ptr sampleParent)], [], .answer⟩ := by
  decide +kernel

end PanoptiDns
