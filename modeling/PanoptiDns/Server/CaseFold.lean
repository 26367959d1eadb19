import PanoptiDns.Server.Relay

set_option relaxedAutoImplicit false
set_option autoImplicit false

/-!
# The case of a query

A resolver may ask in any case, and some ask in a random one. The name of a query is compared with
apexes and literal labels, decoded as nibbles and as digits, appended to for the upstream; in each
place only its folded labels count. What the case does change is the owner of the records, which
is the name as it was asked.

## Main definitions

* `Record.under`, `Reply.under` — records under another owner.

## Main results

* `resolve_under`, `answerReply_under` — the two halves of a reply, under another spelling.
* `decide_caseFold` — two spellings of a name get the same reply, each under its own.
-/

namespace PanoptiDns

open Bytes

/-- The record under another owner. -/
def Record.under (q : Name) (record : Record) : Record := { record with name := q }

/-- The outcome with its records under another owner. -/
def Outcome.under (q : Name) : Outcome → Outcome
  | .answer zone records => .answer zone (records.map (Record.under q))
  | .noName zone => .noName zone
  | .noZone => .noZone

/-- The reply with its answers under another owner. -/
def Reply.under (q : Name) (reply : Reply) : Reply :=
  { reply with answers := reply.answers.map (Record.under q) }

section Spellings

variable {q₁ q₂ : Name} (hq : q₁.key = q₂.key)

include hq

/-! ## Names -/

/-- Both start with `*`, or neither does. -/
lemma head_eq_star_congr :
    q₁.labels.head? = some Name.star ↔ q₂.labels.head? = some Name.star := by
  have hstar : ∀ q : Name, q.labels.head? = some Name.star ↔ q.key.head? = some Name.star := by
    intro q
    rw [Name.key, List.head?_map, Option.map_eq_some_iff]
    constructor
    · intro h
      exact ⟨_, h, by decide⟩
    · rintro ⟨s, hs, hlow⟩
      rw [hs, eq_star_of_lower (hlow.trans (by decide))]
  rw [hstar, hstar, hq]

/-- The templates are compared with the same labels. -/
lemma counted_congr : q₁.counted = q₂.counted := by
  unfold Name.counted
  rw [hq]
  simp only [head_eq_star_congr hq]

/-- The names are under the same apexes. -/
lemma zoneOf_congr (apex : Name) : apex.zoneOf q₁ = apex.zoneOf q₂ := by
  unfold Name.zoneOf
  rw [hq]

/-- They are the same apex, if any. -/
lemma sameName_congr (apex : Name) : apex.sameName q₁ = apex.sameName q₂ := by
  unfold Name.sameName
  rw [hq]

/-! ## Lookups -/

/-- The reverse scan finds the same address. -/
lemma matchPtr_congr (c : Config) : matchPtr c q₁ = matchPtr c q₂ := by
  ext ⟨z, a⟩
  rw [matchPtr_eq_some_iff, matchPtr_eq_some_iff, hq]

/-- So does the forward scan. -/
lemma matchForward_congr {c : Config} (hc : c.Wf) : matchForward c q₁ = matchForward c q₂ := by
  ext ⟨z, a⟩
  rw [matchForward_eq_some_iff hc, matchForward_eq_some_iff hc, counted_congr hq]

/-- The same zone contains them. -/
lemma zoneContaining_congr (c : Config) : zoneContaining c q₁ = zoneContaining c q₂ := by
  unfold zoneContaining
  simp only [zoneOf_congr hq]

omit hq in
/-- A synthesized record is under the name that was asked. -/
lemma ptrRecord_under (z : Zone) (q q' : Name) (a : U128) :
    (ptrRecord z q a).toList.map (Record.under q') = (ptrRecord z q' a).toList := by
  unfold ptrRecord
  cases forwardName z a with
  | none => rfl
  | some n => rfl

/-- **Resolution, under another spelling.** -/
lemma resolve_under {c : Config} (hc : c.Wf) (t : RecordType) :
    resolve c q₂ t = (resolve c q₁ t).under q₂ := by
  unfold resolve resolveForward
  rw [matchPtr_congr hq, matchForward_congr hq hc, zoneContaining_congr hq]
  cases (if reverseHasType t then matchPtr c q₂ else none) with
  | some m => exact congrArg (Outcome.answer m.1) (ptrRecord_under m.1 q₁ q₂ m.2).symm
  | none =>
    cases matchForward c q₂ with
    | some m =>
      simp only [Outcome.under]
      split <;> rfl
    | none => cases zoneContaining c q₂ <;> rfl

/-! ## The upstream -/

/-- The two names an upstream is asked for are the same. -/
lemma upstreamQname_congr : (upstreamQname q₁).map Name.key = (upstreamQname q₂).map Name.key := by
  have hlens : (q₁.labels ++ [upstreamLabel]).map List.length =
      (q₂.labels ++ [upstreamLabel]).map List.length := by
    rw [List.map_append, List.map_append, Name.map_length_labels, Name.map_length_labels, hq]
  unfold upstreamQname Name.fromLabels
  by_cases hvalid : ValidLabels (q₁.labels ++ [upstreamLabel])
  · rw [dif_pos hvalid, dif_pos ((validLabels_of_lengths hlens).mp hvalid)]
    simp only [Except.toOption, Option.map_some, Name.key, List.map_append]
    exact congrArg (fun key => some (key ++ _)) hq
  · rw [dif_neg hvalid, dif_neg (fun h => hvalid ((validLabels_of_lengths hlens).mpr h))]
    rfl

/-- What an upstream offers is under the name that was asked. -/
lemma lookupPtr_under (outcome : LookupOutcome) :
    lookupPtr q₂ outcome = (lookupPtr q₁ outcome).map (Record.under q₂) := by
  cases outcome with
  | found answers =>
    have hup := upstreamQname_congr hq
    simp only [lookupPtr]
    cases h₁ : upstreamQname q₁ with
    | none =>
      rw [h₁, Option.map_none, eq_comm, Option.map_eq_none_iff] at hup
      rw [hup]
      rfl
    | some up₁ =>
      rw [h₁, Option.map_some, eq_comm, Option.map_eq_some_iff] at hup
      obtain ⟨up₂, h₂, hkey⟩ := hup
      have hoffer : Record.offer up₂ = Record.offer up₁ := by
        funext record
        unfold Record.offer
        rw [sameName_congr hkey]
      simp only [h₂, filterUpstream_eq, hoffer, List.map_map]
      rfl
  | _ => rfl

/-! ## Replies -/

/-- NODATA comes with the same SOA. -/
lemma negativeAuthority_congr (c : Config) (kind : Kind) :
    negativeAuthority c q₁ kind = negativeAuthority c q₂ kind := by
  unfold negativeAuthority
  simp only [zoneOf_congr hq]

/-- **An answer, under another spelling.** -/
lemma answerReply_under (zones : Zones) (lookup : IpAddr → LookupOutcome) (t : RecordType)
    (z : Zone) (records : List Record) :
    answerReply zones lookup q₂ t z (records.map (Record.under q₂)) =
      (answerReply zones lookup q₁ t z records).under q₂ := by
  have hempty : ∀ records : List Record,
      (records.map (Record.under q₂)).isEmpty = records.isEmpty := by
    intro records
    cases records <;> rfl
  have hreply : ∀ records : List Record,
      recordsReply zones.config q₂ (records.map (Record.under q₂)) =
        (recordsReply zones.config q₁ records).under q₂ := by
    intro records
    simp only [recordsReply, kindOf, Reply.under, hempty, negativeAuthority_congr hq]
  rw [answerReply_eq_run, answerReply_eq_run]
  unfold answerAsking
  rw [hempty]
  split
  · split
    · split
      · simp only [Deciding.run, lookupPtr_under hq, hempty, ← hreply]
        split <;> rfl
      · exact hreply records
    · exact hreply records
  · exact hreply records

/-- A name that is no apex, for the type, gets the same reply under its own spelling. -/
lemma decideName_under {zones : Zones} (hc : zones.config.Wf) (lookup : IpAddr → LookupOutcome)
    {t : RecordType}
    (hnone : (if apexHasType t then zones.config.apexes.find? (·.sameName q₁) else none) = none) :
    decideName zones lookup q₂ t = (decideName zones lookup q₁ t).under q₂ := by
  unfold decideName
  simp only [← sameName_congr hq, resolve_under hq hc, hnone]
  cases resolve zones.config q₁ t with
  | answer z records => exact answerReply_under hq zones lookup t z records
  | noName z =>
    simp only [Outcome.under, noNameReply, zoneOf_congr hq]
    rfl
  | noZone => cases zones.config.params.outOfZone <;> rfl

end Spellings

/-- What a record says apart from its owner. -/
def Record.content (record : Record) : DNSClass × RecordType × ℕ × RData :=
  (record.dnsClass, record.data.recordType, record.ttl, record.data)

/-- The apex that is found is one of the configuration's, and the name is its. -/
lemma of_apexStep {c : Config} {q apex : Name} {t : RecordType}
    (h : (if apexHasType t then c.apexes.find? (·.sameName q) else none) = some apex) :
    apex ∈ c.apexes ∧ apex.key = q.key := by
  split at h
  · have hsame := List.find?_some (p := fun apex : Name => apex.sameName q) h
    exact ⟨List.mem_of_find?_eq_some h, (Name.sameName_iff _ _).mp hsame⟩
  · cases h

/-- The records of an apex are under the apex. -/
lemma name_of_mem_apexReply {c : Config} {apex : Name} {t : RecordType} {r : Record}
    (h : r ∈ (apexReply c apex t).answers) : r.name = apex := by
  simp only [apexReply, List.mem_append] at h
  rcases h with h | h
  · split at h
    · rw [Option.mem_toList, Option.map_eq_some_iff] at h
      obtain ⟨soa, -, rfl⟩ := h
      rfl
    · simp at h
  · split at h
    · obtain ⟨ns, -, rfl⟩ := List.mem_map.mp h
      rfl
    · simp at h

/-- **Answers do not depend on the case of the query.** Two spellings of a name get the same code,
flag, budget and authority section, and the same records in the same order: those of an apex, or
each under its own spelling.

**Proof sketch.** `decideName_under` relates the two replies. A reply is related to itself too,
which says that the records are under the name that was asked. -/
theorem decide_caseFold {hk : Hickory} {input : Bytes} {zones : Zones}
    (h : Config.parse hk input = .ok zones.config) {q₁ q₂ : Name}
    (hq : q₁.labels.map lower = q₂.labels.map lower) (lookup : IpAddr → LookupOutcome)
    (t : RecordType) (cl : DNSClass) :
    let r₁ := decide zones lookup q₁ t cl
    let r₂ := decide zones lookup q₂ t cl
    r₁.code = r₂.code ∧ r₁.authoritative = r₂.authoritative ∧ r₁.kind = r₂.kind ∧
    r₁.authority = r₂.authority ∧
    r₁.answers.map Record.content = r₂.answers.map Record.content ∧
    (((∀ r ∈ r₁.answers, r.name = q₁) ∧ ∀ r ∈ r₂.answers, r.name = q₂) ∨
      ∃ apex ∈ zones.config.apexes, apex.key = q₁.key ∧
        (∀ r ∈ r₁.answers, r.name = apex) ∧ ∀ r ∈ r₂.answers, r.name = apex) := by
  have hc := parse_wf h
  unfold decide
  split
  · simp [Reply.refused, Reply.error]
  split
  · simp [Reply.refused, Reply.error]
  cases hfind : (if apexHasType t then zones.config.apexes.find? (·.sameName q₁) else none) with
  | some apex =>
    have hreply : ∀ q : Name, q₁.key = q.key →
        decideName zones lookup q t = apexReply zones.config apex t := by
      intro q hsame
      unfold decideName
      simp only [← sameName_congr hsame, hfind]
    obtain ⟨hmem, hkey⟩ := of_apexStep hfind
    rw [hreply q₁ rfl, hreply q₂ hq]
    refine ⟨rfl, rfl, rfl, rfl, rfl, .inr ⟨apex, hmem, hkey, ?_, ?_⟩⟩
    · exact fun r => name_of_mem_apexReply
    · exact fun r => name_of_mem_apexReply
  | none =>
    have howner : ∀ q : Name, q₁.key = q.key →
        ∀ r ∈ (decideName zones lookup q t).answers, r.name = q := by
      intro q hsame r hr
      rw [decideName_under hsame hc lookup hfind] at hr
      obtain ⟨r', -, rfl⟩ := List.mem_map.mp hr
      rfl
    have hcontent : ((decideName zones lookup q₁ t).under q₂).answers.map Record.content =
        (decideName zones lookup q₁ t).answers.map Record.content := by
      simp [Reply.under, Record.under, Record.content, Function.comp_def]
    have howner₂ := howner q₂ hq
    rw [decideName_under hq hc lookup hfind] at howner₂ ⊢
    exact ⟨rfl, rfl, rfl, rfl, hcontent.symm, .inl ⟨howner q₁ rfl, howner₂⟩⟩

/-- The reverse name of the sample, in capitals. -/
def shoutedReverse : Name :=
  ⟨sampleReverse.labels.map (List.map fun b => if 97 ≤ b ∧ b ≤ 122 then b - 32 else b), by decide⟩

/-- A reverse name in capitals has the PTR record of the name in lowercase. -/
theorem decide_caseFold_sampleReverse :
    shoutedReverse ≠ sampleReverse ∧
      (decide sampleZones (fun _ => .failed) sampleReverse .PTR .IN).answers.map Record.content =
        (decide sampleZones (fun _ => .failed) shoutedReverse .PTR .IN).answers.map
          Record.content := by
  have hparse := parse_sampleZones
  have hsame : sampleReverse.labels.map lower = shoutedReverse.labels.map lower := by
    decide +kernel
  obtain ⟨-, -, -, -, hcontent, -⟩ := decide_caseFold hparse hsame (fun _ => .failed) .PTR .IN
  exact ⟨by decide +kernel, hcontent⟩

end PanoptiDns
