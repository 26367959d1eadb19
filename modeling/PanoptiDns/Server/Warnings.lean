import PanoptiDns.Rrl.Rate
import PanoptiDns.Server.Negative
import PanoptiDns.Server.Reload

set_option relaxedAutoImplicit false
set_option autoImplicit false

/-!
# Startup warnings

What the operator is told about a configuration that is accepted, and whether it is so. The two
warnings about answers hold of the replies to all queries, exactly if they are given, at startup
and after each reload. The warning about the limiter holds of all requests, exactly if it is given
at startup or the rate is beyond what the limiter can count: a reload leaves the limiter as it is,
whatever it says.

## Main definitions

* `Config.warnings` — the warnings.
* `Reply.Declines` — nothing is said and no authority is claimed.

## Main results

* `Rrl.unrestrained_iff` — which limiters hold nothing back.
* `warnings_exact` — the warnings about answers are given exactly if what they say is so, and that
  about the limiter but for absurd rates.
-/

namespace PanoptiDns

open Bytes

/-! ## The texts -/

/-- The warning on a configuration without a SOA. -/
def noSoaWarning : String :=
  "no `primary`/`hostmaster` configured: serving without apex SOA/NS records, " ++
    "so resolvers cannot cache negative answers (set both to fix)"

/-- The warning on a configuration without a limiter. -/
def noLimitWarning : String := "response rate limiting is disabled"

/-- The warning on a configuration without networks. -/
def noNetworkWarning : String := "no `network` configured: every query will be declined"

/-- Warnings that do not prevent startup but that the operator should see. -/
def Config.warnings (c : Config) : List String :=
  (if c.soa.isNone then [noSoaWarning] else []) ++
  (if !c.params.rrl.enabled then [noLimitWarning] else []) ++
  (if c.zones.isEmpty then [noNetworkWarning] else [])

namespace Config

variable {c : Config}

/-- The warning of a configuration without a SOA. -/
lemma noSoaWarning_mem_iff : noSoaWarning ∈ c.warnings ↔ c.soa = none := by
  have h₁ : noSoaWarning ≠ noLimitWarning := by decide
  have h₂ : noSoaWarning ≠ noNetworkWarning := by decide
  simp [warnings, h₁, h₂, apply_ite (noSoaWarning ∈ ·)]

/-- The warning of one without a limiter. -/
lemma noLimitWarning_mem_iff : noLimitWarning ∈ c.warnings ↔ c.params.rrl.enabled = false := by
  have h₁ : noLimitWarning ≠ noSoaWarning := by decide
  have h₂ : noLimitWarning ≠ noNetworkWarning := by decide
  simp [warnings, h₁, h₂, apply_ite (noLimitWarning ∈ ·)]

/-- The warning of one without networks. -/
lemma noNetworkWarning_mem_iff : noNetworkWarning ∈ c.warnings ↔ c.zones = [] := by
  have h₁ : noNetworkWarning ≠ noSoaWarning := by decide
  have h₂ : noNetworkWarning ≠ noLimitWarning := by decide
  simp [warnings, h₁, h₂, apply_ite (noNetworkWarning ∈ ·)]

end Config

/-! ## What is answered -/

/-- **A reply that declines**: nothing is said and no authority is claimed. -/
structure Reply.Declines (reply : Reply) : Prop where
  code : reply.code = .refused ∨ reply.code = .nxDomain
  answers : reply.answers = []
  authority : reply.authority = []
  authoritative : reply.authoritative = false

section Replies

variable {zones : Zones} {lookup : IpAddr → LookupOutcome} {q : Name} {t : RecordType}
  {cl : DNSClass}

/-- A refusal declines. -/
lemma Reply.refused_declines : Reply.refused.Declines := ⟨.inl rfl, rfl, rfl, rfl⟩

/-- Without networks, every query is declined. -/
lemma decide_declines (hc : zones.config.Wf) (hzones : zones.config.zones = []) :
    (decide zones lookup q t cl).Declines := by
  by_cases hserved : (cl = .IN ∨ cl = .ANY) ∧ t.isQuery
  · obtain ⟨hcl, ht⟩ := hserved
    have hnone : ∀ z, z ∉ zones.config.zones := by simp [hzones]
    have hnoapex : (if apexHasType t then zones.config.apexes.find? (·.sameName q) else none) =
        none := by
      rw [← Option.not_isSome_iff_eq_none, apexStep_isSome_iff]
      rintro ⟨-, z, hz, -⟩
      exact hnone z hz
    have hnozone : resolve zones.config q t = .noZone := by
      refine (resolve_eq_noZone_iff hc).mpr ⟨fun _ => ?_, ?_, ?_⟩
      all_goals
        rintro ⟨z, hz, -⟩
        exact hnone z hz
    unfold decide decideName
    rw [if_neg (by rcases hcl with rfl | rfl <;> simp), if_neg (by simp [ht.1, ht.2])]
    simp only [hnoapex, hnozone]
    cases zones.config.params.outOfZone with
    | refused => exact Reply.refused_declines
    | nxDomain => exact ⟨.inr rfl, rfl, rfl, rfl⟩
  · rw [decide_eq_refused hserved]
    exact Reply.refused_declines

/-- The origin of a network has a reply that claims authority. -/
lemma authoritative_ptrZone {z : Zone} (hz : z ∈ zones.config.zones) :
    (decide zones lookup z.ptrZone .SOA .IN).authoritative = true := by
  have hsome : (if apexHasType .SOA then zones.config.apexes.find? (·.sameName z.ptrZone)
      else none).isSome = true :=
    apexStep_isSome_iff.mpr ⟨rfl, z, hz, .inl rfl⟩
  obtain ⟨apex, hapex⟩ := Option.isSome_iff_exists.mp hsome
  unfold decide decideName
  rw [if_neg (by simp), if_neg (by simp)]
  simp only [hapex]
  rfl

/-- Without a SOA, no reply has an authority section. -/
lemma authority_eq_nil (hsoa : zones.config.soa = none) :
    (decide zones lookup q t cl).authority = [] := by
  unfold decide decideName
  split
  · rfl
  split
  · rfl
  simp only
  split
  · rfl
  split
  · simp only [answerReply, negativeAuthority, hsoa, ite_self]
  · simp only [noNameReply, hsoa]
    rfl
  · split
    · rfl
    · rfl

end Replies

/-! ## Who is held back -/

namespace Rrl

variable {G : Governor} {params : RrlParams}

/-- **A limiter holds nothing back**: a new one allows all it is asked for, in every run. -/
def Unrestrained (G : Governor) (params : RrlParams) : Prop :=
  ∀ run : List (ℕ × Action), InOrder run →
    ∀ d, some d ∈ Mealy.answers perform (new params : Rrl G) run → d = .allow

/-- A limiter that is off allows everything, and stays off. -/
lemma answers_of_disabled {rrl : Rrl G} (hoff : rrl.params.enabled = false)
    (run : List (ℕ × Action)) {d : Decision} (hd : some d ∈ Mealy.answers perform rrl run) :
    d = .allow := by
  induction run generalizing rrl with
  | nil => cases hd
  | cons a run ih =>
    obtain ⟨now, a⟩ := a
    rw [Mealy.answers_cons, List.mem_cons] at hd
    cases a with
    | sweep =>
      rcases hd with hd | hd
      · cases hd
      · refine ih ?_ hd
        exact hoff
    | decide addr kind isTcp =>
      have hallow : rrl.decide now addr kind isTcp = (.allow, rrl) :=
        decide_of_unlimited rrl now addr kind (.inl hoff)
      simp only [perform, hallow] at hd
      rcases hd with hd | hd
      · exact Option.some.inj hd
      · exact ih hoff hd

/-- A call for a response with records, from one client. -/
def floodCall : ℕ × Action := (0, .decide (.v4 0) .answer false)

/-- Calls that are all allowed are as many as there are. -/
lemma count_allowedSince_of_allow (params : RrlParams) {rrl : Rrl G} {run : List (ℕ × Action)}
    (hrun : ∀ a ∈ run, a = floodCall)
    (hall : ∀ d, some d ∈ Mealy.answers perform rrl run → d = .allow) :
    (allowedSince rrl params .answer (.v4 0) run).count true = run.length := by
  have hseen : (matches? params .answer (.v4 0) floodCall).isSome = true := by
    simp [matches?, floodCall, SamePrefix]
  have hvisited : ∀ v ∈ Mealy.visited perform rrl run, v.2 = floodCall := by
    intro v hv
    refine hrun _ ?_
    rw [← Mealy.map_snd_visited perform rrl run]
    exact List.mem_map_of_mem hv
  have hfilter : (Mealy.visited perform rrl run).filter
      (fun v => (matches? params .answer (.v4 0) v.2).isSome) = Mealy.visited perform rrl run := by
    refine List.filter_eq_self.mpr fun v hv => ?_
    rw [hvisited v hv, hseen]
  have hlength : (Mealy.visited perform rrl run).length = run.length := by
    rw [← List.length_map Prod.snd, Mealy.map_snd_visited]
  rw [← hlength, allowedSince, Mealy.answersSeen, hfilter, List.map_map, List.count_eq_length.mpr,
    List.length_map]
  intro b hb
  obtain ⟨v, hv, rfl⟩ := List.mem_map.mp hb
  have hanswer : (perform v.1 v.2).1 = some (v.1.decide 0 (.v4 0) .answer false).1 := by
    rw [hvisited v hv]
    rfl
  have hmem : (perform v.1 v.2).1 ∈ Mealy.answers perform rrl run := List.mem_map_of_mem hv
  rw [hanswer] at hmem
  have hallow : (perform v.1 v.2).1 = some .allow := by rw [hanswer, hall _ hmem]
  show true = ((perform v.1 v.2).1 == some .allow)
  rw [hallow]
  rfl

/-- **A limiter that is on refuses something**, if its interval is not nothing: enough calls at one
time from one client cannot all be allowed. -/
lemma not_unrestrained (K : G.PerKey) {interval tolerance : ℕ}
    (M : K.Metered (quota params) interval tolerance) (henabled : params.enabled = true)
    (hpos : 0 < interval) : ¬Unrestrained G params := by
  intro hall
  -- at one time, the intervals of the calls allowed fit into the tolerance and one interval
  let run := List.replicate (tolerance + interval + 1) floodCall
  have hrun : ∀ a ∈ run, a = floodCall := fun a => List.eq_of_mem_replicate
  have horder : InOrder ([] ++ run) := by
    simp [InOrder, run, List.pairwise_replicate]
  have hrate := allowed_rate K M henabled .answer (.v4 0) horder
    fun a ha => ⟨(hrun a ha ▸ le_rfl : 0 ≤ a.1), (hrun a ha ▸ le_rfl : a.1 ≤ 0)⟩
  have hcount := count_allowedSince_of_allow params hrun (hall run horder)
  rw [Mealy.final_nil, hcount, List.length_replicate] at hrate
  have hlt : tolerance + interval < (tolerance + interval + 1) * interval := by
    calc tolerance + interval < tolerance + interval + 1 := Nat.lt_succ_self _
      _ ≤ (tolerance + interval + 1) * interval := Nat.le_mul_of_pos_right _ hpos
  omega

/-- A call is one of its own client's. -/
lemma matches?_self (params : RrlParams) (now : ℕ) (addr : IpAddr) (kind : Kind) :
    (matches? params kind addr (now, .decide addr kind false)).isSome = true := by
  have hself : SamePrefix params.ipv4Prefix params.ipv6Prefix addr addr := by
    cases addr <;> exact fun _ _ => rfl
  simp [matches?, hself]

/-- **A limiter whose interval is nothing** refuses no one: all calls conform. -/
lemma unrestrained_of_interval_zero (K : G.PerKey) {tolerance : ℕ}
    (E : K.Exact (quota params) 0 tolerance) (henabled : params.enabled = true) :
    Unrestrained G params := by
  intro run horder d hd
  obtain ⟨v, hv, hanswer⟩ := List.mem_map.mp hd
  obtain ⟨rrl, now, a⟩ := v
  cases a with
  | sweep => cases hanswer
  | decide addr kind isTcp =>
    cases isTcp with
    | true =>
      rw [perform, decide_of_unlimited rrl now addr kind (.inr rfl)] at hanswer
      exact (Option.some.inj hanswer).symm
    | false =>
      have hconforms : CellRate.Conforms 0 tolerance (matched params kind addr run) := by
        intro window _ lo hi _
        rw [Nat.mul_zero]
        exact Nat.zero_le _
      have hall := (allowed_all_iff K E henabled kind addr horder).mpr hconforms
      have hmem : ((perform rrl (now, .decide addr kind false)).1 == some .allow) ∈
          allowed G params kind addr run :=
        List.mem_map_of_mem (List.mem_map.mpr
          ⟨_, List.mem_filter.mpr ⟨hv, matches?_self params now addr kind⟩, rfl⟩)
      have hallow := hall _ hmem
      rw [hanswer] at hallow
      exact Option.some.inj (eq_of_beq hallow)

/-- **A limiter holds nothing back** iff it is off, or its interval is nothing. -/
lemma unrestrained_iff (K : G.PerKey) {interval tolerance : ℕ}
    (E : K.Exact (quota params) interval tolerance) :
    Unrestrained G params ↔ params.enabled = false ∨ interval = 0 := by
  cases henabled : params.enabled with
  | false =>
    exact iff_of_true (fun run _ d => answers_of_disabled henabled run) (.inl rfl)
  | true =>
    rcases Nat.eq_zero_or_pos interval with rfl | hpos
    · exact iff_of_true (unrestrained_of_interval_zero K E henabled) (.inr rfl)
    · have hrefuses := not_unrestrained K ⟨E.cell.toMeter, E.inv_keyed⟩ henabled hpos
      refine iff_of_false hrefuses ?_
      rintro (hoff | hzero)
      · cases hoff
      · exact absurd hzero hpos.ne'

/-- The interval of an accepted rate is nothing iff there are more responses to a second than
nanoseconds. -/
lemma interval_eq_zero_iff {params : RrlParams} (hrate : 1 ≤ params.responsesPerSecond) :
    10 ^ 9 / (quota params).1 = 0 ↔ 10 ^ 9 < params.responsesPerSecond := by
  have hquota : (quota params).1 = params.responsesPerSecond := by
    unfold quota
    exact if_neg (by omega)
  rw [hquota, Nat.div_eq_zero_iff]
  omega

end Rrl

/-! ## The server -/

/-- What is loaded was parsed. -/
lemma wf_of_loadConfig {hk : Hickory} {file : Except Bytes Bytes} {c : Config}
    (h : loadConfig hk file = .ok c) : c.Wf := by
  unfold loadConfig at h
  split at h
  · cases h
  split at h
  · cases h
  split at h
  · rename_i hparse
    obtain rfl := Except.ok.inj h
    exact parse_wf hparse
  · cases h

/-- So was every good configuration of a run. -/
lemma wf_lastGood {hk : Hickory} {c : Config} (hc : c.Wf) (moves : List Move) :
    (lastGood hk c moves).Wf := by
  induction moves generalizing c with
  | nil => exact hc
  | cons m moves ih =>
    refine ih ?_
    cases m with
    | act action => exact hc
    | hangup file newUpstream =>
      simp only [goodAfter]
      split
      · rename_i zones clients hload
        exact wf_of_loadConfig (loadZones_eq_ok hload).1
      · exact hc

/-- **Warnings are exact.** After any run of SIGHUPs and requests, the last configuration that was
loaded was warned to be without networks iff every query is declined, and to be without networks or
without a SOA iff no reply has an authority section that would let a negative answer be cached. A
limiter with the settings in force holds nothing back iff the configuration of the start was warned
to be without one, or sets a rate of more responses to a second than there are nanoseconds in it:
the limiter counts in whole nanoseconds between two responses, and no one is warned of that. -/
theorem warnings_exact {G : Governor} (K : G.PerKey) {hk : Hickory}
    {newUpstream : IpAddr → (timeout : ℕ) → Except Bytes Unit} {file : Except Bytes Bytes}
    {boot : Config} {s₀ s : Serving G} {moves : List Move} (hboot : loadConfig hk file = .ok boot)
    (hstart : Serving.start hk newUpstream file = .ok s₀)
    (hexec : Run.exec (Serving.step hk) s₀ moves = some s)
    (E : K.Exact (Rrl.quota boot.params.rrl) (10 ^ 9 / (Rrl.quota boot.params.rrl).1)
      (10 ^ 9 / (Rrl.quota boot.params.rrl).1 * ((Rrl.quota boot.params.rrl).2 - 1))) :
    (noNetworkWarning ∈ (lastGood hk boot moves).warnings ↔
      ∀ lookup q t cl, (decide s.system.zones lookup q t cl).Declines) ∧
    (noSoaWarning ∈ (lastGood hk boot moves).warnings ∨
        noNetworkWarning ∈ (lastGood hk boot moves).warnings ↔
      ∀ lookup q t cl, (decide s.system.zones lookup q t cl).authority = []) ∧
    (Rrl.Unrestrained G s.system.rrl.params ↔
      noLimitWarning ∈ boot.warnings ∨ 10 ^ 9 < boot.params.rrl.responsesPerSecond) := by
  have hfollows := Serving.exec_follows (Serving.start_follows hstart hboot) hexec
  have hwf : s.system.zones.config.Wf := by
    rw [hfollows.config]
    exact wf_lastGood (wf_of_loadConfig hboot) moves
  rw [← hfollows.config, hfollows.rrl, Config.noNetworkWarning_mem_iff,
    Config.noSoaWarning_mem_iff, Config.noLimitWarning_mem_iff, Rrl.unrestrained_iff K E,
    Rrl.interval_eq_zero_iff (wf_of_loadConfig hboot).params.rate_pos]
  refine ⟨⟨fun hzones lookup q t cl => decide_declines hwf hzones, fun hall => ?_⟩,
    ⟨?_, fun hall => ?_⟩, Iff.rfl⟩
  · by_contra hzones
    obtain ⟨z, hz⟩ := List.exists_mem_of_ne_nil _ hzones
    have hclaims : (decide s.system.zones (fun _ => .failed) z.ptrZone .SOA .IN).authoritative =
        true := authoritative_ptrZone hz
    rw [(hall (fun _ => .failed) z.ptrZone .SOA .IN).authoritative] at hclaims
    cases hclaims
  · rintro (hsoa | hzones) lookup q t cl
    · exact authority_eq_nil hsoa
    · exact (decide_declines hwf hzones).authority
  · by_contra hnone
    obtain ⟨hsoa, hzones⟩ := not_or.mp hnone
    obtain ⟨z, hz⟩ := List.exists_mem_of_ne_nil _ hzones
    have hcovers : s.system.zones.config.Covers z.ptrZone :=
      ⟨z, hz, .inl ((Name.zoneOf_iff ..).mpr List.suffix_rfl)⟩
    obtain ⟨record, hrecord, -⟩ := exists_authority hwf (Option.isSome_iff_ne_none.mpr hsoa)
      (fun _ => .failed) hcovers
    rw [hall (fun _ => .failed) z.ptrZone .A .IN] at hrecord
    cases hrecord

/-- After a reload of a file with `rrl off` alone, the server declines all queries and goes on
limiting, though it was warned that it does not. -/
theorem warnings_exact_unlimitedInput :
    ∃ s : Serving Rrl.tokenBuckets,
      Run.exec (Serving.step namelessHickory) sampleServing [hangup unlimitedInput] = some s ∧
        noLimitWarning ∈ (lastGood namelessHickory (parsed sampleInput)
          [hangup unlimitedInput]).warnings ∧
        (∀ lookup q t cl, (decide s.system.zones lookup q t cl).Declines) ∧
        ¬Rrl.Unrestrained Rrl.tokenBuckets s.system.rrl.params := by
  have hsome : (Run.exec (Serving.step namelessHickory) sampleServing
      [hangup unlimitedInput]).isSome = true := by
    decide +kernel
  obtain ⟨s, hs⟩ := Option.isSome_iff_exists.mp hsome
  obtain ⟨hnetwork, -, hlimit⟩ := warnings_exact Rrl.tokenBuckets_perKey loadConfig_sampleInput
    start_sampleServing hs (Rrl.tokenBuckets_exact _)
  refine ⟨s, hs, Config.noLimitWarning_mem_iff.mpr (by decide +kernel), ?_, ?_⟩
  · exact hnetwork.mp (Config.noNetworkWarning_mem_iff.mpr (by decide +kernel))
  · rw [hlimit, Config.noLimitWarning_mem_iff]
    decide +kernel

end PanoptiDns
