import Mathlib.Data.Set.Card
import Mathlib.Data.List.Induction
import PanoptiDns.Rrl.Rate

set_option relaxedAutoImplicit false
set_option autoImplicit false

/-!
# The memory of the limiter

The keyed store of the limiter gets a bucket for each client that asks, and loses one only in a
sweep, which the server takes on a timer. This file bounds the buckets by the requests: each of them
is that of a client that has asked since the last sweep, or shortly enough before it that the bucket
was not full again.

## Main definitions

* `Governor.PerKey.Exact.Store` — which buckets the keyed limiter stores.
* `Rrl.tracked` — how many buckets the limiter stores.

## Main results

* `Rrl.tracked_le` — no more buckets are stored than there were requests lately.
-/

namespace PanoptiDns

variable {G : Governor}

/-- **What the keyed limiter stores**: a check adds the bucket of its key, and a sweep keeps only
the buckets that are not full. -/
structure Governor.PerKey.Exact.Store {K : G.PerKey} {quota : ℕ × ℕ} {interval tolerance : ℕ}
    (E : K.Exact quota interval tolerance) where
  keys : G.State → Set ClientKey
  keys_keyed : ∀ rate burst, keys (G.keyed rate burst) = ∅
  keys_checkKey : ∀ s now key, K.Valid s → keys (G.checkKey s now key).2 ⊆ insert key (keys s)
  keys_retainRecent : ∀ s now key, K.Valid s → key ∈ keys (G.retainRecent s now) →
    key ∈ keys s ∧ now < E.cell.arrival (K.cell s key)
  inv_fresh : ∀ c, E.cell.inv c → E.cell.inv (K.fresh c)
  arrival_fresh : ∀ c, E.cell.inv c → E.cell.arrival (K.fresh c) ≤ E.cell.arrival c

namespace Rrl

/-- The budget and the key that a call checks. -/
def checked? (params : RrlParams) : ℕ × Action → Option (Kind × ClientKey)
  | (_, .decide addr kind isTcp) => if isTcp then none else some (kind, key params addr)
  | (_, .sweep) => none

/-- What an action does to the budgets: a sweep, one check, or nothing. -/
lemma perform_cases {params : RrlParams} {rrl : Rrl G} (hparams : rrl.params = params)
    (henabled : params.enabled = true) (a : ℕ × Action) :
    (a.2 = .sweep ∧ ∀ kind, (perform rrl a).2.budget kind = G.retainRecent (rrl.budget kind) a.1) ∨
    (∃ kind k, checked? params a = some (kind, k) ∧ ∀ kind', (perform rrl a).2.budget kind' =
      if kind' = kind then (G.checkKey (rrl.budget kind) a.1 k).2 else rrl.budget kind') ∨
    (a.2 ≠ .sweep ∧ (perform rrl a).2 = rrl) := by
  obtain ⟨now, a⟩ := a
  subst hparams
  cases a with
  | sweep => exact .inl ⟨rfl, fun kind => budget_sweep rrl now kind⟩
  | decide addr kind isTcp =>
    right
    rcases perform_decide_cases rrl now addr kind isTcp with ⟨rfl, h⟩ | ⟨rfl, h⟩
    · exact .inr ⟨by simp, by rw [h]⟩
    · refine .inl ⟨kind, key rrl.params addr, rfl, ?_⟩
      rw [h]
      exact (decide_spec rrl now addr kind henabled).2.2

section Store

variable {K : G.PerKey} {params : RrlParams} {interval tolerance : ℕ}
  {E : K.Exact (quota params) interval tolerance} (S : E.Store)

/-- How many buckets are stored. -/
noncomputable def tracked (rrl : Rrl G) : ℕ :=
  (S.keys rrl.answers).ncard + (S.keys rrl.negatives).ncard

/-- **Every cell is as far ahead as its last grant put it**, if it is ahead at all. -/
def Accounted (E : K.Exact (quota params) interval tolerance) (run : List (ℕ × Action))
    (rrl : Rrl G) : Prop :=
  ∀ kind k, E.cell.inv (K.cell (rrl.budget kind) k) ∧
    (E.cell.arrival (K.cell (rrl.budget kind) k) = 0 ∨
      ∃ a ∈ run, checked? params a = some (kind, k) ∧
        E.cell.arrival (K.cell (rrl.budget kind) k) ≤ a.1 + tolerance + interval)

include S

/-- **One action** keeps the accounts. -/
lemma Accounted.perform {rrl : Rrl G} {run : List (ℕ × Action)} (henabled : params.enabled = true)
    (hkept : Kept K params rrl) (h : Accounted E run rrl) (a : ℕ × Action) :
    Accounted E (run ++ [a]) (perform rrl a).2 := by
  obtain ⟨hparams, hvalid⟩ := hkept
  -- a cell that is not further ahead than it was
  have hkeep : ∀ {kind k c}, E.cell.inv c →
      E.cell.arrival c ≤ E.cell.arrival (K.cell (rrl.budget kind) k) →
      E.cell.inv c ∧ (E.cell.arrival c = 0 ∨ ∃ a' ∈ run ++ [a],
        checked? params a' = some (kind, k) ∧ E.cell.arrival c ≤ a'.1 + tolerance + interval) := by
    intro kind k c hinv hle
    refine ⟨hinv, (h kind k).2.imp (fun hzero => by omega) ?_⟩
    rintro ⟨a', ha', hcheck, hahead⟩
    exact ⟨a', List.mem_append_left _ ha', hcheck, hle.trans hahead⟩
  intro kind k
  rcases perform_cases hparams henabled a with
    ⟨-, hbudget⟩ | ⟨kind₀, k₀, hcheck, hbudget⟩ | ⟨-, hsame⟩
  · rw [hbudget]
    rcases K.retainRecent_cell (rrl.budget kind) a.1 k (hvalid kind) with hcell | ⟨hcell, -⟩
    · rw [hcell]
      exact hkeep (h kind k).1 le_rfl
    · rw [hcell]
      exact hkeep (S.inv_fresh _ (h kind k).1) (S.arrival_fresh _ (h kind k).1)
  · rw [hbudget]
    split_ifs with hkind
    · subst hkind
      by_cases hk : k = k₀
      · subst hk
        rw [(K.checkKey_self _ a.1 k (hvalid kind)).2]
        have hinv := E.cell.inv_step _ a.1 (h kind k).1
        rcases E.cell.arrival_step_le (h kind k).1 a.1 with hle | hle
        · exact hkeep hinv hle
        · exact ⟨hinv, .inr ⟨a, by simp, hcheck, hle⟩⟩
      · rw [K.checkKey_other _ a.1 _ _ (hvalid kind) hk]
        exact hkeep (h kind k).1 le_rfl
    · exact hkeep (h kind k).1 le_rfl
  · rw [hsame]
    exact hkeep (h kind k).1 le_rfl

/-- **One action** stores at most the bucket it checks. -/
lemma keys_perform {rrl : Rrl G} (henabled : params.enabled = true) (hkept : Kept K params rrl)
    (a : ℕ × Action) {kind : Kind} {k : ClientKey}
    (hk : k ∈ S.keys ((perform rrl a).2.budget kind)) :
    k ∈ S.keys (rrl.budget kind) ∨ checked? params a = some (kind, k) := by
  obtain ⟨hparams, hvalid⟩ := hkept
  rcases perform_cases hparams henabled a with
    ⟨-, hbudget⟩ | ⟨kind₀, k₀, hcheck, hbudget⟩ | ⟨-, hsame⟩
  · rw [hbudget] at hk
    exact .inl (S.keys_retainRecent _ _ k (hvalid kind) hk).1
  · rw [hbudget] at hk
    split_ifs at hk with hkind
    · subst hkind
      rcases S.keys_checkKey _ _ k₀ (hvalid kind) hk with rfl | hold
      · exact .inr hcheck
      · exact .inl hold
    · exact .inl hk
  · rw [hsame] at hk
    exact .inl hk

/-- **A run** from a new limiter keeps the accounts. -/
lemma accounted_of_run (henabled : params.enabled = true) (run : List (ℕ × Action)) :
    Kept K params (Mealy.final perform (new params : Rrl G) run) ∧
      Accounted E run (Mealy.final perform (new params : Rrl G) run) := by
  induction run using List.reverseRecOn with
  | nil =>
    refine ⟨kept_new K, fun kind k => ?_⟩
    cases kind <;> exact ⟨E.inv_keyed k, .inl (E.idle_keyed k)⟩
  | append_singleton run a ih =>
    obtain ⟨hkept, haccounted⟩ := ih
    rw [Mealy.final_append, Mealy.final_cons, Mealy.final_nil]
    exact ⟨kept_perform K a henabled hkept, haccounted.perform S henabled hkept a⟩

/-- **A stretch of a run** stores at most the buckets it checks. -/
lemma keys_of_run (henabled : params.enabled = true) {rrl : Rrl G} (hkept : Kept K params rrl)
    {run : List (ℕ × Action)} {kind : Kind} {k : ClientKey}
    (hk : k ∈ S.keys ((Mealy.final perform rrl run).budget kind)) :
    k ∈ S.keys (rrl.budget kind) ∨ ∃ a ∈ run, checked? params a = some (kind, k) := by
  induction run generalizing rrl with
  | nil => exact .inl hk
  | cons a run ih =>
    rcases ih (kept_perform K a henabled hkept) hk with hold | ⟨a', ha', hcheck⟩
    · exact (keys_perform S henabled hkept a hold).imp_right fun hcheck =>
        ⟨a, List.mem_cons_self, hcheck⟩
    · exact .inr ⟨a', List.mem_cons_of_mem _ ha', hcheck⟩

/-- The buckets of a kind are those of the calls of that kind that were made lately. -/
lemma stored_recently (henabled : params.enabled = true) {older newer : List (ℕ × Action)} {t : ℕ}
    {kind : Kind} {k : ClientKey} (hk : k ∈ S.keys ((Mealy.final perform (new params : Rrl G)
      (older ++ (t, .sweep) :: newer)).budget kind)) :
    ∃ a ∈ (older.filter fun a => t < a.1 + tolerance + interval) ++ newer,
      checked? params a = some (kind, k) := by
  obtain ⟨hkept, haccounted⟩ := accounted_of_run S henabled older
  rw [Mealy.final_append, Mealy.final_cons] at hk
  rcases keys_of_run S henabled (kept_perform K _ henabled hkept) hk with hswept | ⟨a, ha, hcheck⟩
  · rw [perform, budget_sweep] at hswept
    obtain ⟨-, hlate⟩ := S.keys_retainRecent _ t k (hkept.2 kind) hswept
    rcases (haccounted kind k).2 with hzero | ⟨a, ha, hcheck, hahead⟩
    · rw [hzero] at hlate
      cases hlate
    · refine ⟨a, List.mem_append_left _ (List.mem_filter.mpr ⟨ha, ?_⟩), hcheck⟩
      exact decide_eq_true (hlate.trans_le hahead)
  · exact ⟨a, List.mem_append_right _ ha, hcheck⟩

/-- **The memory of the limiter is bounded by the requests.** After any run, the limiter stores no
more buckets than there were UDP calls since a sweep, or before it but so lately that the client's
bucket, had it been empty, would not have been full again by the sweep. -/
theorem tracked_le (henabled : params.enabled = true) (older newer : List (ℕ × Action)) (t : ℕ) :
    (Mealy.final perform (new params : Rrl G) (older ++ (t, .sweep) :: newer)).tracked S ≤
      ((older.filter fun a => t < a.1 + tolerance + interval) ++ newer).countP
        fun a => (checked? params a).isSome := by
  set recent := (older.filter fun a => t < a.1 + tolerance + interval) ++ newer with hrecent
  set stored :=
    Mealy.final perform (new params : Rrl G) (older ++ (t, .sweep) :: newer) with hstored
  have hkind : ∀ kind, (S.keys (stored.budget kind)).ncard ≤
      (recent.filterMap (checked? params)).countP fun c => c.1 = kind := by
    intro kind
    have hsubset : S.keys (stored.budget kind) ⊆ (((recent.filterMap (checked? params)).filter
        fun c => c.1 = kind).map Prod.snd).toFinset := by
      intro k hk
      obtain ⟨a, ha, hcheck⟩ := stored_recently S henabled hk
      rw [Finset.mem_coe, List.mem_toFinset]
      refine List.mem_map.mpr ⟨(kind, k), List.mem_filter.mpr ⟨?_, by simp⟩, rfl⟩
      exact List.mem_filterMap.mpr ⟨a, ha, hcheck⟩
    refine (Set.ncard_le_ncard hsubset (Finset.finite_toSet _)).trans ?_
    rw [Set.ncard_coe_finset, List.countP_eq_length_filter]
    refine (List.toFinset_card_le _).trans ?_
    rw [List.length_map]
  have hboth : ∀ calls : List (Kind × ClientKey), (calls.countP fun c => c.1 = .answer) +
      (calls.countP fun c => c.1 = .negative) = calls.length := by
    intro calls
    rw [calls.length_eq_countP_add_countP fun c => c.1 = .answer, Nat.add_left_cancel_iff]
    refine List.countP_congr fun c _ => ?_
    cases c.1 <;> simp
  calc stored.tracked S
      ≤ _ := Nat.add_le_add (hkind .answer) (hkind .negative)
    _ = (recent.filterMap (checked? params)).length := hboth _
    _ = recent.countP fun a => (checked? params a).isSome := List.length_filterMap_eq_countP

end Store

/-- The buckets of token buckets are those that are not full. -/
def tokenBuckets_store (quota : ℕ × ℕ) : (tokenBuckets_exact quota).Store where
  keys s := {k | (s.2 k).isSome = true}
  keys_keyed _ _ := Set.eq_empty_of_forall_notMem fun _ h => Bool.noConfusion h
  keys_checkKey s now key _ k hk := by
    by_cases hkey : k = key
    · exact .inl hkey
    · refine .inr ?_
      have hk' : (Function.update s.2 key (checkBucket s.1 (s.2 key) now).2 k).isSome = true := hk
      rwa [Function.update_of_ne hkey] at hk'
  keys_retainRecent s now k _ hk := by
    have hk' : ((s.2 k).filter (now < ·)).isSome = true := hk
    cases hfull : s.2 k with
    | none => simp [hfull] at hk'
    | some tat =>
      refine ⟨by simp [hfull], ?_⟩
      show now < (s.2 k).getD 0
      simpa [hfull] using hk'
  inv_fresh _ h := h
  arrival_fresh _ _ := Nat.zero_le _

/-- Of the clients of the busy run, that of the call after the sweep is stored at the end. -/
theorem tracked_le_busyRun :
    (busyRun.countP fun a => (checked? tightParams a).isSome) = 6 ∧
      (Mealy.final perform (new tightParams : Rrl tokenBuckets) busyRun).tracked
        (tokenBuckets_store (quota tightParams)) ≤ 1 := by
  refine ⟨by decide, (tracked_le (tokenBuckets_store (quota tightParams)) rfl (busyRun.take 6)
    (busyRun.drop 7) (4 * 10 ^ 9)).trans ?_⟩
  decide

end Rrl

end PanoptiDns
