import PanoptiDns.Lib.CellRate
import PanoptiDns.Rrl.Budgets

set_option relaxedAutoImplicit false
set_option autoImplicit false

/-!
# The rate of a client

The limiter is configured with a rate and a burst. This file carries the bound of a metered cell
over to the calls of a client prefix in any stretch of a run of the limiter, whatever other calls
and sweeps lie between them; and the condition under which it allows all of them.

## Main definitions

* `Governor.PerKey.Metered` — the cells of a keyed limiter of a quota are metered.
* `Governor.PerKey.Exact` — they refuse for no other reason.
* `Rrl.allowedSince` — which calls of a client are allowed in a stretch of a run.

## Main results

* `Rrl.allowed_rate` — a bound on the calls of a client that are allowed in a window of time.
* `Rrl.allowed_all_iff` — all calls of a client are allowed iff they conform to the quota.
-/

namespace PanoptiDns

variable {G : Governor}

/-- **The cells of a quota are metered**: a fresh cell of the quota, and all that its checks make
of it, keep a theoretical arrival time. -/
structure Governor.PerKey.Metered (K : G.PerKey) (quota : ℕ × ℕ) (interval tolerance : ℕ) where
  meter : CellRate.Meter K.check interval tolerance
  inv_keyed : ∀ key, meter.inv (K.cell (G.keyed quota.1 quota.2) key)

/-- **The cells of a quota are exact**: they are cells of a rate, and idle at first. -/
structure Governor.PerKey.Exact (K : G.PerKey) (quota : ℕ × ℕ) (interval tolerance : ℕ) where
  cell : CellRate.Cell K.check interval tolerance
  inv_keyed : ∀ key, cell.inv (K.cell (G.keyed quota.1 quota.2) key)
  idle_keyed : ∀ key, cell.arrival (K.cell (G.keyed quota.1 quota.2) key) = 0

namespace Rrl

/-- Which calls of a kind from a client are allowed in a stretch of a run, from the state the
stretch begins in. -/
def allowedSince (rrl : Rrl G) (params : RrlParams) (kind : Kind) (client : IpAddr)
    (run : List (ℕ × Action)) : List Bool :=
  (Mealy.answersSeen perform (matches? params kind client) rrl run).map (· == some .allow)

/-- One more call at the front is seen or not. -/
lemma allowedSince_cons (rrl : Rrl G) (params : RrlParams) (kind : Kind) (client : IpAddr)
    (a : ℕ × Action) (run : List (ℕ × Action)) :
    allowedSince rrl params kind client (a :: run) =
      (if (matches? params kind client a).isSome then [(perform rrl a).1 == some .allow] else []) ++
        allowedSince (perform rrl a).2 params kind client run := by
  simp only [allowedSince, Mealy.answersSeen, Mealy.visited_cons, List.filter_cons]
  split_ifs <;> rfl

/-- The calls of a run are those before a stretch and those in it. -/
lemma allowed_append (params : RrlParams) (kind : Kind) (client : IpAddr)
    (before during : List (ℕ × Action)) :
    allowed G params kind client (before ++ during) =
      allowed G params kind client before ++
        allowedSince (Mealy.final perform (new params : Rrl G) before) params kind client
          during := by
  simp only [allowed, allowedSince, Mealy.answersSeen, Mealy.visited_append, List.filter_append,
    List.map_append]

/-- **The rate of a client**: in a window of time, whatever came before, the intervals of the calls
of one kind that are allowed to one client prefix fit into the window, the tolerance and one
interval more. -/
lemma allowed_rate (K : G.PerKey) {params : RrlParams} {interval tolerance : ℕ}
    (M : K.Metered (quota params) interval tolerance) (henabled : params.enabled = true)
    (kind : Kind) (client : IpAddr) {before during : List (ℕ × Action)}
    (horder : InOrder (before ++ during)) {lo hi : ℕ}
    (hwindow : ∀ a ∈ during, lo ≤ a.1 ∧ a.1 ≤ hi) :
    (allowedSince (Mealy.final perform (new params : Rrl G) before) params kind client
        during).count true * interval ≤ (hi - lo) + tolerance + interval := by
  have hall := allowed_eq_answers K henabled kind client horder
  have hbefore : InOrder before := by
    unfold InOrder at horder ⊢
    rw [List.map_append, List.pairwise_append] at horder
    exact horder.1
  -- the client's own cell goes through the stretch from where the calls before it left it
  have hmatched : matched params kind client (before ++ during) =
      matched params kind client before ++ matched params kind client during :=
    List.filterMap_append
  rw [allowed_append, allowed_eq_answers K henabled kind client hbefore, hmatched,
    Mealy.answers_append] at hall
  rw [List.append_cancel_left hall]
  refine M.meter.granted_mul_le (M.meter.inv_final ?_ _) fun t ht => ?_
  · cases kind <;> exact M.inv_keyed _
  · obtain ⟨a, ha, hmatch⟩ := List.mem_filterMap.mp ht
    rw [eq_fst_of_matches hmatch]
    exact hwindow a ha

/-- A new limiter has a fresh cell for every client. -/
lemma view_new (K : G.PerKey) (params : RrlParams) (kind : Kind) (client : IpAddr) :
    view K params kind client (new params) =
      K.cell (G.keyed (quota params).1 (quota params).2) (key params client) := by
  cases kind <;> rfl

/-- **All calls of a client are allowed iff they conform** to the quota, whatever other calls and
sweeps there are. -/
lemma allowed_all_iff (K : G.PerKey) {params : RrlParams} {interval tolerance : ℕ}
    (E : K.Exact (quota params) interval tolerance) (henabled : params.enabled = true)
    (kind : Kind) (client : IpAddr) {run : List (ℕ × Action)} (horder : InOrder run) :
    (∀ b ∈ allowed G params kind client run, b = true) ↔
      CellRate.Conforms interval tolerance (matched params kind client run) := by
  have hsorted : (matched params kind client run).Pairwise (· ≤ ·) := by
    refine List.pairwise_filterMap.mpr ((List.pairwise_map.mp horder).imp ?_)
    intro a b hab t ht u hu
    rw [eq_fst_of_matches ht, eq_fst_of_matches hu]
    exact hab
  rw [allowed_eq_answers K henabled kind client horder, view_new]
  refine E.cell.all_granted_iff (E.inv_keyed _) hsorted fun t _ => ?_
  rw [E.idle_keyed]
  exact Nat.zero_le t

/-! ### Token buckets -/

/-- A bucket grants when it will be full again soon enough, and is then full later. -/
lemma checkBucket_granted {quota : ℕ × ℕ} {full : Option ℕ} {now : ℕ}
    (h : (checkBucket quota full now).1 = true) :
    full.getD 0 ≤ now + quota.1 * (quota.2 - 1) ∧
      max (full.getD 0) now + quota.1 ≤ (checkBucket quota full now).2.getD 0 := by
  unfold checkBucket at h ⊢
  split at h
  · cases h
  · rename_i hsoon
    rw [if_neg hsoon]
    cases full with
    | none => simp
    | some tat => exact ⟨not_lt.mp hsoon, le_rfl⟩

/-- A bucket that will be full again soon enough grants. -/
lemma checkBucket_of_soon {quota : ℕ × ℕ} {full : Option ℕ} {now : ℕ}
    (h : full.getD 0 ≤ now + quota.1 * (quota.2 - 1)) : (checkBucket quota full now).1 = true := by
  unfold checkBucket
  rw [if_neg]
  cases full with
  | none => simp
  | some tat => exact not_lt.mpr h

/-- A grant takes one token. -/
lemma checkBucket_le {quota : ℕ × ℕ} {full : Option ℕ} {now : ℕ}
    (h : (checkBucket quota full now).1 = true) :
    (checkBucket quota full now).2.getD 0 ≤ max (full.getD 0) now + quota.1 := by
  unfold checkBucket at h ⊢
  split at h
  · cases h
  · rename_i hsoon
    rw [if_neg hsoon]
    cases full <;> simp

/-- A refusal takes nothing from the bucket. -/
lemma checkBucket_refused {quota : ℕ × ℕ} {full : Option ℕ} {now : ℕ}
    (h : (checkBucket quota full now).1 = false) : (checkBucket quota full now).2 = full := by
  unfold checkBucket at h ⊢
  split at h
  · rename_i hlate
    rw [if_pos hlate]
  · cases h

/-- **Token buckets are metered**: a bucket holds as many tokens as the burst, one of which is
there for the request itself. -/
def tokenBuckets_metered (quota : ℕ × ℕ) : tokenBuckets_perKey.Metered quota
    (10 ^ 9 / quota.1) (10 ^ 9 / quota.1 * (quota.2 - 1)) where
  meter := {
    inv := fun c => c.1 = (10 ^ 9 / quota.1, quota.2)
    arrival := fun c => c.2.getD 0
    inv_step := fun _ _ h => h
    granted := fun c t hc hgrant => by
      obtain ⟨hahead, hlater⟩ := checkBucket_granted hgrant
      have hinterval : c.1.1 = 10 ^ 9 / quota.1 := congrArg Prod.fst hc
      exact ⟨by rwa [hc] at hahead, by rwa [hinterval] at hlater⟩
    refused := fun c t _ hrefuse => (congrArg (·.getD 0) (checkBucket_refused hrefuse)).ge }
  inv_keyed := fun _ => rfl

/-- **Token buckets are exact**: a bucket refuses only if it is empty. -/
def tokenBuckets_exact (quota : ℕ × ℕ) : tokenBuckets_perKey.Exact quota
    (10 ^ 9 / quota.1) (10 ^ 9 / quota.1 * (quota.2 - 1)) where
  cell := {
    (tokenBuckets_metered quota).meter with
    grants := fun c t hc hsoon => checkBucket_of_soon (by rwa [hc])
    granted_le := fun c t hc hgrant => by
      have hle := checkBucket_le hgrant
      rwa [show c.1.1 = 10 ^ 9 / quota.1 from congrArg Prod.fst hc] at hle
    refused_le := fun c t _ hrefuse => (congrArg (·.getD 0) (checkBucket_refused hrefuse)).le }
  inv_keyed := fun _ => rfl
  idle_keyed := fun _ => rfl

end Rrl

end PanoptiDns
