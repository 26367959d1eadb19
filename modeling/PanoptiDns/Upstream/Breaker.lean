import Mathlib.Algebra.Order.Ring.Nat
import Mathlib.Data.List.Induction
import PanoptiDns.Lib.Mealy

set_option relaxedAutoImplicit false
set_option autoImplicit false

/-!
# The circuit breaker of an upstream

`Breaker` of `src/upstream.rs`: a counter of consecutive failures and a deadline, shared by all the
lookups of an upstream. Each call holds the lock, so a run is a list of calls; the clock is read
inside the call. What the breaker is for is said in terms of the history alone: which failures were
recorded since the last reset, where a reset is a success or a check that finds the cooldown over.

## Main definitions

* `Breaker`, `Breaker.isOpen`, `Breaker.recordSuccess`, `Breaker.recordFailure`.
* `Breaker.Call`, `Breaker.call` — the calls, as the inputs of a machine.
* `Breaker.failures` — the times of the failures since the last reset.
* `Breaker.Spec` — what the breaker does, in terms of the history.

## Main results

* `Breaker.models_history` — counter and deadline are functions of the failures since the reset.
* `Breaker.openUntil_of_trip` — a deadline stays until a reset.
* `Breaker.spec` — the breaker meets its specification after every list of calls.
-/

namespace PanoptiDns

/-- Consecutive failures before the upstream is skipped entirely for a while. -/
def breakerThreshold : ℕ := 8

/-- How long it is skipped, in nanoseconds. -/
def breakerCooldown : ℕ := 10 * 10 ^ 9

/-- The largest counter: an addition saturates there. -/
def maxFailures : ℕ := 2 ^ 32 - 1

/-- Simple consecutive-failure circuit breaker. -/
structure Breaker where
  consecutiveFailures : ℕ := 0
  openUntil : Option ℕ := none
  deriving DecidableEq, Inhabited

namespace Breaker

/-- True if the upstream should be skipped right now. -/
def isOpen (state : Breaker) (now : ℕ) : Bool × Breaker :=
  match state.openUntil with
  | some deadline =>
    if now < deadline then (true, state)
    else (false, { consecutiveFailures := 0, openUntil := none })
  | none => (false, state)

/-- The upstream has answered. -/
def recordSuccess (_state : Breaker) : Breaker :=
  { consecutiveFailures := 0, openUntil := none }

/-- Returns true if this failure tripped the breaker. -/
def recordFailure (state : Breaker) (now : ℕ) : Bool × Breaker :=
  let state := { state with
    consecutiveFailures := min (state.consecutiveFailures + 1) maxFailures }
  if breakerThreshold ≤ state.consecutiveFailures && state.openUntil.isNone then
    (true, { state with openUntil := some (now + breakerCooldown) })
  else (false, state)

/-- A call, with the reading of the clock where it takes one. -/
inductive Call
  | isOpen (now : ℕ)
  | recordSuccess
  | recordFailure (now : ℕ)
  deriving DecidableEq

/-- The reading of the clock. -/
def Call.now? : Call → Option ℕ
  | .isOpen now => some now
  | .recordSuccess => none
  | .recordFailure now => some now

/-- The clock never goes back along the calls. -/
def InOrder (calls : List Call) : Prop := (calls.filterMap Call.now?).Pairwise (· ≤ ·)

/-- What a call returns and leaves; a success returns nothing of interest. -/
def call (state : Breaker) : Call → Bool × Breaker
  | .isOpen now => state.isOpen now
  | .recordSuccess => (false, state.recordSuccess)
  | .recordFailure now => state.recordFailure now

/-- The breaker after a list of calls on a new one. -/
def after (calls : List Call) : Breaker := Mealy.final call default calls

/-- The calls made on a new breaker, with the states they found. -/
def history (calls : List Call) : List (Breaker × Call) := Mealy.visited call default calls

/-! ### The purpose, said of the history -/

/-- **Resets**: a success, or a check that finds the cooldown expired. -/
def IsReset (entry : Breaker × Call) : Prop :=
  match entry.2 with
  | .isOpen now => ∃ deadline, entry.1.openUntil = some deadline ∧ deadline ≤ now
  | .recordSuccess => True
  | .recordFailure _ => False

instance (entry : Breaker × Call) : Decidable (IsReset entry) :=
  match entry with
  | (⟨_, none⟩, .isOpen _) => .isFalse (by rintro ⟨_, h, _⟩; cases h)
  | (⟨_, some deadline⟩, .isOpen now) =>
    decidable_of_iff (deadline ≤ now) ⟨fun h => ⟨deadline, rfl, h⟩, fun ⟨_, h, hle⟩ => by
      cases h; exact hle⟩
  | (_, .recordSuccess) => .isTrue trivial
  | (_, .recordFailure _) => .isFalse id

/-- A failure that tripped the breaker, at a time. -/
def TripsAt (entry : Breaker × Call) (t₀ : ℕ) : Prop :=
  entry.2 = .recordFailure t₀ ∧ (entry.1.recordFailure t₀).1 = true

/-- The times of the failures, with one more entry. -/
def failuresNext (times : List ℕ) (entry : Breaker × Call) : List ℕ :=
  if IsReset entry then []
  else match entry.2 with
    | .recordFailure now => times ++ [now]
    | _ => times

/-- The times of the failures recorded since the last reset. -/
def failures (entries : List (Breaker × Call)) : List ℕ := entries.foldl failuresNext []

/-- **What the breaker is for**, after any list of calls. -/
structure Spec (calls : List Call) : Prop where
  /-- It is open if and only if enough failures were recorded since the last reset. -/
  open_iff : (after calls).openUntil.isSome ↔ breakerThreshold ≤ (failures (history calls)).length
  /-- A failure trips it if and only if it is the eighth since the last reset. -/
  trips_iff : ∀ now, ((after calls).recordFailure now).1 = true ↔
    (failures (history calls)).length + 1 = breakerThreshold
  /-- It trips once in an open period: between two trips there is a reset. -/
  trips_once : ∀ older entry t₀ between entry' t₁ newer,
    history calls = older ++ entry :: (between ++ entry' :: newer) →
    TripsAt entry t₀ → TripsAt entry' t₁ → ∃ e ∈ between, IsReset e
  /-- Until the next reset the deadline is that of the trip, whatever fails later. -/
  deadline_kept : ∀ older entry t₀ newer, history calls = older ++ entry :: newer →
    TripsAt entry t₀ → (∀ e ∈ newer, ¬ IsReset e) →
    (after calls).openUntil = some (t₀ + breakerCooldown)
  /-- A check says that it is open if and only if it tripped less than a cooldown ago and nothing
  has succeeded since. -/
  isOpen_iff : ∀ now, InOrder (calls ++ [.isOpen now]) →
    (((after calls).isOpen now).1 = true ↔ ∃ older entry t₀ newer,
      history calls = older ++ entry :: newer ∧ TripsAt entry t₀ ∧ now < t₀ + breakerCooldown ∧
      ∀ e ∈ newer, e.2 ≠ .recordSuccess)

/-! ### Counter and deadline as functions of the failures -/

/-- The state that a list of failures leaves. -/
def ofFailures (times : List ℕ) : Breaker where
  consecutiveFailures := min times.length maxFailures
  openUntil := times[7]?.map (· + breakerCooldown)

/-- No calls, no failures. -/
@[simp] lemma failures_nil : failures [] = [] := rfl

/-- What the last call does to the failures. -/
@[simp] lemma failures_snoc (entries : List (Breaker × Call)) (entry : Breaker × Call) :
    failures (entries ++ [entry]) = failuresNext (failures entries) entry := by
  rw [failures, List.foldl_append]
  rfl

/-- The breaker has tripped iff there are failures enough. -/
lemma openUntil_ofFailures_isSome (times : List ℕ) :
    (ofFailures times).openUntil.isSome ↔ breakerThreshold ≤ times.length := by
  simp only [ofFailures, Option.isSome_map, breakerThreshold, isSome_getElem?]
  omega

/-- A failure trips a breaker that has seen exactly seven. -/
lemma recordFailure_ofFailures (times : List ℕ) (now : ℕ) :
    ((ofFailures times).recordFailure now).1 = true ↔ times.length + 1 = breakerThreshold := by
  have hopen := openUntil_ofFailures_isSome times
  have hmax : maxFailures = 4294967295 := rfl
  simp only [recordFailure]
  split_ifs with htrip
  · simp only [Bool.and_eq_true, decide_eq_true_eq, Option.isNone_iff_eq_none] at htrip
    rw [htrip.2] at hopen
    simp only [ofFailures, breakerThreshold, hmax] at htrip hopen ⊢
    simp only [Option.isSome_none, Bool.false_eq_true, false_iff] at hopen
    simp only [true_iff]
    omega
  · simp only [false_iff]
    intro hlen
    apply htrip
    have hnone : (ofFailures times).openUntil = none := by
      rw [← Option.not_isSome_iff_eq_none, hopen]
      omega
    rw [hnone]
    simp only [ofFailures, breakerThreshold, hmax] at hlen ⊢
    simp only [Option.isNone_none, Bool.and_true, decide_eq_true_eq]
    omega

/-- A failure extends the list. -/
lemma recordFailure_snd_ofFailures (times : List ℕ) (now : ℕ) :
    ((ofFailures times).recordFailure now).2 = ofFailures (times ++ [now]) := by
  have htrips := recordFailure_ofFailures times now
  have hmax : maxFailures = 4294967295 := rfl
  have hcount : min (min times.length maxFailures + 1) maxFailures =
      min (times ++ [now]).length maxFailures := by
    rw [List.length_append, List.length_singleton]
    omega
  simp only [recordFailure] at htrips ⊢
  split_ifs at htrips ⊢ with hif
  · -- the eighth failure: its time is at index 7
    have hlen : times.length = 7 := Nat.succ.inj (htrips.mp rfl)
    simp only [ofFailures, mk.injEq]
    refine ⟨hcount, ?_⟩
    rw [List.getElem?_append_right (by omega), hlen]
    rfl
  · have hlen : times.length ≠ 7 := fun h => by
      have := htrips.mpr (by rw [h]; rfl)
      cases this
    simp only [ofFailures, mk.injEq]
    refine ⟨hcount, ?_⟩
    congr 1
    by_cases hlt : 7 < times.length
    · rw [List.getElem?_append_left hlt]
    · rw [List.getElem?_eq_none (by omega), List.getElem?_eq_none (by simp; omega)]

/-- **One call on the state of a list of failures**: a reset empties the list, a failure extends
it, and everything else leaves it. -/
lemma call_ofFailures (times : List ℕ) (c : Call) :
    ((ofFailures times).call c).2 = ofFailures (failuresNext times (ofFailures times, c)) := by
  cases c with
  | recordSuccess =>
    rw [failuresNext, if_pos (show IsReset (_, Call.recordSuccess) from trivial)]
    rfl
  | isOpen now =>
    cases hopen : (ofFailures times).openUntil with
    | none =>
      have hreset : ¬ IsReset (ofFailures times, .isOpen now) := by
        rintro ⟨deadline, h, -⟩
        exact absurd (hopen.symm.trans h) (by simp)
      simp only [call, isOpen, hopen, failuresNext, if_neg hreset]
    | some deadline =>
      by_cases hnow : now < deadline
      · have hreset : ¬ IsReset (ofFailures times, .isOpen now) := by
          rintro ⟨deadline', h, hle⟩
          obtain rfl : deadline = deadline' := Option.some.inj (hopen.symm.trans h)
          omega
        simp only [call, isOpen, hopen, if_pos hnow, failuresNext, if_neg hreset]
      · have hreset : IsReset (ofFailures times, .isOpen now) :=
          ⟨deadline, hopen, Nat.le_of_not_lt hnow⟩
        simp only [call, isOpen, hopen, if_neg hnow, failuresNext, if_pos hreset]
        rfl
  | recordFailure now =>
    have hreset : ¬ IsReset (ofFailures times, .recordFailure now) := id
    simp only [failuresNext, if_neg hreset, call]
    exact recordFailure_snd_ofFailures times now

/-! ### Runs -/

/-- A fresh breaker. -/
@[simp] lemma after_nil : after [] = default := rfl

/-- The breaker after one more call. -/
@[simp] lemma after_snoc (calls : List Call) (c : Call) :
    after (calls ++ [c]) = ((after calls).call c).2 := Mealy.final_append call default calls [c]

/-- A fresh breaker has no history. -/
@[simp] lemma history_nil : history [] = [] := rfl

/-- One more call finds the breaker as the others left it. -/
@[simp] lemma history_snoc (calls : List Call) (c : Call) :
    history (calls ++ [c]) = history calls ++ [(after calls, c)] :=
  Mealy.visited_append call default calls [c]

/-- **Counter and deadline are functions of the failures since the last reset.** -/
theorem models_history (calls : List Call) :
    after calls = ofFailures (failures (history calls)) := by
  induction calls using List.reverseRecOn with
  | nil => rfl
  | append_singleton calls c ih =>
    rw [after_snoc, history_snoc, failures_snoc, ih]
    exact call_ofFailures _ c

/-- An entry of the history found what the calls before it had left. -/
lemma found_of_history {calls : List Call} {older newer : List (Breaker × Call)}
    {entry : Breaker × Call} (h : history calls = older ++ entry :: newer) :
    entry.1 = ofFailures (failures older) := by
  obtain ⟨-, hvisited, hfinal, -⟩ := Mealy.eq_append_of_visited h
  have hmodels := models_history (older.map Prod.snd)
  rwa [after, hfinal, history, hvisited] at hmodels

/-- Without a reset failures are only added. -/
lemma failures_append_of_no_reset (older newer : List (Breaker × Call))
    (hnewer : ∀ e ∈ newer, ¬ IsReset e) :
    ∃ more, failures (older ++ newer) = failures older ++ more := by
  induction newer using List.reverseRecOn with
  | nil => exact ⟨[], by simp⟩
  | append_singleton newer e ih =>
    obtain ⟨more, hmore⟩ := ih fun e' he' => hnewer e' (by simp [he'])
    rw [← List.append_assoc, failures_snoc, hmore, failuresNext, if_neg (hnewer e (by simp))]
    split
    · next now _ => exact ⟨more ++ [now], List.append_assoc ..⟩
    · exact ⟨more, rfl⟩

/-- A failure that trips is the eighth since the last reset. -/
lemma length_failures_of_trip {calls : List Call} {older newer : List (Breaker × Call)}
    {entry : Breaker × Call} {t₀ : ℕ} (h : history calls = older ++ entry :: newer)
    (htrip : TripsAt entry t₀) : (failures older).length + 1 = breakerThreshold := by
  rw [← recordFailure_ofFailures _ t₀, ← found_of_history h]
  exact htrip.2

/-- From a trip on, up to a reset, there are the seven failures before it and its own. -/
lemma failures_of_trip {calls : List Call} {older newer : List (Breaker × Call)}
    {entry : Breaker × Call} {t₀ : ℕ} (h : history calls = older ++ entry :: newer)
    (htrip : TripsAt entry t₀) (hnewer : ∀ e ∈ newer, ¬ IsReset e) :
    ∃ more, failures (history calls) = failures older ++ t₀ :: more := by
  obtain ⟨more, hmore⟩ := failures_append_of_no_reset (older ++ [entry]) newer hnewer
  have hentry : failuresNext (failures older) entry = failures older ++ [t₀] := by
    have hreset : ¬ IsReset entry := by rw [IsReset, htrip.1]; exact id
    rw [failuresNext, if_neg hreset, htrip.1]
  rw [failures_snoc, hentry, List.append_assoc, List.append_assoc] at hmore
  exact ⟨more, by rw [h]; exact hmore⟩

/-- **A deadline stays**: until a reset it is that of the trip. -/
theorem openUntil_of_trip {calls : List Call} {older newer : List (Breaker × Call)}
    {entry : Breaker × Call} {t₀ : ℕ} (h : history calls = older ++ entry :: newer)
    (htrip : TripsAt entry t₀) (hnewer : ∀ e ∈ newer, ¬ IsReset e) :
    (after calls).openUntil = some (t₀ + breakerCooldown) := by
  obtain ⟨more, hmore⟩ := failures_of_trip h htrip hnewer
  have hlen : (failures older).length = 7 := Nat.succ.inj (length_failures_of_trip h htrip)
  rw [models_history, hmore, ofFailures, List.getElem?_append_right (by omega), hlen]
  rfl

/-- A deadline is that of a trip, with no reset since. -/
lemma exists_trip_of_openUntil {calls : List Call} {deadline : ℕ}
    (hopen : (after calls).openUntil = some deadline) :
    ∃ older entry t₀ newer, history calls = older ++ entry :: newer ∧ TripsAt entry t₀ ∧
      (∀ e ∈ newer, ¬ IsReset e) ∧ deadline = t₀ + breakerCooldown := by
  induction calls using List.reverseRecOn generalizing deadline with
  | nil => cases hopen
  | append_singleton calls c ih =>
    rw [after_snoc] at hopen
    have hreset : ¬ IsReset (after calls, c) := by
      intro hreset
      rw [models_history, call_ofFailures, ← models_history, failuresNext, if_pos hreset] at hopen
      cases hopen
    cases hbefore : (after calls).openUntil with
    | some deadline' =>
      obtain ⟨older, entry, t₀, newer, hsplit, htrip, hnewer, rfl⟩ := ih hbefore
      have hsplit' : history (calls ++ [c]) = older ++ entry :: (newer ++ [(after calls, c)]) := by
        rw [history_snoc, hsplit, List.append_assoc, List.cons_append]
      have hnewer' : ∀ e ∈ newer ++ [(after calls, c)], ¬ IsReset e :=
        List.forall_mem_append.mpr ⟨hnewer, List.forall_mem_singleton.mpr hreset⟩
      refine ⟨older, entry, t₀, _, hsplit', htrip, hnewer', ?_⟩
      rw [← after_snoc, openUntil_of_trip hsplit' htrip hnewer'] at hopen
      exact Option.some.inj hopen.symm
    | none =>
      -- the call has set the deadline, so it is the failure that trips
      cases c with
      | recordSuccess => cases hopen
      | isOpen now => simp [call, isOpen, hbefore] at hopen
      | recordFailure now =>
        simp only [call, recordFailure, hbefore, Option.isNone_none, Bool.and_true] at hopen
        split_ifs at hopen with hcount
        · refine ⟨history calls, (after calls, .recordFailure now), now, [], by simp, ⟨rfl, ?_⟩,
            by simp, (Option.some.inj hopen).symm⟩
          simp only [recordFailure, hbefore, Option.isNone_none, Bool.and_true, if_pos hcount]

/-- Checks within the cooldown of a trip do not reset. -/
lemma no_reset_of_recent {calls : List Call} {older newer : List (Breaker × Call)}
    {entry : Breaker × Call} {t₀ : ℕ} (h : history calls = older ++ entry :: newer)
    (htrip : TripsAt entry t₀) (hsuccess : ∀ e ∈ newer, e.2 ≠ .recordSuccess)
    (hrecent : ∀ e ∈ newer, ∀ now, e.2 = .isOpen now → now < t₀ + breakerCooldown) :
    ∀ e ∈ newer, ¬ IsReset e := by
  induction newer using List.reverseRecOn generalizing calls with
  | nil => simp
  | append_singleton newer last ih =>
    have hlast : history calls = (older ++ entry :: newer) ++ last :: [] := by rw [h]; simp
    obtain ⟨-, hbefore, hfound, -⟩ := Mealy.eq_append_of_visited hlast
    have hnewer := ih hbefore (fun e he => hsuccess e (by simp [he]))
      fun e he => hrecent e (by simp [he])
    have hopen := openUntil_of_trip hbefore htrip hnewer
    rw [after, hfound] at hopen
    intro e he
    rcases List.mem_append.mp he with he | he
    · exact hnewer e he
    · obtain rfl := List.mem_singleton.mp he
      obtain ⟨state, c⟩ := e
      cases c with
      | recordSuccess => exact absurd rfl (hsuccess (state, .recordSuccess) (by simp))
      | recordFailure now => exact id
      | isOpen now =>
        rintro ⟨deadline, hdeadline, hle⟩
        obtain rfl := Option.some.inj (hopen.symm.trans hdeadline)
        exact absurd hle (Nat.not_le.mpr (hrecent (state, .isOpen now) (by simp) now rfl))

/-! ### The specification -/

/-- Within the cooldown of a trip that no success has followed, a check says that it is open. -/
lemma isOpen_of_trip {calls : List Call} {older newer : List (Breaker × Call)}
    {entry : Breaker × Call} {t₀ now : ℕ} (h : history calls = older ++ entry :: newer)
    (htrip : TripsAt entry t₀) (hsuccess : ∀ e ∈ newer, e.2 ≠ .recordSuccess)
    (horder : InOrder (calls ++ [.isOpen now])) (hnow : now < t₀ + breakerCooldown) :
    ((after calls).isOpen now).1 = true := by
  have hbefore : ∀ e ∈ newer, ∀ t, e.2 = .isOpen t → t < t₀ + breakerCooldown := by
    intro e he t ht
    have hcall : Call.isOpen t ∈ calls := by
      have hmem : e ∈ history calls := by rw [h]; simp [he]
      rw [← ht, ← Mealy.map_snd_visited call default calls]
      exact List.mem_map_of_mem hmem
    rw [InOrder, List.filterMap_append, List.pairwise_append] at horder
    have hle : t ≤ now := horder.2.2 t (List.mem_filterMap.mpr ⟨_, hcall, rfl⟩) now (by
      simp [Call.now?])
    omega
  have hopen := openUntil_of_trip h htrip (no_reset_of_recent h htrip hsuccess hbefore)
  simp only [isOpen, hopen, if_pos hnow]

/-- A check that says it is open has a trip less than a cooldown ago, with no success since. -/
lemma exists_trip_of_isOpen {calls : List Call} {now : ℕ}
    (hopen : ((after calls).isOpen now).1 = true) :
    ∃ older entry t₀ newer, history calls = older ++ entry :: newer ∧ TripsAt entry t₀ ∧
      now < t₀ + breakerCooldown ∧ ∀ e ∈ newer, e.2 ≠ .recordSuccess := by
  cases hdeadline : (after calls).openUntil with
  | none => simp [isOpen, hdeadline] at hopen
  | some deadline =>
    obtain ⟨older, entry, t₀, newer, hsplit, htrip, hnewer, rfl⟩ :=
      exists_trip_of_openUntil hdeadline
    refine ⟨older, entry, t₀, newer, hsplit, htrip, ?_, fun e he hsuccess => ?_⟩
    · by_contra hnow
      simp [isOpen, hdeadline, if_neg hnow] at hopen
    · exact hnewer e he (by rw [IsReset, hsuccess]; trivial)

/-- Two trips have a reset between them: the second would be the ninth failure. -/
lemma exists_reset_between {calls : List Call} {older between newer : List (Breaker × Call)}
    {entry entry' : Breaker × Call} {t₀ t₁ : ℕ}
    (h : history calls = older ++ entry :: (between ++ entry' :: newer))
    (htrip : TripsAt entry t₀) (htrip' : TripsAt entry' t₁) : ∃ e ∈ between, IsReset e := by
  by_contra! hbetween
  have hsecond : history calls = (older ++ entry :: between) ++ entry' :: newer := by rw [h]; simp
  obtain ⟨-, hbefore, -, -⟩ := Mealy.eq_append_of_visited hsecond
  obtain ⟨more, hmore⟩ := failures_of_trip hbefore htrip hbetween
  have hlen := length_failures_of_trip h htrip
  have hlen' := length_failures_of_trip hsecond htrip'
  rw [← hbefore, ← history, hmore, List.length_append, List.length_cons] at hlen'
  omega

/-- **The breaker meets its specification** after every list of calls. -/
theorem spec (calls : List Call) : Spec calls where
  open_iff := by
    rw [models_history]
    exact openUntil_ofFailures_isSome _
  trips_iff now := by
    rw [models_history]
    exact recordFailure_ofFailures _ now
  trips_once _ _ _ _ _ _ _ h htrip htrip' := exists_reset_between h htrip htrip'
  deadline_kept _ _ _ _ h htrip hnewer := openUntil_of_trip h htrip hnewer
  isOpen_iff now horder :=
    ⟨exists_trip_of_isOpen, fun ⟨_, _, _, _, h, htrip, hnow, hsuccess⟩ =>
      isOpen_of_trip h htrip hsuccess horder hnow⟩

end Breaker

end PanoptiDns
