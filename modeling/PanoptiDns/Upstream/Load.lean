import Mathlib.Data.Finset.Order
import Mathlib.Tactic.Ring
import PanoptiDns.Lib.Tally
import PanoptiDns.Upstream.Lookups

set_option relaxedAutoImplicit false
set_option autoImplicit false

/-!
# An upstream that lets lookups run out of time is spared

What breaker and permits are there for together: an upstream at which lookups run into their
deadline is asked few questions, however many queries come in. The argument is an amortized one.
While the breaker is closed, a query whose lookup has not ended in time either is waited for, which
takes a permit, or has timed out, which takes a failure; and when the breaker has tripped, only
lookups that were past the check still ask. So there is a potential that every query uses up, and
that is filled up again only when the breaker is reset: by a lookup that ends in time, or by a check
a cooldown after it tripped.

Ending in time is not being answered. An error of the resolver, a refused connection or its own
timeout among them, is a success to the breaker, and an upstream that only ever fails like that is
asked once for every lookup.

## Main definitions

* `Upstream.queries` — how many queries are sent in a run.
* `Upstream.slack` — how many can still be sent before the breaker is reset.
* `Breaker.resetsLeft` — how often a check can still reset the breaker, up to a moment.

## Main results

* `Upstream.step_slack` — what a step does to the potential.
* `Upstream.load_bounded` — few queries are sent in any stretch of a run.
* `Upstream.failing_unspared` — an upstream that fails in time is sent any number of queries.
-/

namespace PanoptiDns

/-! ## The next reset -/

namespace Breaker

/-- The earliest moment at which a check can reset the breaker. -/
def nextReset (state : Breaker) (now : ℕ) : ℕ :=
  match state.openUntil with
  | none => now + breakerCooldown
  | some deadline => max deadline now

/-- How often checks can reset the breaker from now on, up to a moment. -/
def resetsLeft (state : Breaker) (now stop : ℕ) : ℕ :=
  (stop + breakerCooldown - state.nextReset now) / breakerCooldown

/-- **What holds of a breaker at a time**: it has not failed enough if it is closed, and has
tripped before now if it is open. -/
structure Current (state : Breaker) (now : ℕ) : Prop where
  closed : state.openUntil = none → state.consecutiveFailures < breakerThreshold
  deadline : ∀ deadline, state.openUntil = some deadline → deadline ≤ now + breakerCooldown

variable {state : Breaker} {now later stop : ℕ}

/-- A fresh breaker is current at any time. -/
lemma current_default (now : ℕ) : Current default now :=
  ⟨fun _ => by decide, fun _ h => by cases h⟩

/-- It stays so. -/
lemma Current.mono (h : state.Current now) (hlater : now ≤ later) : state.Current later :=
  ⟨h.closed, fun deadline hopen => (h.deadline deadline hopen).trans (by omega)⟩

/-- A later reset leaves fewer. -/
lemma resetsLeft_le_of_nextReset {state' : Breaker}
    (h : state.nextReset now ≤ state'.nextReset later) :
    state'.resetsLeft later stop ≤ state.resetsLeft now stop :=
  Nat.div_le_div_right (Nat.sub_le_sub_left h _)

/-- The later, the fewer resets are left. -/
lemma resetsLeft_mono (hlater : now ≤ later) :
    state.resetsLeft later stop ≤ state.resetsLeft now stop := by
  apply resetsLeft_le_of_nextReset
  unfold nextReset
  split <;> omega

/-- A success leaves no more. -/
lemma Current.resetsLeft_recordSuccess (h : state.Current now) :
    state.recordSuccess.resetsLeft now stop ≤ state.resetsLeft now stop := by
  apply resetsLeft_le_of_nextReset
  show state.nextReset now ≤ now + breakerCooldown
  unfold nextReset
  split
  · exact le_rfl
  · next deadline hopen => exact max_le (h.deadline deadline hopen) (Nat.le_add_right _ _)

/-- **A check that resets** leaves one less. -/
lemma resetsLeft_reset {deadline : ℕ} (hopen : state.openUntil = some deadline)
    (hdeadline : deadline ≤ later) (hlater : now ≤ later) (hstop : later ≤ stop) :
    (default : Breaker).resetsLeft later stop + 1 ≤ state.resetsLeft now stop := by
  have hcooldown : 0 < breakerCooldown := by decide
  have hnext : state.nextReset now ≤ later := by
    simp only [nextReset, hopen]
    exact max_le hdeadline hlater
  calc (default : Breaker).resetsLeft later stop + 1
      = (stop - later) / breakerCooldown + 1 := by
        show (stop + breakerCooldown - (later + breakerCooldown)) / breakerCooldown + 1 = _
        rw [Nat.add_sub_add_right]
    _ = (stop + breakerCooldown - later) / breakerCooldown := by
        rw [← Nat.add_div_right _ hcooldown, Nat.sub_add_comm hstop]
    _ ≤ state.resetsLeft now stop := Nat.div_le_div_right (Nat.sub_le_sub_left hnext _)

/-- What a check finds: the breaker is closed, or open, or its cooldown is over. -/
lemma isOpen_cases (state : Breaker) (now : ℕ) :
    state.openUntil = none ∧ state.isOpen now = (false, state) ∨
    (∃ deadline, state.openUntil = some deadline ∧ state.isOpen now = (true, state)) ∨
    ∃ deadline, state.openUntil = some deadline ∧ deadline ≤ now ∧
      state.isOpen now = (false, default) := by
  unfold isOpen
  cases hopen : state.openUntil with
  | none => exact .inl ⟨rfl, rfl⟩
  | some deadline =>
    by_cases hnow : now < deadline
    · exact .inr (.inl ⟨deadline, rfl, by simp only [if_pos hnow]⟩)
    · refine .inr (.inr ⟨deadline, rfl, Nat.le_of_not_lt hnow, ?_⟩)
      simp only [if_neg hnow]
      rfl

/-- What a failure does: the breaker counts on, or trips, or was open and stays so. -/
lemma recordFailure_cases (h : state.Current now) (later : ℕ) :
    (state.openUntil = none ∧ (state.recordFailure later).2.openUntil = none ∧
      (state.recordFailure later).2.consecutiveFailures = state.consecutiveFailures + 1 ∧
      state.consecutiveFailures + 1 < breakerThreshold) ∨
    (state.openUntil = none ∧
      (state.recordFailure later).2.openUntil = some (later + breakerCooldown)) ∨
    (state.openUntil ≠ none ∧ (state.recordFailure later).2.openUntil = state.openUntil) := by
  cases hopen : state.openUntil with
  | none =>
    have hfew := h.closed hopen
    have hcount : min (state.consecutiveFailures + 1) maxFailures =
        state.consecutiveFailures + 1 := by
      have hmax : maxFailures = 4294967295 := rfl
      have hthreshold : breakerThreshold = 8 := rfl
      omega
    by_cases htrip : breakerThreshold ≤ state.consecutiveFailures + 1
    · exact .inr (.inl ⟨rfl, by simp [recordFailure, hopen, hcount, htrip]⟩)
    · refine .inl ⟨rfl, ?_, ?_, Nat.lt_of_not_le htrip⟩ <;>
        simp [recordFailure, hopen, hcount, htrip]
  | some deadline =>
    refine .inr (.inr ⟨by simp, ?_⟩)
    simp [recordFailure, hopen]

end Breaker

/-! ## The steps of the lookups -/

/-- The lookup is between the check of the breaker and that of the permits. -/
def Lookup.isPassed (l : Lookup) : Bool :=
  match l.stage with
  | .passed => true
  | _ => false

/-- The lookup has a permit and has not asked. -/
def Lookup.isPermitted (l : Lookup) : Bool :=
  match l.stage with
  | .permitted => true
  | _ => false

/-- The lookup waits for the upstream. -/
def Lookup.isAsking (l : Lookup) : Bool :=
  match l.stage with
  | .asking _ => true
  | _ => false

/-- The lookup has been answered and still has its permit. -/
def Lookup.isAnswered (l : Lookup) : Bool :=
  match l.stage with
  | .answered _ => true
  | _ => false

/-- The permits a lookup holds. -/
def Lookup.held (l : Lookup) : ℕ :=
  l.isPermitted.toNat + l.isAsking.toNat + l.isAnswered.toNat

namespace Upstream

/-- How many lookups are between the check of the breaker and that of the permits. -/
noncomputable def passed (u : Upstream) : ℕ := Tally.count u.lookups Lookup.isPassed

/-- How many lookups have a permit and have not asked. -/
noncomputable def permitted (u : Upstream) : ℕ := Tally.count u.lookups Lookup.isPermitted

/-- How many lookups wait for the upstream. -/
noncomputable def asking (u : Upstream) : ℕ := Tally.count u.lookups Lookup.isAsking

/-- How many lookups have been answered and still have their permits. -/
noncomputable def answered (u : Upstream) : ℕ := Tally.count u.lookups Lookup.isAnswered

/-- The steps of the lookups, with what each finds and what it leaves. -/
inductive Steps (u : Upstream) : Action → Upstream → Prop
  | skip {id : ℕ} {qname : Name} {now : ℕ} (hid : u.lookups id = none)
      (hopen : (u.breaker.isOpen now).1 = true) : Steps u (.start id qname now)
        ({ u with breaker := (u.breaker.isOpen now).2 }.setStage id qname (.done []))
  | pass {id : ℕ} {qname : Name} {now : ℕ} (hid : u.lookups id = none)
      (hopen : (u.breaker.isOpen now).1 = false) : Steps u (.start id qname now)
        ({ u with breaker := (u.breaker.isOpen now).2 }.setStage id qname .passed)
  | permit {id : ℕ} {qname : Name} (hid : u.lookups id = some ⟨qname, .passed⟩)
      (hleft : u.inflight < maxInflight) : Steps u (.acquire id)
        ({ u with inflight := u.inflight + 1 }.setStage id qname .permitted)
  | saturate {id : ℕ} {qname : Name} (hid : u.lookups id = some ⟨qname, .passed⟩) :
      Steps u (.acquire id) (u.setStage id qname (.done []))
  | ask {id : ℕ} {qname upQname : Name} (hid : u.lookups id = some ⟨qname, .permitted⟩)
      (hup : upstreamQname qname = some upQname) :
      Steps u (.ask id) (u.setStage id qname (.asking upQname))
  | giveUp {id : ℕ} {qname : Name} (hid : u.lookups id = some ⟨qname, .permitted⟩)
      (hup : upstreamQname qname = none) : Steps u (.ask id)
        ({ u with inflight := u.inflight - 1 }.setStage id qname (.done []))
  | succeed {id now : ℕ} {qname upQname : Name} {outcome : LookupOutcome} {records : List Record}
      (hid : u.lookups id = some ⟨qname, .asking upQname⟩) (hanswer : outcome ≠ .timedOut) :
      Steps u (.finish id now outcome)
        ({ u with breaker := u.breaker.recordSuccess }.setStage id qname (.answered records))
  | timeOut {id now : ℕ} {qname upQname : Name}
      (hid : u.lookups id = some ⟨qname, .asking upQname⟩) : Steps u (.finish id now .timedOut)
        ({ u with breaker := (u.breaker.recordFailure now).2 }.setStage id qname (.answered []))
  | release {id : ℕ} {qname : Name} {records : List Record}
      (hid : u.lookups id = some ⟨qname, .answered records⟩) : Steps u (.release id)
        ({ u with inflight := u.inflight - 1 }.setStage id qname (.done records))
  | cancel {id : ℕ} {qname upQname : Name} (hid : u.lookups id = some ⟨qname, .asking upQname⟩) :
      Steps u (.cancel id)
        { u with inflight := u.inflight - 1, lookups := Function.update u.lookups id none }

/-- **Inversion of a step.** -/
lemma steps_of_step {u u' : Upstream} {a : Action} (hstep : u.step a = some u') :
    u.Steps a u' := by
  cases a with
  | start id qname now =>
    cases hid : u.lookups id with
    | some l => simp [step, hid] at hstep
    | none =>
      simp only [step, hid] at hstep
      split at hstep <;> rename_i hopen <;> cases hstep
      · exact .skip hid hopen
      · exact .pass hid (by simpa using hopen)
  | acquire id =>
    simp only [step] at hstep
    split at hstep
    · rename_i hid
      split at hstep <;> rename_i hleft <;> cases hstep
      · exact .permit hid hleft
      · exact .saturate hid
    · cases hstep
  | ask id =>
    simp only [step] at hstep
    split at hstep
    · rename_i qname hid
      split at hstep <;> rename_i hup <;> cases hstep
      · exact .ask hid hup
      · exact .giveUp hid hup
    · cases hstep
  | finish id now outcome =>
    simp only [step] at hstep
    split at hstep
    · rename_i hid
      cases outcome with
      | breakerOpen | saturated => cases hstep
      | found | failed =>
        cases hstep
        exact .succeed hid (by simp)
      | timedOut =>
        cases hstep
        exact .timeOut hid
    · cases hstep
  | release id =>
    simp only [step] at hstep
    split at hstep
    · rename_i hid
      cases hstep
      exact .release hid
    · cases hstep
  | cancel id =>
    simp only [step] at hstep
    split at hstep
    · rename_i hid
      cases hstep
      exact .cancel hid
    · cases hstep

/-! ## The potential -/

/-- The upstream is sent a query in a step. -/
def sends (u : Upstream) : Action → Bool
  | .ask id =>
    match u.lookups id with
    | some ⟨qname, .permitted⟩ => (upstreamQname qname).isSome
    | _ => false
  | _ => false

/-- A lookup ends before its deadline: with an answer, with a negative answer, or with any other
error of the resolver. The breaker makes no difference between them. -/
def Action.endsInTime : Action → Bool
  | .finish _ _ outcome => outcome ≠ .timedOut
  | _ => false

/-- A query is given up in a step. -/
def Action.isCancel : Action → Bool
  | .cancel _ => true
  | _ => false

/-- The clock reading of a step. -/
def Action.now? (a : Action) : Option ℕ := a.call?.bind Breaker.Call.now?

/-- **The counts are right**: the permits in use are those of the lookups that hold one, and no more
than there are. -/
structure Counted (u : Upstream) : Prop where
  small : Tally.Small u.lookups
  inflight : u.inflight = u.permitted + u.asking + u.answered
  le : u.inflight ≤ maxInflight

/-- **How many queries can still be sent** before the breaker is reset. While it is closed, each
query that is not ended in time takes a permit or a failure; the lookups that are past the check ask
even if it trips. -/
noncomputable def slack (threads : ℕ) (u : Upstream) : ℕ :=
  match u.breaker.openUntil with
  | none => (breakerThreshold - u.breaker.consecutiveFailures) + (maxInflight - u.asking) + threads
  | some _ => u.permitted + u.passed

/-- The queries between two resets. -/
def budget (threads : ℕ) : ℕ := breakerThreshold + maxInflight + threads

/-- A new upstream has its failures counted. -/
lemma counted_new : new.Counted :=
  ⟨Tally.small_none, by simp [new, permitted, asking, answered, Tally.count_none], by simp [new]⟩

variable {u u' v : Upstream} {threads : ℕ}

/-- A lookup moves from a stage to another, and is counted there. -/
lemma counts_update (hsmall : Tally.Small u.lookups) {id : ℕ} {entry : Option Lookup}
    (hlookups : v.lookups = Function.update u.lookups id entry) :
    v.passed + ((u.lookups id).any Lookup.isPassed).toNat =
        u.passed + (entry.any Lookup.isPassed).toNat ∧
      v.permitted + ((u.lookups id).any Lookup.isPermitted).toNat =
        u.permitted + (entry.any Lookup.isPermitted).toNat ∧
      v.asking + ((u.lookups id).any Lookup.isAsking).toNat =
        u.asking + (entry.any Lookup.isAsking).toNat ∧
      v.answered + ((u.lookups id).any Lookup.isAnswered).toNat =
        u.answered + (entry.any Lookup.isAnswered).toNat := by
  simp only [passed, permitted, asking, answered, hlookups]
  exact ⟨Tally.count_update hsmall _ id entry, Tally.count_update hsmall _ id entry,
    Tally.count_update hsmall _ id entry, Tally.count_update hsmall _ id entry⟩

/-- **One lookup moves on**: the counts stay right if the permits are those held before and after. -/
lemma Counted.move (hcounted : u.Counted) {id : ℕ} {old entry : Option Lookup}
    (hid : u.lookups id = old) (hlookups : u'.lookups = Function.update u.lookups id entry)
    (hinflight : u'.inflight = u.inflight + entry.elim 0 Lookup.held - old.elim 0 Lookup.held)
    (hle : u'.inflight ≤ maxInflight) : u'.Counted := by
  obtain ⟨hsmall, hused, -⟩ := hcounted
  obtain ⟨-, hpermitted, hasking, hanswered⟩ := counts_update hsmall hlookups
  rw [hid] at hpermitted hasking hanswered
  have hheld : ∀ e : Option Lookup, e.elim 0 Lookup.held = (e.any Lookup.isPermitted).toNat +
      (e.any Lookup.isAsking).toNat + (e.any Lookup.isAnswered).toNat := by
    intro e
    cases e <;> rfl
  rw [hheld, hheld] at hinflight
  exact ⟨hlookups ▸ hsmall.update id entry, by omega, hle⟩

/-- There is never more slack than a reset gives. -/
lemma slack_le (hcounted : u.Counted) (hthreads : u.passed ≤ threads) :
    u.slack threads ≤ budget threads := by
  obtain ⟨-, hinflight, hle⟩ := hcounted
  unfold slack budget
  split <;> omega

/-- A breaker that has just been reset leaves no more slack than the budget. -/
lemma slack_le_of_closed (hopen : u.breaker.openUntil = none) :
    u.slack threads ≤ budget threads := by
  simp only [slack, hopen, budget]
  omega

/-- The slack under one breaker, closed or open. -/
lemma slack_le_slack {n m : ℕ} (hbreaker : u'.breaker = u.breaker)
    (hclosed : u.breaker.openUntil = none →
      n + (maxInflight - u'.asking) ≤ maxInflight - u.asking + m)
    (hopen : u.breaker.openUntil ≠ none →
      n + (u'.permitted + u'.passed) ≤ u.permitted + u.passed + m) :
    n + u'.slack threads ≤ u.slack threads + m := by
  unfold slack
  rw [hbreaker]
  cases h : u.breaker.openUntil with
  | none =>
    have := hclosed h
    simp only
    omega
  | some deadline =>
    have := hopen (by simp [h])
    simp only
    omega

/-- **What a step does to the potential**: it stays right, and a query is paid for by the slack, by
a reset of the breaker, or by a lookup that ends in time. -/
structure Pays (threads stop now : ℕ) (u : Upstream) (a : Action) (u' : Upstream) : Prop where
  counted : u'.Counted
  current : u'.breaker.Current (a.now?.getD now)
  le : (u.sends a).toNat +
      (u'.slack threads + budget threads * u'.breaker.resetsLeft (a.now?.getD now) stop) ≤
    u.slack threads + budget threads * (u.breaker.resetsLeft now stop + a.endsInTime.toNat) +
      a.isCancel.toNat

/-- A step that leaves no more resets pays from the slack. -/
lemma pays_of_slack {a : Action} {now stop : ℕ} (hcounted : u'.Counted)
    (hcurrent : u'.breaker.Current (a.now?.getD now))
    (hresets : u'.breaker.resetsLeft (a.now?.getD now) stop ≤ u.breaker.resetsLeft now stop)
    (hslack : (u.sends a).toNat + u'.slack threads ≤ u.slack threads + a.isCancel.toNat) :
    Pays threads stop now u a u' := by
  refine ⟨hcounted, hcurrent, ?_⟩
  have hpaid := Nat.mul_le_mul_left (budget threads)
    (hresets.trans (Nat.le_add_right _ a.endsInTime.toNat))
  omega

/-- A step that leaves the breaker alone pays from the slack. -/
lemma pays_of_same {a : Action} {now stop : ℕ} (hcurrent : u.breaker.Current now)
    (hlater : now ≤ a.now?.getD now) (hcounted : u'.Counted) (hbreaker : u'.breaker = u.breaker)
    (hslack : (u.sends a).toNat + u'.slack threads ≤ u.slack threads + a.isCancel.toNat) :
    Pays threads stop now u a u' :=
  pays_of_slack hcounted (hbreaker ▸ hcurrent.mono hlater)
    (hbreaker ▸ Breaker.resetsLeft_mono hlater) hslack

section Step

variable {a : Action} {now stop : ℕ}

/-- **A check that finds the cooldown over** resets the breaker, and uses up a reset. -/
lemma pays_reset {id t deadline : ℕ} {qname : Name} (hcounted : u.Counted) (hlater : now ≤ t)
    (hstop : t ≤ stop) (hid : u.lookups id = none) (hdeadline : u.breaker.openUntil = some deadline)
    (hover : deadline ≤ t) : Pays threads stop now u (.start id qname t)
      ({ u with breaker := default }.setStage id qname .passed) := by
  refine ⟨hcounted.move hid rfl rfl hcounted.le, Breaker.current_default _, ?_⟩
  · have hslack : ({ u with breaker := default }.setStage id qname .passed).slack threads ≤
        budget threads := slack_le_of_closed rfl
    have hresets := Nat.mul_le_mul_left (budget threads)
      (Breaker.resetsLeft_reset hdeadline hover hlater hstop)
    rw [Nat.mul_add, Nat.mul_one] at hresets
    have hsends : (u.sends (.start id qname t)).toNat = 0 := rfl
    have hanswer : (Action.start id qname t).endsInTime.toNat = 0 := rfl
    have hclock : (Action.start id qname t).now?.getD now = t := rfl
    have hbreaker : ({ u with breaker := default }.setStage id qname .passed).breaker = default :=
      rfl
    rw [hbreaker, hsends, hanswer, hclock, Nat.add_zero]
    omega

/-- **One lookup moves on** and the breaker is left alone. The permits are those held before and
after. While the breaker is closed the step pays with the permit of a lookup that now waits; while
it is open, with a lookup that was past the check and no longer is. -/
lemma pays_of_move (hcounted : u.Counted) (hcurrent : u.breaker.Current now)
    (hlater : now ≤ a.now?.getD now) {id : ℕ} {old entry : Option Lookup}
    (hid : u.lookups id = old) (hlookups : u'.lookups = Function.update u.lookups id entry)
    (hbreaker : u'.breaker = u.breaker)
    (hinflight : u'.inflight = u.inflight + entry.elim 0 Lookup.held - old.elim 0 Lookup.held)
    (hle : u'.inflight ≤ maxInflight)
    (hclosed : (u.sends a).toNat + (old.any Lookup.isAsking).toNat ≤
      (entry.any Lookup.isAsking).toNat + a.isCancel.toNat)
    (hopen : u.breaker.openUntil ≠ none →
      (u.sends a).toNat + ((entry.any Lookup.isPermitted).toNat +
          (entry.any Lookup.isPassed).toNat) ≤
        (old.any Lookup.isPermitted).toNat + (old.any Lookup.isPassed).toNat + a.isCancel.toNat) :
    Pays threads stop now u a u' := by
  obtain ⟨hpassed, hpermitted, hasking, -⟩ := counts_update hcounted.small hlookups
  rw [hid] at hpassed hpermitted hasking
  have hcounted' : u'.Counted := hcounted.move hid hlookups hinflight hle
  have hroom : u'.asking ≤ maxInflight := by
    have := hcounted'.inflight
    omega
  refine pays_of_same hcurrent hlater hcounted' hbreaker
    (slack_le_slack hbreaker (fun _ => ?_) fun htripped => ?_)
  · omega
  · have := hopen htripped
    omega

/-- **Any other check** costs nothing. -/
lemma pays_check {id t : ℕ} {qname : Name} {stage : Stage} (hcounted : u.Counted)
    (hcurrent : u.breaker.Current now) (hlater : now ≤ t) (hid : u.lookups id = none)
    (hstage : stage = .done [] ∨ u.breaker.openUntil = none ∧ stage = .passed) :
    Pays threads stop now u (.start id qname t) (u.setStage id qname stage) := by
  have hle := hcounted.le
  rcases hstage with rfl | ⟨hclosed, rfl⟩
  · exact pays_of_move hcounted hcurrent hlater hid rfl rfl rfl hle
      (Nat.le_of_ble_eq_true rfl) fun _ => Nat.le_of_ble_eq_true rfl
  · exact pays_of_move hcounted hcurrent hlater hid rfl rfl rfl hle
      (Nat.le_of_ble_eq_true rfl) fun htripped => absurd hclosed htripped

/-- **A lookup that ends in time** resets the breaker, and is what pays for it. -/
lemma pays_succeed {id t : ℕ} {outcome : LookupOutcome} {qname upQname : Name}
    {records : List Record} (hcounted : u.Counted) (hcurrent : u.breaker.Current now)
    (hid : u.lookups id = some ⟨qname, .asking upQname⟩) (hanswer : outcome ≠ .timedOut) :
    Pays threads stop now u (.finish id t outcome)
      ({ u with breaker := u.breaker.recordSuccess }.setStage id qname (.answered records)) := by
  have hclock : (Action.finish id t outcome).now? = none := by
    cases outcome <;> first | rfl | exact absurd rfl hanswer
  refine ⟨hcounted.move hid rfl rfl hcounted.le, Breaker.current_default _, ?_⟩
  · have hslack : ({ u with breaker := u.breaker.recordSuccess }.setStage id qname
        (.answered records)).slack threads ≤ budget threads := slack_le_of_closed rfl
    have hresets := Nat.mul_le_mul_left (budget threads)
      (hcurrent.resetsLeft_recordSuccess : _ ≤ u.breaker.resetsLeft now stop)
    have hpaid : (Action.finish id t outcome).endsInTime = true := by
      simp [Action.endsInTime, hanswer]
    simp only [hclock, Option.getD_none, hpaid, Bool.toNat_true, Nat.mul_add, Nat.mul_one, sends,
      Bool.toNat_false, Action.isCancel, setStage_breaker]
    omega

/-- **A timeout** takes a failure, or is the last one before the breaker trips. -/
lemma pays_timeOut {id t : ℕ} {qname upQname : Name} (hcounted : u.Counted)
    (hcurrent : u.breaker.Current now) (hthreads : u.passed ≤ threads) (hlater : now ≤ t)
    (hid : u.lookups id = some ⟨qname, .asking upQname⟩) :
    Pays threads stop now u (.finish id t .timedOut)
      ({ u with breaker := (u.breaker.recordFailure t).2 }.setStage id qname (.answered [])) := by
  have hcounted' : ({ u with breaker := (u.breaker.recordFailure t).2 }.setStage id qname
      (.answered [])).Counted := hcounted.move hid rfl rfl hcounted.le
  obtain ⟨hsmall, hinflight, hle⟩ := hcounted
  obtain ⟨hpassed, hpermitted, hasking, -⟩ := @counts_update u
    ({ u with breaker := (u.breaker.recordFailure t).2 }.setStage id qname (.answered []))
    hsmall _ _ rfl
  simp [hid, Lookup.isPassed, Lookup.isPermitted, Lookup.isAsking] at hpassed hpermitted hasking
  rcases Breaker.recordFailure_cases hcurrent t with ⟨hopen, hopen', hcount, hfew⟩ |
    ⟨hopen, hopen'⟩ | ⟨hopen, hopen'⟩
  · refine pays_of_slack hcounted' ⟨fun _ => ?_, fun deadline hdeadline => ?_⟩
      (Breaker.resetsLeft_le_of_nextReset ?_) ?_
    · rw [setStage_breaker, hcount]
      exact hfew
    · rw [setStage_breaker, hopen'] at hdeadline
      cases hdeadline
    · simp only [Breaker.nextReset, hopen, setStage_breaker, hopen']
      exact Nat.add_le_add_right hlater _
    · simp only [slack, hopen, setStage_breaker, hopen', hcount, sends,
        Bool.toNat_false]
      omega
  · refine pays_of_slack hcounted' ⟨fun hclosed => ?_, fun deadline hdeadline => ?_⟩
      (Breaker.resetsLeft_le_of_nextReset ?_) ?_
    · rw [setStage_breaker, hopen'] at hclosed
      cases hclosed
    · rw [setStage_breaker, hopen'] at hdeadline
      exact (Option.some.inj hdeadline).ge
    · simp only [Breaker.nextReset, hopen, setStage_breaker, hopen']
      exact (Nat.add_le_add_right hlater _).trans (le_max_left _ _)
    · have hfew := hcurrent.closed hopen
      simp only [slack, hopen, setStage_breaker, hopen', sends, Bool.toNat_false]
      omega
  · obtain ⟨deadline, hdeadline⟩ := Option.ne_none_iff_exists'.mp hopen
    rw [hdeadline] at hopen'
    refine pays_of_slack hcounted' ⟨fun hclosed => ?_, fun deadline' hdeadline' => ?_⟩
      (Breaker.resetsLeft_le_of_nextReset ?_) ?_
    · rw [setStage_breaker, hopen'] at hclosed
      cases hclosed
    · rw [setStage_breaker, hopen'] at hdeadline'
      obtain rfl := Option.some.inj hdeadline'
      exact (hcurrent.mono hlater).deadline deadline hdeadline
    · simp only [Breaker.nextReset, hdeadline, setStage_breaker, hopen']
      exact max_le_max le_rfl hlater
    · simp only [slack, hdeadline, setStage_breaker, hopen', sends, Bool.toNat_false]
      omega

/-- **A step that leaves the breaker alone**: a permit is taken or not, a query is sent or not, and
the lookup returns or is given up. -/
lemma pays_quiet (hcounted : u.Counted) (hcurrent : u.breaker.Current now)
    (hquiet : a.call? = none) (hstep : u.Steps a u') : Pays threads stop now u a u' := by
  have hlater : now ≤ a.now?.getD now := by
    rw [Action.now?, hquiet]
    exact le_rfl
  have hle := hcounted.le
  cases hstep with
  | skip | pass | timeOut => cases hquiet
  | @succeed _ _ _ _ outcome =>
    cases outcome <;> cases hquiet
  | permit hid hleft =>
    exact pays_of_move hcounted hcurrent hlater hid rfl rfl rfl hleft
      (Nat.le_of_ble_eq_true rfl) fun _ => Nat.le_of_ble_eq_true rfl
  | saturate hid =>
    exact pays_of_move hcounted hcurrent hlater hid rfl rfl rfl hle
      (Nat.le_of_ble_eq_true rfl) fun _ => Nat.le_of_ble_eq_true rfl
  | @ask id qname upQname hid hup =>
    have hsends : u.sends (.ask id) = true := by simp [sends, hid, hup]
    refine pays_of_move hcounted hcurrent hlater hid rfl rfl rfl hle ?_ fun _ => ?_
    · rw [hsends]
      exact Nat.le_of_ble_eq_true rfl
    · rw [hsends]
      exact Nat.le_of_ble_eq_true rfl
  | @giveUp id qname hid hup =>
    have hsends : u.sends (.ask id) = false := by simp [sends, hid, hup]
    refine pays_of_move hcounted hcurrent hlater hid rfl rfl rfl ((Nat.sub_le _ 1).trans hle) ?_
      fun _ => ?_
    · rw [hsends]
      exact Nat.le_of_ble_eq_true rfl
    · rw [hsends]
      exact Nat.le_of_ble_eq_true rfl
  | release hid =>
    exact pays_of_move hcounted hcurrent hlater hid rfl rfl rfl ((Nat.sub_le _ 1).trans hle)
      (Nat.le_of_ble_eq_true rfl) fun _ => Nat.le_of_ble_eq_true rfl
  | cancel hid =>
    exact pays_of_move hcounted hcurrent hlater hid rfl rfl rfl ((Nat.sub_le _ 1).trans hle)
      (Nat.le_of_ble_eq_true rfl) fun _ => Nat.le_of_ble_eq_true rfl

/-- **Every step pays.** -/
lemma step_pays (hcounted : u.Counted) (hcurrent : u.breaker.Current now)
    (hthreads : u.passed ≤ threads) (hwindow : ∀ t ∈ a.now?, now ≤ t ∧ t ≤ stop)
    (hstep : u.step a = some u') : Pays threads stop now u a u' := by
  have hsteps := steps_of_step hstep
  cases hquiet : a.call? with
  | none => exact pays_quiet hcounted hcurrent hquiet hsteps
  | some call =>
    cases hsteps with
    | @skip id qname t hid hopen =>
      obtain ⟨hlater, -⟩ := hwindow t rfl
      rcases u.breaker.isOpen_cases t with ⟨-, h⟩ | ⟨_, -, h⟩ | ⟨_, -, -, h⟩
      · rw [h] at hopen
        cases hopen
      · rw [h]
        exact pays_check hcounted hcurrent hlater hid (.inl rfl)
      · rw [h] at hopen
        cases hopen
    | @pass id qname t hid hopen =>
      obtain ⟨hlater, hstop⟩ := hwindow t rfl
      rcases u.breaker.isOpen_cases t with ⟨hclosed, h⟩ | ⟨_, -, h⟩ | ⟨_, hdeadline, hover, h⟩
      · rw [h]
        exact pays_check hcounted hcurrent hlater hid (.inr ⟨hclosed, rfl⟩)
      · rw [h] at hopen
        cases hopen
      · rw [h]
        exact pays_reset hcounted hlater hstop hid hdeadline hover
    | succeed hid hanswer => exact pays_succeed hcounted hcurrent hid hanswer
    | @timeOut id t _ _ hid =>
      exact pays_timeOut hcounted hcurrent hthreads (hwindow t rfl).1 hid
    | _ => cases hquiet

end Step

/-! ## Runs -/

/-- How many queries are sent in a run. -/
def queries (u : Upstream) (actions : List Action) : ℕ :=
  (Run.visited step u actions).countP fun v => v.1.sends v.2

/-- The clock readings of a run. -/
def readings (actions : List Action) : List ℕ := actions.filterMap Action.now?

/-- The clock readings of a run are those of its first action and of the rest. -/
lemma readings_cons (a : Action) (actions : List Action) :
    readings (a :: actions) = a.now?.toList ++ readings actions := by
  rw [readings, List.filterMap_cons]
  cases a.now? <;> rfl

/-- They are the times of the calls of the breaker. -/
lemma readings_eq (actions : List Action) :
    readings actions = (calls actions).filterMap Breaker.Call.now? :=
  (List.filterMap_filterMap ..).symm

/-- A count over a list is that of its head and of its tail. -/
lemma countP_cons_toNat {α : Type} (p : α → Bool) (a : α) (l : List α) :
    (a :: l).countP p = (p a).toNat + l.countP p := by
  rw [List.countP_cons, Nat.add_comm]
  cases p a <;> rfl

/-- **A run** uses up the potential, but for the lookups that end in time and the queries it gives
up. -/
lemma queries_le {threads stop : ℕ} {actions : List Action} {u u' : Upstream} {now : ℕ}
    (hcounted : u.Counted) (hcurrent : u.breaker.Current now)
    (hexec : Run.exec step u actions = some u')
    (horder : (readings actions).Pairwise (· ≤ ·))
    (hwindow : ∀ t ∈ readings actions, now ≤ t ∧ t ≤ stop)
    (hthreads : ∀ v ∈ Run.visited step u actions, v.1.passed ≤ threads) :
    u.queries actions ≤ u.slack threads + budget threads *
      (u.breaker.resetsLeft now stop + actions.countP Action.endsInTime) +
        actions.countP Action.isCancel ∧
    u'.Counted ∧ ∃ last, u'.breaker.Current last ∧ (last = now ∨ last ∈ readings actions) := by
  induction actions generalizing u now with
  | nil =>
    obtain rfl : u = u' := Option.some.inj hexec
    exact ⟨by simp [queries, Run.visited], hcounted, now, hcurrent, .inl rfl⟩
  | cons a actions ih =>
    obtain ⟨u₁, h₁, hrest⟩ := Option.bind_eq_some_iff.mp hexec
    rw [readings_cons, List.pairwise_append] at horder
    obtain ⟨-, hsorted, hlater⟩ := horder
    rw [readings_cons, List.forall_mem_append] at hwindow
    rw [Run.visited_cons step h₁, List.forall_mem_cons] at hthreads
    have hpays := step_pays hcounted hcurrent hthreads.1
      (fun t ht => hwindow.1 t (Option.mem_toList.mpr ht)) h₁
    have hfollows : ∀ t ∈ readings actions, a.now?.getD now ≤ t ∧ t ≤ stop := by
      intro t ht
      refine ⟨?_, (hwindow.2 t ht).2⟩
      cases hclock : a.now? with
      | none => exact (hwindow.2 t ht).1
      | some t' => exact hlater t' (by simp [hclock]) t ht
    obtain ⟨hnext, hcounted', last, hlast, hread⟩ :=
      ih hpays.counted hpays.current hrest hsorted hfollows hthreads.2
    refine ⟨?_, hcounted', last, hlast, ?_⟩
    · have hle := hpays.le
      rw [queries, Run.visited_cons step h₁, countP_cons_toNat, countP_cons_toNat,
        countP_cons_toNat]
      rw [queries] at hnext
      simp only [Nat.mul_add] at hle hnext ⊢
      omega
    · rw [readings_cons, List.mem_append]
      cases hclock : a.now? with
      | none =>
        rw [hclock] at hread
        exact hread.imp_right .inr
      | some t' =>
        rw [hclock] at hread
        rcases hread with rfl | hread
        · exact .inr (.inl (by simp))
        · exact .inr (.inr hread)

/-- Checks can reset the breaker once in a cooldown. -/
lemma resetsLeft_le (state : Breaker) (now stop : ℕ) :
    state.resetsLeft now stop ≤ (stop - now) / breakerCooldown + 1 := by
  have hcooldown : 0 < breakerCooldown := by decide
  have hnext : now ≤ state.nextReset now := by
    unfold Breaker.nextReset
    split
    · exact Nat.le_add_right _ _
    · exact le_max_right _ _
  rw [← Nat.add_div_right _ hcooldown]
  apply Nat.div_le_div_right
  omega

/-- **An upstream that lets lookups run out of time is spared.** In every interleaving of lookups,
over any stretch of a run in a window of time, few queries are sent: for each reset of the breaker
by a check, of which there is one in a cooldown, and for each lookup that ends in time, be it with
an error, as many as there are failures before it trips, permits, and lookups that are past the
check; and one more for each query that is given up. -/
theorem load_bounded {before during : List Action} {u₀ u : Upstream}
    (hbefore : Run.exec step new before = some u₀) (hduring : Run.exec step u₀ during = some u)
    (horder : Breaker.InOrder (calls (before ++ during))) {lo hi threads : ℕ}
    (hwindow : ∀ t ∈ readings during, lo ≤ t ∧ t ≤ hi)
    (hthreads : ∀ v ∈ Run.visited step u₀ during, v.1.passed ≤ threads) :
    u₀.queries during ≤ (breakerThreshold + maxInflight + threads) *
      ((hi - lo) / breakerCooldown + 2 + during.countP Action.endsInTime) +
        during.countP Action.isCancel := by
  have hsorted : (readings before ++ readings during).Pairwise (· ≤ ·) := by
    rw [readings_eq, readings_eq, ← List.filterMap_append, calls, calls, ← List.filterMap_append]
    exact horder
  obtain ⟨hsorted₀, hsorted₁, hlater⟩ := List.pairwise_append.mp hsorted
  -- what the run before has left
  obtain ⟨stop₀, hstop₀⟩ := (readings before).toFinset.exists_le
  obtain ⟨threads₀, hthreads₀⟩ :=
    ((Run.visited step new before).map fun v => v.1.passed).toFinset.exists_le
  obtain ⟨-, hcounted, last, hlast, hread⟩ := queries_le counted_new (Breaker.current_default 0)
    hbefore hsorted₀ (fun t ht => ⟨Nat.zero_le t, hstop₀ t (List.mem_toFinset.mpr ht)⟩)
    fun v hv => hthreads₀ _ (List.mem_toFinset.mpr (List.mem_map_of_mem hv))
  have hfollows : ∀ t ∈ readings during, last ≤ t := by
    intro t ht
    rcases hread with rfl | hread
    · exact Nat.zero_le t
    · exact hlater last hread t ht
  obtain ⟨hle, -⟩ := queries_le hcounted (hlast.mono (le_max_right lo last)) hduring hsorted₁
    (fun t ht => ⟨max_le (hwindow t ht).1 (hfollows t ht),
      (hwindow t ht).2.trans (le_max_left hi (max lo last))⟩) hthreads
  have hresets := resetsLeft_le u₀.breaker (max lo last) (max hi (max lo last))
  have hspan : (max hi (max lo last) - max lo last) / breakerCooldown ≤
      (hi - lo) / breakerCooldown := Nat.div_le_div_right (by omega)
  cases during with
  | nil => simp [queries, Run.visited]
  | cons a during =>
    have hslack : u₀.slack threads ≤ budget threads :=
      slack_le hcounted (hthreads (u₀, a) (by simp [Run.visited]))
    refine hle.trans (Nat.add_le_add_right ?_ _)
    calc u₀.slack threads + budget threads * _
        ≤ budget threads + budget threads *
            ((hi - lo) / breakerCooldown + 1 + (a :: during).countP Action.endsInTime) := by
          gcongr
          omega
      _ = budget threads *
            ((hi - lo) / breakerCooldown + 2 + (a :: during).countP Action.endsInTime) := by
          ring

/-! ## Errors in time -/

/-- Lookups of a name, one after the other, each of which ends with an error before its deadline. -/
def failingRun (qname : Name) (n : ℕ) : List Action :=
  (List.range n).flatMap fun id =>
    [.start id qname 0, .acquire id, .ask id, .finish id 0 .failed, .release id]

/-- **One such lookup** sends a query and leaves the breaker and the permits as they were. -/
lemma exec_failingLookup {id : ℕ} {qname upQname : Name} (hup : upstreamQname qname = some upQname)
    (hbreaker : u.breaker = default) (hinflight : u.inflight = 0) (hid : u.lookups id = none) :
    ∃ v, Run.exec step u
        [.start id qname 0, .acquire id, .ask id, .finish id 0 .failed, .release id] = some v ∧
      v.breaker = default ∧ v.inflight = 0 ∧ (∀ other ≠ id, v.lookups other = u.lookups other) ∧
      u.queries [.start id qname 0, .acquire id, .ask id, .finish id 0 .failed, .release id] =
        1 := by
  obtain ⟨breaker, inflight, lookups⟩ := u
  obtain rfl : breaker = default := hbreaker
  obtain rfl : inflight = 0 := hinflight
  have hlookups : lookups id = none := hid
  have hopen : Breaker.isOpen default 0 = (false, default) := rfl
  have hsuccess : Breaker.recordSuccess default = default := rfl
  refine ⟨⟨default, 0, Function.update lookups id (some ⟨qname, .done []⟩)⟩, ?_, rfl, rfl, ?_, ?_⟩
  · simp [step, hlookups, hopen, setStage, maxInflight, hup, answer, hsuccess]
  · intro other hother
    exact Function.update_of_ne hother _ _
  · simp [queries, Run.visited, step, hlookups, hopen, setStage, maxInflight, hup, answer, hsuccess,
      sends]

/-- **An upstream that fails in time is not spared**: the breaker never trips, and any number of
lookups sends as many queries.

**Proof sketch.** Each lookup leaves the breaker as it was at the start and gives its permit
back. -/
theorem failing_unspared {qname : Name} (hup : (upstreamQname qname).isSome = true) (n : ℕ) :
    ∃ u, Run.exec step new (failingRun qname n) = some u ∧ u.breaker = default ∧
      new.queries (failingRun qname n) = n := by
  obtain ⟨upQname, hup⟩ := Option.isSome_iff_exists.mp hup
  have hrun : ∃ u, Run.exec step new (failingRun qname n) = some u ∧ u.breaker = default ∧
      u.inflight = 0 ∧ (∀ id ≥ n, u.lookups id = none) ∧
        new.queries (failingRun qname n) = n := by
    induction n with
    | zero => exact ⟨new, rfl, rfl, rfl, fun _ _ => rfl, rfl⟩
    | succ n ih =>
      obtain ⟨u, hexec, hbreaker, hinflight, hfresh, hqueries⟩ := ih
      have hsplit : failingRun qname (n + 1) = failingRun qname n ++
          [.start n qname 0, .acquire n, .ask n, .finish n 0 .failed, .release n] := by
        rw [failingRun, List.range_succ, List.flatMap_append, List.flatMap_singleton]
        rfl
      obtain ⟨v, hlast, hbreaker', hinflight', hothers, hone⟩ :=
        exec_failingLookup hup hbreaker hinflight (hfresh n le_rfl)
      refine ⟨v, ?_, hbreaker', hinflight', fun id hn => ?_, ?_⟩
      · rw [hsplit, Run.exec_append, hexec, Option.bind_some, hlast]
      · rw [hothers id (by omega), hfresh id (by omega)]
      · rw [queries] at hqueries hone ⊢
        rw [hsplit, Run.visited_append step hexec, List.countP_append, hqueries, hone]
  obtain ⟨u, hexec, hbreaker, -, -, hqueries⟩ := hrun
  exact ⟨u, hexec, hbreaker, hqueries⟩

/-! ## A run -/

/-- A lookup starts in a step. -/
def Action.isStart : Action → Bool
  | .start _ _ _ => true
  | _ => false

/-- A lookup that comes past the check has started. -/
lemma visited_passed_le {actions : List Action} (hsmall : Tally.Small u.lookups) :
    ∀ w ∈ Run.visited step u actions, w.1.passed ≤ u.passed + actions.countP Action.isStart := by
  induction actions generalizing u with
  | nil => simp [Run.visited]
  | cons a actions ih =>
    cases hstep : u.step a with
    | none => simp [Run.visited, hstep]
    | some u₁ =>
      have hpassed : u₁.passed ≤ u.passed + a.isStart.toNat := by
        have hmoved : ∀ (id : ℕ) (entry : Option Lookup),
            u₁.lookups = Function.update u.lookups id entry →
              (entry.any Lookup.isPassed).toNat ≤ a.isStart.toNat →
                u₁.passed ≤ u.passed + a.isStart.toNat := by
          intro id entry hlookups hstart
          have := (counts_update hsmall hlookups).1
          omega
        cases steps_of_step hstep <;> exact hmoved _ _ rfl (Nat.le_of_ble_eq_true rfl)
      obtain ⟨id, entry, hlookups, -⟩ := (step_cases hstep).lookups
      have hrest := ih (u := u₁) (hlookups ▸ hsmall.update id entry)
      rw [Run.visited_cons step hstep, List.forall_mem_cons, countP_cons_toNat]
      exact ⟨Nat.le_add_right _ _, fun w hw => (hrest w hw).trans (by omega)⟩

/-- Eight queries, seven of which time out: the bound is 240. -/
theorem load_bounded_sevenTimeouts :
    ∃ u, Run.exec step new sevenTimeouts = some u ∧ new.queries sevenTimeouts = 8 ∧
      sevenTimeouts.countP Action.endsInTime = 0 ∧ sevenTimeouts.countP Action.isCancel = 0 ∧
      new.queries sevenTimeouts ≤
        (breakerThreshold + maxInflight + 8) * ((16 - 0) / breakerCooldown + 2 + 0) + 0 := by
  obtain ⟨u, hu⟩ := Option.isSome_iff_exists.mp
    (show (Run.exec step new sevenTimeouts).isSome = true by decide +kernel)
  have hpassed : new.passed = 0 := Tally.count_none _
  have hstarts : sevenTimeouts.countP Action.isStart = 8 := by decide +kernel
  refine ⟨u, hu, by decide +kernel, by decide +kernel, by decide +kernel,
    load_bounded (Run.exec_nil _ _) hu ?_ (by decide) fun v hv => ?_⟩
  · unfold Breaker.InOrder
    decide +kernel
  · have hle := visited_passed_le (u := new) Tally.small_none v hv
    rwa [hpassed, hstarts, Nat.zero_add] at hle

end Upstream

end PanoptiDns
