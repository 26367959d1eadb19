import PanoptiDns.Lib.Run
import PanoptiDns.Upstream
import PanoptiDns.Upstream.Breaker

set_option relaxedAutoImplicit false
set_option autoImplicit false

/-!
# Concurrent upstream lookups

`Upstream::lookup_ptr` of `src/upstream.rs`, with any number of lookups in flight. Between two uses
of what the lookups share (the breaker, the permits) any other lookup can go on; a lookup that waits
for the upstream can also be given up. What the upstream says, and when, is the world's.

## Main definitions

* `Upstream`, `Upstream.Action`, `Upstream.step` — the lookups and their steps.
* `Upstream.calls` — the breaker's part of a run.
* `TimesOut` — a run in which every answer is a timeout.

## Main results

* `Upstream.breaker_of_exec` — any interleaving of lookups is a list of calls on the breaker.
* `Upstream.records_of_exec` — what a lookup returns is `lookupPtr` of what became of it.
* `Upstream.breaker_spec` — the breaker's specification, and what it gives for lookups.
-/

namespace PanoptiDns

/-- Concurrent in-flight upstream queries. -/
def maxInflight : ℕ := 64

/-- How far a lookup has come. -/
inductive Stage
  | passed
  | permitted
  | asking (upQname : Name)
  | answered (records : List Record)
  | done (records : List Record)
  deriving DecidableEq

/-- A lookup of a name. -/
structure Lookup where
  qname : Name
  stage : Stage
  deriving DecidableEq

/-- What is kept with a lookup is right: the name asked is that of the query, and what it returns
is what the query returns of some outcome. -/
def Lookup.Faithful (lookup : Lookup) : Prop :=
  match lookup.stage with
  | .asking upQname => upstreamQname lookup.qname = some upQname
  | .answered records => ∃ outcome, records = lookupPtr lookup.qname outcome
  | .done records => ∃ outcome, records = lookupPtr lookup.qname outcome
  | _ => True

/-- A configured upstream: what its lookups share, and the lookups. -/
structure Upstream where
  breaker : Breaker := default
  inflight : ℕ := 0
  lookups : ℕ → Option Lookup := fun _ => none

namespace Upstream

/-- An upstream that has not been asked. -/
def new : Upstream := {}

/-- A step of a lookup, with the reading of the clock where the step takes one. -/
inductive Action
  | start (id : ℕ) (qname : Name) (now : ℕ)
  | acquire (id : ℕ)
  | ask (id : ℕ)
  | finish (id : ℕ) (now : ℕ) (outcome : LookupOutcome)
  | release (id : ℕ)
  | cancel (id : ℕ)
  deriving DecidableEq

/-- The lookup `id` is now at a stage. -/
def setStage (u : Upstream) (id : ℕ) (qname : Name) (stage : Stage) : Upstream :=
  { u with lookups := Function.update u.lookups id (some ⟨qname, stage⟩) }

/-- The answer of the upstream is recorded and filtered. -/
def answer (u : Upstream) (id : ℕ) (qname upQname : Name) (now : ℕ) :
    LookupOutcome → Option Upstream
  | .found answers =>
    some ({ u with breaker := u.breaker.recordSuccess }.setStage id qname
      (.answered (filterUpstream qname upQname answers)))
  | .failed =>
    -- a negative answer is the normal case, not a failure of the upstream
    some ({ u with breaker := u.breaker.recordSuccess }.setStage id qname (.answered []))
  | .timedOut =>
    some ({ u with breaker := (u.breaker.recordFailure now).2 }.setStage id qname (.answered []))
  | .breakerOpen => none
  | .saturated => none

/-- A step of one of the lookups. -/
def step (u : Upstream) : Action → Option Upstream
  | .start id qname now =>
    match u.lookups id with
    | some _ => none
    | none =>
      let (isOpen, breaker) := u.breaker.isOpen now
      if isOpen then some ({ u with breaker }.setStage id qname (.done []))
      else some ({ u with breaker }.setStage id qname .passed)
  | .acquire id =>
    match u.lookups id with
    | some ⟨qname, .passed⟩ =>
      -- no permit means the upstream is already saturated: skip it rather than queue
      if u.inflight < maxInflight then
        some ({ u with inflight := u.inflight + 1 }.setStage id qname .permitted)
      else some (u.setStage id qname (.done []))
    | _ => none
  | .ask id =>
    match u.lookups id with
    | some ⟨qname, .permitted⟩ =>
      match upstreamQname qname with
      | some upQname => some (u.setStage id qname (.asking upQname))
      | none => some ({ u with inflight := u.inflight - 1 }.setStage id qname (.done []))
    | _ => none
  | .finish id now outcome =>
    match u.lookups id with
    | some ⟨qname, .asking upQname⟩ => u.answer id qname upQname now outcome
    | _ => none
  | .release id =>
    match u.lookups id with
    | some ⟨qname, .answered records⟩ =>
      some ({ u with inflight := u.inflight - 1 }.setStage id qname (.done records))
    | _ => none
  | .cancel id =>
    match u.lookups id with
    | some ⟨_, .asking _⟩ =>
      some { u with inflight := u.inflight - 1, lookups := Function.update u.lookups id none }
    | _ => none

/-- The call on the breaker a step makes. -/
def Action.call? : Action → Option Breaker.Call
  | .start _ _ now => some (.isOpen now)
  | .finish _ now .timedOut => some (.recordFailure now)
  | .finish _ _ _ => some .recordSuccess
  | _ => none

/-- The breaker's part of a run. -/
def calls (actions : List Action) : List Breaker.Call := actions.filterMap Action.call?

/-- Every answer waited for is a timeout. -/
def TimesOut (actions : List Action) : Prop :=
  ∀ id now outcome, .finish id now outcome ∈ actions → outcome = .timedOut

section Steps

variable {u u' : Upstream} {a : Action}

/-- The stage of a lookup is not part of the breaker. -/
@[simp] lemma setStage_breaker (id : ℕ) (qname : Name) (stage : Stage) :
    (u.setStage id qname stage).breaker = u.breaker := rfl

/-- Nor of the count of the permits. -/
@[simp] lemma setStage_inflight (id : ℕ) (qname : Name) (stage : Stage) :
    (u.setStage id qname stage).inflight = u.inflight := rfl

/-- The breaker after a step is what the step's call leaves, if it makes one. -/
def Action.leaves (a : Action) (breaker : Breaker) : Breaker :=
  a.call?.elim breaker fun c => (breaker.call c).2

/-- What an action can do: make its call on the breaker, take a permit if one is left or give one
back, and move one lookup on, faithfully. -/
structure Moves (u : Upstream) (a : Action) (u' : Upstream) : Prop where
  breaker : u'.breaker = a.leaves u.breaker
  inflight : u'.inflight ≤ max u.inflight maxInflight
  lookups : ∃ id look, u'.lookups = Function.update u.lookups id look ∧
    ((∀ l, u.lookups id = some l → l.Faithful) → ∀ l, look = some l → l.Faithful)

/-- A lookup is moved to a stage, and the breaker and the permits with it. -/
lemma moves_setStage {breaker : Breaker} {inflight id : ℕ} {qname : Name} {stage : Stage}
    (hbreaker : breaker = a.leaves u.breaker) (hinflight : inflight ≤ max u.inflight maxInflight)
    (hfaithful : (∀ l, u.lookups id = some l → l.Faithful) → Lookup.Faithful ⟨qname, stage⟩) :
    Moves u a ({ u with breaker, inflight }.setStage id qname stage) := by
  refine ⟨hbreaker, hinflight, id, some ⟨qname, stage⟩, rfl, fun hold l hl => ?_⟩
  obtain rfl := Option.some.inj hl
  exact hfaithful hold

/-- **What the upstream says is kept faithfully**, if the name asked is that of the query. -/
lemma moves_answer {id now : ℕ} {qname upQname : Name} {outcome : LookupOutcome}
    (hid : u.lookups id = some ⟨qname, .asking upQname⟩)
    (h : u.answer id qname upQname now outcome = some u') :
    Moves u (.finish id now outcome) u' := by
  cases outcome with
  | found answers =>
    cases h
    refine moves_setStage rfl (le_max_left _ _) fun hold => ⟨.found answers, ?_⟩
    have hup : upstreamQname qname = some upQname := hold _ hid
    simp only [lookupPtr, hup]
  | failed =>
    cases h
    exact moves_setStage rfl (le_max_left _ _) fun _ => ⟨.failed, rfl⟩
  | timedOut =>
    cases h
    exact moves_setStage rfl (le_max_left _ _) fun _ => ⟨.timedOut, rfl⟩
  | breakerOpen => cases h
  | saturated => cases h

/-- **Every step moves one lookup on.** -/
lemma step_cases (hstep : u.step a = some u') : Moves u a u' := by
  have hless : u.inflight - 1 ≤ max u.inflight maxInflight := by omega
  cases a with
  | start id qname now =>
    cases hid : u.lookups id with
    | some l => simp [step, hid] at hstep
    | none =>
      simp only [step, hid] at hstep
      split at hstep
      · cases hstep
        exact moves_setStage rfl (le_max_left _ _) fun _ => ⟨.breakerOpen, rfl⟩
      · cases hstep
        exact moves_setStage rfl (le_max_left _ _) fun _ => trivial
  | acquire id =>
    simp only [step] at hstep
    split at hstep
    · split at hstep
      · next hpermit =>
        cases hstep
        refine moves_setStage rfl ?_ fun _ => trivial
        show u.inflight + 1 ≤ max u.inflight maxInflight
        omega
      · cases hstep
        exact moves_setStage rfl (le_max_left _ _) fun _ => ⟨.saturated, rfl⟩
    · cases hstep
  | ask id =>
    simp only [step] at hstep
    split at hstep
    · next qname _ =>
      cases hup : upstreamQname qname with
      | some upQname =>
        simp only [hup] at hstep
        cases hstep
        exact moves_setStage rfl (le_max_left _ _) fun _ => hup
      | none =>
        simp only [hup] at hstep
        cases hstep
        exact moves_setStage rfl hless fun _ => ⟨.failed, rfl⟩
    · cases hstep
  | finish id now outcome =>
    simp only [step] at hstep
    split at hstep
    · next hid => exact moves_answer hid hstep
    · cases hstep
  | release id =>
    simp only [step] at hstep
    split at hstep
    · next qname records hid =>
      cases hstep
      exact moves_setStage rfl hless fun hold => hold ⟨qname, .answered records⟩ hid
    · cases hstep
  | cancel id =>
    simp only [step] at hstep
    split at hstep
    · cases hstep
      exact ⟨rfl, hless, id, none, rfl, fun _ l hl => by cases hl⟩
    · cases hstep

end Steps

/-! ### Runs -/

section Runs

variable {u u' : Upstream} {actions : List Action} (hexec : Run.exec step u actions = some u')

include hexec

/-- **Interleavings are lists of calls**: whatever the order of the lookups' steps, the breaker is
after its own calls in the order they were made. -/
theorem breaker_of_exec : u'.breaker = Mealy.final Breaker.call u.breaker (calls actions) := by
  induction actions generalizing u with
  | nil =>
    obtain rfl : u = u' := Option.some.inj hexec
    rfl
  | cons a actions ih =>
    obtain ⟨u₁, h₁, hrest⟩ := Option.bind_eq_some_iff.mp hexec
    rw [ih hrest, (step_cases h₁).breaker, Action.leaves, calls, calls]
    cases hcall : a.call? with
    | none => rw [List.filterMap_cons_none hcall, Option.elim_none]
    | some c => rw [List.filterMap_cons_some hcall, Option.elim_some, Mealy.final_cons]

/-- No more lookups wait for the upstream than there are permits. -/
theorem inflight_of_exec (hinflight : u.inflight ≤ maxInflight) : u'.inflight ≤ maxInflight :=
  Run.exec_preserves (fun _ _ _ hstep h => (step_cases hstep).inflight.trans (max_le h le_rfl))
    hexec hinflight

/-- What is kept with the lookups stays right. -/
lemma faithful_of_exec (hfaithful : ∀ id l, u.lookups id = some l → l.Faithful) :
    ∀ id l, u'.lookups id = some l → l.Faithful := by
  have hpreserved : ∀ (s : Upstream) a s', step s a = some s' →
      (∀ id l, s.lookups id = some l → l.Faithful) →
      ∀ id l, s'.lookups id = some l → l.Faithful := by
    intro s a s' hstep hold id' l hl
    obtain ⟨id, look, hlookups, hlook⟩ := (step_cases hstep).lookups
    rw [hlookups, Function.update_apply] at hl
    split_ifs at hl with hid
    · exact hlook (hold id) l hl
    · exact hold id' l hl
  exact Run.exec_preserves hpreserved hexec hfaithful

end Runs

/-- **What a lookup returns** is `lookupPtr` of its name and of what became of it. -/
theorem records_of_exec {u : Upstream} {actions : List Action}
    (hexec : Run.exec step new actions = some u) {id : ℕ} {qname : Name} {records : List Record}
    (hdone : u.lookups id = some ⟨qname, .done records⟩) :
    ∃ outcome, records = lookupPtr qname outcome :=
  faithful_of_exec hexec (fun _ _ h => by cases h) id _ hdone

/-- Timeouts are not recorded as successes. -/
lemma ne_recordSuccess_of_timesOut {actions : List Action} (hout : TimesOut actions)
    {c : Breaker.Call} (hc : c ∈ calls actions) : c ≠ .recordSuccess := by
  rintro rfl
  obtain ⟨a, ha, hcall⟩ := List.mem_filterMap.mp hc
  cases a with
  | finish id now outcome =>
    cases hout id now outcome ha
    cases hcall
  | _ => cases hcall

/-- The history of a run in which the breaker trips. -/
lemma history_of_trip {before : List Action} {u₁ : Upstream}
    (hbefore : Run.exec step new before = some u₁) (id t₀ : ℕ) (between : List Action) :
    ∃ newer, Breaker.history (calls (before ++ .finish id t₀ .timedOut :: between)) =
        Breaker.history (calls before) ++ (u₁.breaker, .recordFailure t₀) :: newer ∧
      newer.map Prod.snd = calls between := by
  have hu₁ : u₁.breaker = Breaker.after (calls before) := breaker_of_exec hbefore
  rw [calls, List.filterMap_append, Breaker.history, Mealy.visited_append, hu₁]
  exact ⟨_, rfl, Mealy.map_snd_visited ..⟩

/-- **Skipping**: after a trip, as long as every answer is a timeout, a lookup that starts within
the cooldown returns nothing at once. -/
theorem skips_after_trip {before between : List Action} {u₁ u₂ u₃ : Upstream} {id t₀ : ℕ}
    (hbefore : Run.exec step new before = some u₁)
    (htrip : (u₁.breaker.recordFailure t₀).1 = true)
    (hrun : Run.exec step new (before ++ .finish id t₀ .timedOut :: between) = some u₂)
    (hout : TimesOut between) {id' t : ℕ} {qname : Name}
    (horder : Breaker.InOrder
      (calls (before ++ .finish id t₀ .timedOut :: between) ++ [.isOpen t]))
    (ht : t < t₀ + breakerCooldown) (hstart : u₂.step (.start id' qname t) = some u₃) :
    u₃.lookups id' = some ⟨qname, .done []⟩ := by
  obtain ⟨newer, hhistory, hnewer⟩ := history_of_trip hbefore id t₀ between
  have hsuccess : ∀ e ∈ newer, e.2 ≠ .recordSuccess := fun e he =>
    ne_recordSuccess_of_timesOut hout (hnewer ▸ List.mem_map_of_mem he)
  have hopen : (u₂.breaker.isOpen t).1 = true := by
    rw [breaker_of_exec hrun]
    exact Breaker.isOpen_of_trip hhistory ⟨rfl, htrip⟩ hsuccess horder ht
  simp only [step, hopen] at hstart
  split at hstart
  · cases hstart
  · cases hstart
    exact Function.update_self ..

/-- **The circuit breaker meets its specification over any interleaving.** Every list of calls
leaves a breaker that meets it; the lookups of an upstream, in any interleaving, make such a list;
and where every answer is a timeout no lookup passes within a cooldown of a trip. -/
theorem breaker_spec :
    (∀ cs, Breaker.Spec cs) ∧
    (∀ actions u, Run.exec step new actions = some u → u.breaker = Breaker.after (calls actions)) ∧
    ∀ before u₁ id t₀ between u₂ id' qname t u₃,
      Run.exec step new before = some u₁ → (u₁.breaker.recordFailure t₀).1 = true →
      Run.exec step new (before ++ .finish id t₀ .timedOut :: between) = some u₂ →
      TimesOut between →
      Breaker.InOrder (calls (before ++ .finish id t₀ .timedOut :: between) ++ [.isOpen t]) →
      t < t₀ + breakerCooldown → u₂.step (.start id' qname t) = some u₃ →
      u₃.lookups id' = some ⟨qname, .done []⟩ :=
  ⟨Breaker.spec, fun _ _ hexec => breaker_of_exec hexec,
    fun _ _ _ _ _ _ _ _ _ _ hbefore htrip hrun hout horder ht hstart =>
      skips_after_trip hbefore htrip hrun hout horder ht hstart⟩

/-- Eight lookups that have asked and not been answered, and seven of them timed out. -/
def sevenTimeouts : List Action :=
  (List.range 8).flatMap (fun id => [.start id .root id, .acquire id, .ask id]) ++
    (List.range 7).map fun id => .finish id (10 + id) .timedOut

/-- The eighth timeout trips, and a lookup that starts a second later returns nothing. -/
theorem breaker_spec_sevenTimeouts :
    ∃ u₁ u₂ u₃, Run.exec step new sevenTimeouts = some u₁ ∧
      Run.exec step new (sevenTimeouts ++ .finish 7 17 .timedOut :: []) = some u₂ ∧
      u₂.step (.start 8 .root (10 ^ 9)) = some u₃ ∧
      u₃.lookups 8 = some ⟨.root, .done []⟩ := by
  obtain ⟨u₁, hbefore⟩ := Option.isSome_iff_exists.mp
    (show (Run.exec step new sevenTimeouts).isSome = true by decide +kernel)
  obtain ⟨u₃, hall⟩ := Option.isSome_iff_exists.mp
    (show (Run.exec step new ((sevenTimeouts ++ .finish 7 17 .timedOut :: []) ++
      [.start 8 .root (10 ^ 9)])).isSome = true by decide +kernel)
  rw [Run.exec_append] at hall
  obtain ⟨u₂, hrun, hlast⟩ := Option.bind_eq_some_iff.mp hall
  obtain ⟨_, hstart, hnil⟩ := Option.bind_eq_some_iff.mp hlast
  obtain rfl := Option.some.inj hnil
  refine ⟨u₁, u₂, _, hbefore, hrun, hstart,
    breaker_spec.2.2 _ u₁ 7 17 [] u₂ 8 .root _ _ hbefore ?_ hrun ?_ ?_ (by decide) hstart⟩
  · rw [breaker_spec.2.1 _ _ hbefore]
    decide +kernel
  · intro id now outcome hmem
    cases hmem
  · unfold Breaker.InOrder
    decide +kernel

end Upstream

end PanoptiDns
