import Mathlib.Data.Finset.Card
import PanoptiDns.Upstream.Lookups

set_option relaxedAutoImplicit false
set_option autoImplicit false

/-!
# Permits do not leak

A lookup holds a permit from the moment it is given one until it returns or is given up. This file
says that the count of permits in use is the number of lookups that hold one, in every interleaving
and however lookups end; so that none is lost, and a lookup is turned away only when all are in
use.

## Main definitions

* `Upstream.Holds` — the lookups that hold a permit.
* `Upstream.Accounts` — the count of permits in use is right.

## Main results

* `Upstream.permits_exact` — permits in every run, and who is turned away.
-/

namespace PanoptiDns

/-- A lookup at this stage holds a permit. -/
def Stage.HasPermit : Stage → Prop
  | .permitted => True
  | .asking _ => True
  | .answered _ => True
  | _ => False

namespace Upstream

/-- The lookup holds a permit. -/
def Holds (u : Upstream) (id : ℕ) : Prop := ∃ l, u.lookups id = some l ∧ l.stage.HasPermit

/-- **The count is right**: the holders are these, as many as are counted, and no more than there
are permits. -/
structure Accounts (u : Upstream) (holders : Finset ℕ) : Prop where
  mem_iff : ∀ id, id ∈ holders ↔ u.Holds id
  inflight : u.inflight = holders.card
  le : holders.card ≤ maxInflight

variable {u u' : Upstream} {holders : Finset ℕ}

/-- A lookup holds a permit iff its stage does. -/
lemma holds_iff {id : ℕ} {qname : Name} {stage : Stage} (h : u.lookups id = some ⟨qname, stage⟩) :
    u.Holds id ↔ stage.HasPermit := by
  simp [Holds, h]

/-- What a step does with the permits: the lookup that moves on keeps what it has, takes a permit
if one is left, or gives its own back. -/
inductive Passes (u u' : Upstream) (id : ℕ) : Prop
  | keeps (hsame : u'.Holds id ↔ u.Holds id) (hcount : u'.inflight = u.inflight)
  | takes (hbefore : ¬u.Holds id) (hafter : u'.Holds id) (hleft : u.inflight < maxInflight)
      (hcount : u'.inflight = u.inflight + 1)
  | gives (hbefore : u.Holds id) (hafter : ¬u'.Holds id) (hcount : u'.inflight = u.inflight - 1)

/-- **The count follows the permits.** -/
lemma Accounts.passes {id : ℕ} (h : u.Accounts holders)
    (hothers : ∀ id', id' ≠ id → u'.lookups id' = u.lookups id') (hpasses : Passes u u' id) :
    ∃ holders', u'.Accounts holders' := by
  have hother : ∀ id', id' ≠ id → (u'.Holds id' ↔ u.Holds id') := by
    intro id' hne
    rw [Holds, Holds, hothers id' hne]
  cases hpasses with
  | keeps hsame hcount =>
    refine ⟨holders, fun id' => ?_, hcount.trans h.inflight, h.le⟩
    by_cases hid : id' = id
    · rw [h.mem_iff, hid, hsame]
    · rw [h.mem_iff, hother id' hid]
  | takes hbefore hafter hleft hcount =>
    have hnotMem : id ∉ holders := fun hmem => hbefore ((h.mem_iff id).mp hmem)
    refine ⟨insert id holders, fun id' => ?_, ?_, ?_⟩
    · rw [Finset.mem_insert, h.mem_iff]
      by_cases hid : id' = id
      · simp [hid, hafter]
      · simp [hid, hother id' hid]
    · rw [hcount, h.inflight, Finset.card_insert_of_notMem hnotMem]
    · rw [Finset.card_insert_of_notMem hnotMem, ← h.inflight]
      exact hleft
  | gives hbefore hafter hcount =>
    have hmem : id ∈ holders := (h.mem_iff id).mpr hbefore
    refine ⟨holders.erase id, fun id' => ?_, ?_, (Finset.card_erase_le).trans h.le⟩
    · rw [Finset.mem_erase, h.mem_iff]
      by_cases hid : id' = id
      · simp [hid, hafter]
      · simp [hid, hother id' hid]
    · rw [hcount, h.inflight, Finset.card_erase_of_mem hmem]

/-- So it is after its stage has changed. -/
lemma holds_setStage (v : Upstream) (id : ℕ) (qname : Name) (stage : Stage) :
    (v.setStage id qname stage).Holds id ↔ stage.HasPermit :=
  holds_iff (Function.update_self ..)

/-- The other lookups stay where they are. -/
lemma lookups_setStage_of_ne (v : Upstream) {id id' : ℕ} (qname : Name) (stage : Stage)
    (hne : id' ≠ id) : (v.setStage id qname stage).lookups id' = v.lookups id' :=
  Function.update_of_ne hne _ _

/-- **Every step keeps, takes or gives back a permit**, for one lookup. -/
lemma passes_of_step {a : Action} (hstep : u.step a = some u') :
    ∃ id, (∀ id', id' ≠ id → u'.lookups id' = u.lookups id') ∧ Passes u u' id := by
  cases a with
  | start id qname now =>
    refine ⟨id, ?_⟩
    cases hid : u.lookups id with
    | some l => simp [step, hid] at hstep
    | none =>
      have hbefore : ¬u.Holds id := by simp [Holds, hid]
      simp only [step, hid] at hstep
      split at hstep <;> cases hstep
      · exact ⟨fun _ => lookups_setStage_of_ne _ _ _,
          .keeps (by simp [holds_setStage, hbefore, Stage.HasPermit]) rfl⟩
      · exact ⟨fun _ => lookups_setStage_of_ne _ _ _,
          .keeps (by simp [holds_setStage, hbefore, Stage.HasPermit]) rfl⟩
  | acquire id =>
    refine ⟨id, ?_⟩
    simp only [step] at hstep
    split at hstep
    · rename_i qname hid
      have hbefore : ¬u.Holds id := by simp [holds_iff hid, Stage.HasPermit]
      split at hstep
      · rename_i hleft
        cases hstep
        exact ⟨fun _ => lookups_setStage_of_ne _ _ _,
          .takes hbefore ((holds_setStage ..).mpr trivial) hleft rfl⟩
      · cases hstep
        exact ⟨fun _ => lookups_setStage_of_ne _ _ _,
          .keeps (by simp [holds_setStage, hbefore, Stage.HasPermit]) rfl⟩
    · cases hstep
  | ask id =>
    refine ⟨id, ?_⟩
    simp only [step] at hstep
    split at hstep
    · rename_i qname hid
      have hbefore : u.Holds id := (holds_iff hid).mpr trivial
      cases hup : upstreamQname qname with
      | some upQname =>
        simp only [hup] at hstep
        cases hstep
        exact ⟨fun _ => lookups_setStage_of_ne _ _ _,
          .keeps (by simp [holds_setStage, hbefore, Stage.HasPermit]) rfl⟩
      | none =>
        simp only [hup] at hstep
        cases hstep
        exact ⟨fun _ => lookups_setStage_of_ne _ _ _,
          .gives hbefore (by simp [holds_setStage, Stage.HasPermit]) rfl⟩
    · cases hstep
  | finish id now outcome =>
    refine ⟨id, ?_⟩
    simp only [step] at hstep
    split at hstep
    · rename_i qname upQname hid
      have hbefore : u.Holds id := (holds_iff hid).mpr trivial
      cases outcome with
      | breakerOpen | saturated => cases hstep
      | found | failed | timedOut =>
        cases hstep
        exact ⟨fun _ => lookups_setStage_of_ne _ _ _,
          .keeps (by simp [holds_setStage, hbefore, Stage.HasPermit]) rfl⟩
    · cases hstep
  | release id =>
    refine ⟨id, ?_⟩
    simp only [step] at hstep
    split at hstep
    · rename_i qname records hid
      cases hstep
      exact ⟨fun _ => lookups_setStage_of_ne _ _ _, .gives ((holds_iff hid).mpr trivial)
        (by simp [holds_setStage, Stage.HasPermit]) rfl⟩
    · cases hstep
  | cancel id =>
    refine ⟨id, ?_⟩
    simp only [step] at hstep
    split at hstep
    · rename_i qname upQname hid
      cases hstep
      exact ⟨fun _ hne => Function.update_of_ne hne _ _,
        .gives ((holds_iff hid).mpr trivial) (by simp [Holds]) rfl⟩
    · cases hstep

/-- The count is right in every run. -/
lemma accounts_of_exec {actions : List Action} (hexec : Run.exec step u actions = some u')
    (h : ∃ holders, u.Accounts holders) : ∃ holders, u'.Accounts holders := by
  have hpreserved : ∀ (s : Upstream) a s', step s a = some s' →
      (∃ holders, s.Accounts holders) → ∃ holders, s'.Accounts holders := by
    rintro s a s' hstep ⟨holders, h⟩
    obtain ⟨id, hothers, hpasses⟩ := passes_of_step hstep
    exact h.passes hothers hpasses
  exact Run.exec_preserves hpreserved hexec h

/-- **Permits are exact.** In every interleaving of lookups, however they end, the count of permits
in use is the number of lookups that hold one, at most 64. A lookup that tries for a permit never
waits: it has one after the step, or it returns nothing; and it returns nothing exactly when 64
others hold one. -/
theorem permits_exact {actions : List Action} (hexec : Run.exec step new actions = some u) :
    ∃ holders : Finset ℕ, (∀ id, id ∈ holders ↔ u.Holds id) ∧ u.inflight = holders.card ∧
      holders.card ≤ maxInflight ∧
      ∀ id qname, u.lookups id = some ⟨qname, .passed⟩ →
        ∃ u', u.step (.acquire id) = some u' ∧
          (u'.Holds id ∨ u'.lookups id = some ⟨qname, .done []⟩) ∧
          (¬u'.Holds id ↔ holders.card = maxInflight) := by
  have hnew : new.Accounts ∅ := ⟨by simp [Holds, new], rfl, by simp⟩
  obtain ⟨holders, h⟩ := accounts_of_exec hexec ⟨∅, hnew⟩
  refine ⟨holders, h.mem_iff, h.inflight, h.le, fun id qname hid => ?_⟩
  have hle := h.le
  simp only [step, hid]
  split
  · rename_i hleft
    rw [h.inflight] at hleft
    have hholds : ({ u with inflight := u.inflight + 1 }.setStage id qname .permitted).Holds id :=
      (holds_setStage ..).mpr trivial
    exact ⟨_, rfl, .inl hholds, by simp [hholds]; omega⟩
  · rename_i hfull
    rw [h.inflight] at hfull
    have hholds : ¬(u.setStage id qname (.done [])).Holds id := by
      simp [holds_setStage, Stage.HasPermit]
    exact ⟨_, rfl, .inr (Function.update_self ..), by simp [hholds]; omega⟩

/-- Eight lookups that have not returned hold eight permits. -/
theorem permits_exact_sevenTimeouts :
    ∃ (u : Upstream) (holders : Finset ℕ), Run.exec step new sevenTimeouts = some u ∧
      (∀ id, id ∈ holders ↔ u.Holds id) ∧
      holders.card = 8 := by
  have hcount : (Run.exec step new sevenTimeouts).map Upstream.inflight = some 8 := by
    decide +kernel
  obtain ⟨u, hu, hinflight⟩ := Option.map_eq_some_iff.mp hcount
  obtain ⟨holders, hmem, hcard, -⟩ := permits_exact hu
  exact ⟨u, holders, hu, hmem, hcard.symm.trans hinflight⟩

end Upstream

end PanoptiDns
