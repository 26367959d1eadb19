import Mathlib.Data.Set.Card

set_option relaxedAutoImplicit false
set_option autoImplicit false

/-!
# Tallies

A registry has an entry for each of finitely many keys. How many entries meet a condition changes
by at most one when the entry of a key is changed, and the change is what the old entry and the new
one contribute.

## Main definitions

* `Tally.count` — how many entries of a registry meet a condition.
* `Tally.Small` — a registry has finitely many entries.

## Main results

* `Tally.count_update` — the change of a count when an entry is changed.
-/

namespace Tally

variable {ι β : Type}

/-- How many entries meet a condition. -/
noncomputable def count (f : ι → Option β) (q : β → Bool) : ℕ := {i | (f i).any q = true}.ncard

/-- There are finitely many entries. -/
def Small (f : ι → Option β) : Prop := {i | (f i).isSome = true}.Finite

/-- An empty table is small. -/
lemma small_none : Small fun _ : ι => (none : Option β) := by simp [Small]

/-- There is nothing to count in it. -/
lemma count_none (q : β → Bool) : count (fun _ : ι => (none : Option β)) q = 0 := by simp [count]

variable {f : ι → Option β}

/-- The entries that meet a condition are finitely many. -/
lemma Small.holders (h : Small f) (q : β → Bool) : {i | (f i).any q = true}.Finite := by
  refine h.subset fun i hi => ?_
  show (f i).isSome = true
  cases hfi : f i with
  | none => simp [hfi] at hi
  | some b => rfl

/-- The count without the entry of a key. -/
lemma count_eq (h : Small f) (q : β → Bool) (i : ι) :
    count f q = ({j | (f j).any q = true} \ {i}).ncard + ((f i).any q).toNat := by
  cases hi : (f i).any q with
  | true =>
    rw [count, Bool.toNat_true]
    have hmem : i ∈ {j | (f j).any q = true} := hi
    exact (Set.ncard_sdiff_singleton_add_one hmem (h.holders q)).symm
  | false =>
    have hnot : i ∉ {j | (f j).any q = true} := by simp [hi]
    rw [count, Set.sdiff_singleton_eq_self hnot, Bool.toNat_false, Nat.add_zero]

variable [DecidableEq ι]

/-- A registry stays small. -/
lemma Small.update (h : Small f) (i : ι) (entry : Option β) :
    Small (Function.update f i entry) := by
  refine (h.insert i).subset fun j hj => ?_
  by_cases hji : j = i
  · exact .inl hji
  · have hj' : (Function.update f i entry j).isSome = true := hj
    rw [Function.update_of_ne hji] at hj'
    exact .inr hj'

/-- **The change of a count**: the old entry goes, the new one comes. -/
theorem count_update (h : Small f) (q : β → Bool) (i : ι) (entry : Option β) :
    count (Function.update f i entry) q + ((f i).any q).toNat =
      count f q + (entry.any q).toNat := by
  have hrest : {j | (Function.update f i entry j).any q = true} \ {i} =
      {j | (f j).any q = true} \ {i} := by
    ext j
    simp only [Set.mem_sdiff, Set.mem_ofPred_eq, Set.mem_singleton_iff, and_congr_left_iff]
    intro hji
    rw [Function.update_of_ne hji]
  rw [count_eq (h.update i entry) q i, count_eq h q i, hrest, Function.update_self]
  omega

end Tally
