import Mathlib.Data.List.Basic
import Mathlib.Tactic.Common

set_option relaxedAutoImplicit false
set_option autoImplicit false

/-!
# First match in a ranked list

A list sorted by decreasing rank is scanned for the first element with a property. When no two
elements with the property have the same rank, the scan finds the one of the greatest rank, and
the order of the list no longer matters. When the elements with the property are nested instead,
the scan finds the innermost one if nothing is listed before what it is above. A scan for either of
two properties is the scan for the first of them, unless the second one shows earlier.

## Main results

* `FirstMatch.find?_eq_some_iff` — what the scan finds.
* `FirstMatch.find?_eq_of_perm` — it depends on the elements only.
* `FirstMatch.above_of_find?` — the same for nested matches, in place of ranked ones.
* `FirstMatch.find?_or_eq_iff` — when a second property does not change the match.
-/

namespace FirstMatch

variable {α : Type} {rank : α → ℕ} {p : α → Bool} {l : List α}

section Ranked

variable (hsorted : l.Pairwise fun x y => rank y ≤ rank x)
  (htie : l.Pairwise fun x y => p x = true → p y = true → rank x ≠ rank y)

include hsorted htie

/-- **The scan finds the element of greatest rank.**

**Proof sketch.** The list splits at the first match. What comes before does not match; what
comes after has at most its rank, and not the same one if it matches. -/
lemma find?_eq_some_iff {x : α} :
    l.find? p = some x ↔
      x ∈ l ∧ p x = true ∧ ∀ y ∈ l, y ≠ x → p y = true → rank y < rank x := by
  constructor
  · intro h
    refine ⟨List.mem_of_find?_eq_some h, List.find?_some h, ?_⟩
    obtain ⟨hx, pre, post, rfl, hpre⟩ := List.find?_eq_some_iff_append.mp h
    intro y hy hne hpy
    rw [List.pairwise_append, List.pairwise_cons] at hsorted htie
    rcases List.mem_append.mp hy with hy | hy
    · have := hpre y hy
      simp [hpy] at this
    · rcases List.mem_cons.mp hy with rfl | hy
      · exact absurd rfl hne
      · have h₁ := hsorted.2.1.1 y hy
        have h₂ := htie.2.1.1 y hy hx hpy
        omega
  · rintro ⟨hmem, hx, hmax⟩
    have hsome : (l.find? p).isSome = true := List.find?_isSome.mpr ⟨x, hmem, hx⟩
    obtain ⟨w, hw⟩ := Option.isSome_iff_exists.mp hsome
    obtain ⟨hpw, pre, post, rfl, hpre⟩ := List.find?_eq_some_iff_append.mp hw
    rw [hw]
    by_contra hne
    have hwx : w ≠ x := fun h => hne (congrArg some h)
    have hlt := hmax w (by simp) hwx hpw
    rw [List.pairwise_append, List.pairwise_cons] at hsorted
    rcases List.mem_append.mp hmem with hmem | hmem
    · have := hpre x hmem
      simp [hx] at this
    · rcases List.mem_cons.mp hmem with rfl | hmem
      · exact hwx rfl
      · have := hsorted.2.1.1 x hmem
        omega

/-- **The order does not matter**: another sorted list of the same elements has the same match. -/
lemma find?_eq_of_perm {l' : List α} (hperm : l'.Perm l)
    (hsorted' : l'.Pairwise fun x y => rank y ≤ rank x) : l'.find? p = l.find? p := by
  have htie' := (hperm.pairwise_iff fun h hy hx => (h hx hy).symm).mpr htie
  cases hl : l.find? p with
  | some x =>
    obtain ⟨hmem, hx, hmax⟩ := (find?_eq_some_iff hsorted htie).mp hl
    apply (find?_eq_some_iff hsorted' htie').mpr
    exact ⟨hperm.mem_iff.mpr hmem, hx, fun y hy => hmax y (hperm.mem_iff.mp hy)⟩
  | none =>
    rw [List.find?_eq_none] at hl ⊢
    exact fun x hx => hl x (hperm.mem_iff.mp hx)

end Ranked

/-- **In a list in which nothing comes before what it is above**, the first match is below every
match, if matches are nested. -/
lemma above_of_find? {r : α → α → Prop}
    (hlisted : l.Pairwise fun x y => ¬r x y) (hrefl : ∀ x, r x x)
    (hnested : ∀ x y, p x = true → p y = true → r x y ∨ r y x) {x y : α}
    (h : l.find? p = some x) (hy : y ∈ l) (hpy : p y = true) : r y x := by
  obtain ⟨hx, pre, post, rfl, hpre⟩ := List.find?_eq_some_iff_append.mp h
  rw [List.pairwise_append, List.pairwise_cons] at hlisted
  rcases List.mem_append.mp hy with hy | hy
  · have := hpre y hy
    simp [hpy] at this
  · rcases List.mem_cons.mp hy with rfl | hy
    · exact hrefl y
    · exact (hnested x y hx hpy).resolve_left (hlisted.2.1.1 y hy)

/-- **A second property does not change the match** iff an element that has it is never in front of
every element with the first.

**Proof sketch.** Induction on the list: a head with the first property settles both sides, a head
with the second property only refutes both, and any other head is dropped. -/
lemma find?_or_eq_iff {r : α → Bool} (l : List α) :
    l.find? (fun x => p x || r x) = l.find? p ↔
      ∀ pre x post, l = pre ++ x :: post → r x = true → ∃ y ∈ pre ++ [x], p y = true := by
  induction l with
  | nil => simp
  | cons w l ih =>
    by_cases hp : p w = true
    · have hleft : (w :: l).find? (fun x => p x || r x) = (w :: l).find? p := by simp [hp]
      refine iff_of_true hleft ?_
      intro pre x post hsplit _
      cases pre with
      | nil => exact ⟨x, by simp, (List.cons.inj hsplit).1 ▸ hp⟩
      | cons v pre => exact ⟨v, by simp, (List.cons.inj hsplit).1 ▸ hp⟩
    · by_cases hr : r w = true
      · refine iff_of_false ?_ ?_
        · intro h
          have hw : (w :: l).find? (fun x => p x || r x) = some w := by simp [hr]
          rw [hw] at h
          exact hp (List.find?_some h.symm)
        · intro h
          obtain ⟨y, hy, hpy⟩ := h [] w l rfl hr
          rw [List.nil_append, List.mem_singleton] at hy
          exact hp (hy ▸ hpy)
      · have hleft : (w :: l).find? (fun x => p x || r x) = l.find? (fun x => p x || r x) := by
          simp [hp, hr]
        have hright : (w :: l).find? p = l.find? p := by simp [hp]
        rw [hleft, hright, ih]
        constructor
        · intro h pre x post hsplit hx
          cases pre with
          | nil => exact absurd ((List.cons.inj hsplit).1 ▸ hx) hr
          | cons v pre =>
            obtain ⟨y, hy, hpy⟩ := h pre x post (List.cons.inj hsplit).2 hx
            exact ⟨y, List.mem_cons_of_mem v hy, hpy⟩
        · intro h pre x post hsplit hx
          obtain ⟨y, hy, hpy⟩ := h (w :: pre) x post (congrArg (w :: ·) hsplit) hx
          rcases List.mem_cons.mp hy with rfl | hy
          · exact absurd hpy hp
          · exact ⟨y, hy, hpy⟩

end FirstMatch
