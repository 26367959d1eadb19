import Mathlib.Data.List.TakeWhile
import Mathlib.Tactic.Common

set_option relaxedAutoImplicit false
set_option autoImplicit false

/-!
# Sections of a list

Some elements of a list open a section, which goes on until the next of them. What comes before
the first is the preamble.

## Main definitions

* `Sections.preamble`, `Sections.sections`, `Sections.IsSection`.

## Main results

* `Sections.preamble_append_flatten` — the preamble and the sections are the list.
-/

namespace Sections

variable {α β : Type} (opens : α → Bool)

/-- What comes before the first section. -/
def preamble (l : List α) : List α := l.takeWhile (!opens ·)

/-- The sections, each with the element that opens it. -/
def sections : List α → List (List α)
  | [] => []
  | x :: l => if opens x then (x :: preamble opens l) :: sections l else sections l

/-- An opening element, and others that do not open a section. -/
def IsSection (s : List α) : Prop := ∃ x r, s = x :: r ∧ opens x = true ∧ ∀ y ∈ r, opens y = false

/-- No element of the preamble opens a section. -/
lemma opens_of_mem_preamble {l : List α} {x : α} (hx : x ∈ preamble opens l) : opens x = false := by
  simpa using List.mem_takeWhile_imp hx

/-- **Nothing is lost**: the preamble and the sections are the list. -/
lemma preamble_append_flatten (l : List α) :
    preamble opens l ++ (sections opens l).flatten = l := by
  induction l with
  | nil => rfl
  | cons x l ih =>
    cases hx : opens x with
    | false => simpa [preamble, sections, hx] using ih
    | true => simpa [preamble, sections, hx] using ih

/-- A section starts with the element that opens it, and no other of its elements does. -/
lemma isSection_of_mem {l s : List α} (hs : s ∈ sections opens l) : IsSection opens s := by
  induction l with
  | nil => simp [sections] at hs
  | cons x l ih =>
    rw [sections] at hs
    split at hs
    · rename_i hx
      rcases List.mem_cons.mp hs with rfl | hs
      · exact ⟨x, _, rfl, hx, fun y hy => opens_of_mem_preamble opens hy⟩
      · exact ih hs
    · exact ih hs

variable (f : β → α)

/-- The preamble of the image is the image of the preamble. -/
lemma preamble_map (l : List β) :
    preamble opens (l.map f) = (preamble (fun x => opens (f x)) l).map f := by
  simp [preamble, List.takeWhile_map, Function.comp_def]

/-- The sections of the image are the images of the sections. -/
lemma sections_map (l : List β) :
    sections opens (l.map f) = (sections (fun x => opens (f x)) l).map (List.map f) := by
  induction l with
  | nil => rfl
  | cons x l ih =>
    rw [List.map_cons, sections, sections, ih, preamble_map]
    split
    · rfl
    · rfl

end Sections
