import Mathlib.Tactic.Common

set_option relaxedAutoImplicit false
set_option autoImplicit false

/-!
# Runs of a machine that answers

A machine takes an input in a state, answers and moves on. Every input can be taken, so a run is
just the list of its inputs. What a run did is recorded as the inputs with the states they found.

## Main definitions

* `Mealy.final` — the state after a list of inputs.
* `Mealy.visited` — the inputs of a run with the states they found.
* `Mealy.answers` — the answers to the inputs of a run.

## Main results

* `Mealy.eq_append_of_visited` — a run splits where its record does.
* `Mealy.answers_seen` — the part of a run that a smaller machine reproduces.
-/

namespace Mealy

variable {S A B : Type} (step : S → A → B × S)

/-- The state after a list of inputs. -/
def final (s : S) (as : List A) : S := as.foldl (fun s a => (step s a).2) s

/-- The inputs of a run with the states they found. -/
def visited : S → List A → List (S × A)
  | _, [] => []
  | s, a :: as => (s, a) :: visited (step s a).2 as

/-- The answers to the inputs of a run. -/
def answers (s : S) (as : List A) : List B :=
  (visited step s as).map fun v => (step v.1 v.2).1

/-- No inputs, no change. -/
@[simp] lemma final_nil (s : S) : final step s [] = s := rfl

/-- The final state is that of the rest, from the state after one step. -/
@[simp] lemma final_cons (s : S) (a : A) (as : List A) :
    final step s (a :: as) = final step (step s a).2 as := rfl

/-- The second part of a run starts where the first one ended. -/
lemma final_append (s : S) (as bs : List A) :
    final step s (as ++ bs) = final step (final step s as) bs := List.foldl_append

/-- No inputs, nothing visited. -/
@[simp] lemma visited_nil (s : S) : visited step s [] = [] := rfl

/-- The first input meets the state the run starts in. -/
@[simp] lemma visited_cons (s : S) (a : A) (as : List A) :
    visited step s (a :: as) = (s, a) :: visited step (step s a).2 as := rfl

/-- The second part of a run visits what it does from where the first one ended. -/
lemma visited_append (s : S) (as bs : List A) :
    visited step s (as ++ bs) = visited step s as ++ visited step (final step s as) bs := by
  induction as generalizing s with
  | nil => rfl
  | cons a as ih => rw [List.cons_append, visited_cons, ih, visited_cons, final_cons,
      List.cons_append]

/-- No inputs, no answers. -/
@[simp] lemma answers_nil (s : S) : answers step s [] = [] := rfl

/-- The first answer is that of the first step. -/
@[simp] lemma answers_cons (s : S) (a : A) (as : List A) :
    answers step s (a :: as) = (step s a).1 :: answers step (step s a).2 as := rfl

/-- The answers of a run in two parts. -/
lemma answers_append (s : S) (as bs : List A) :
    answers step s (as ++ bs) = answers step s as ++ answers step (final step s as) bs := by
  rw [answers, visited_append, List.map_append]
  rfl

/-- The inputs of what is visited are those of the run. -/
@[simp] lemma map_snd_visited (s : S) (as : List A) : (visited step s as).map Prod.snd = as := by
  induction as generalizing s with
  | nil => rfl
  | cons a as ih => rw [visited_cons, List.map_cons, ih]

variable {step}

/-- **Records split as runs do**: what comes before an entry is the record of a run to the state
it found, and what comes after is the record of a run from the state it left. -/
theorem eq_append_of_visited {s : S} {as : List A} {older newer : List (S × A)} {v : S × A}
    (h : visited step s as = older ++ v :: newer) :
    as = older.map Prod.snd ++ v.2 :: newer.map Prod.snd ∧
      visited step s (older.map Prod.snd) = older ∧
      final step s (older.map Prod.snd) = v.1 ∧
      visited step (step v.1 v.2).2 (newer.map Prod.snd) = newer := by
  induction older generalizing s as with
  | nil =>
    cases as with
    | nil => exact absurd h (by simp)
    | cons a as =>
      obtain ⟨rfl, rfl⟩ := List.cons.inj h
      simp
  | cons u older ih =>
    cases as with
    | nil => exact absurd h (by simp)
    | cons a as =>
      obtain ⟨rfl, hrest⟩ := List.cons.inj h
      obtain ⟨has, hvisited, hfinal, hnewer⟩ := ih hrest
      refine ⟨?_, ?_, hfinal, hnewer⟩
      · rw [has, List.map_cons, List.cons_append]
      · rw [List.map_cons, visited_cons, hvisited]

section Seen

variable {V C B' : Type} {sees : A → Option C}

/-- The answers to the inputs that are seen. -/
def answersSeen (step : S → A → B × S) (sees : A → Option C) (s : S) (as : List A) : List B :=
  ((visited step s as).filter fun v => (sees v.2).isSome).map fun v => (step v.1 v.2).1

/-- **Unwinding**: if a smaller machine answers every input that is seen and moves as the part of
the state in view does, and an input that is not seen leaves that part such that the answers to
the inputs seen later are the same, then the answers to the inputs that are seen are those of the
smaller machine. -/
theorem answers_seen (out : B → B') (cell : V → C → B' × V) (view : S → V)
    (Follows : A → List C → Prop) {inv : S → Prop}
    (hinv : ∀ s a, inv s → inv (step s a).2)
    (hseen : ∀ s a c, inv s → sees a = some c →
      out (step s a).1 = (cell (view s) c).1 ∧ view (step s a).2 = (cell (view s) c).2)
    (hunseen : ∀ s a cs, inv s → sees a = none → Follows a cs →
      answers cell (view (step s a).2) cs = answers cell (view s) cs)
    {as : List A} (hfollows : ∀ older a newer, as = older ++ a :: newer → sees a = none →
      Follows a (newer.filterMap sees)) {s : S} (hs : inv s) :
    (answersSeen step sees s as).map out = answers cell (view s) (as.filterMap sees) := by
  induction as generalizing s with
  | nil => rfl
  | cons a as ih =>
    have hrest := ih (fun older b newer has => hfollows (a :: older) b newer (by rw [has]; rfl))
      (hinv s a hs)
    simp only [answersSeen] at hrest ⊢
    cases hsees : sees a with
    | none =>
      rw [List.filterMap_cons_none hsees, ← hunseen s a _ hs hsees (hfollows [] a as rfl hsees),
        ← hrest, visited_cons, List.filter_cons_of_neg (by simp [hsees])]
    | some c =>
      obtain ⟨hanswer, hview⟩ := hseen s a c hs hsees
      rw [List.filterMap_cons_some hsees, answers_cons, ← hanswer, ← hview, ← hrest,
        visited_cons, List.filter_cons_of_pos (by simp [hsees]), List.map_cons, List.map_cons]

end Seen

end Mealy
