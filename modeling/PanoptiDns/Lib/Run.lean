import Mathlib.Tactic.Common

set_option relaxedAutoImplicit false
set_option autoImplicit false

/-!
# Runs of an executable transition system

A system is a step function on states and actions, undefined where an action cannot be taken. A
run is a list of actions. Conditions on a run are conditions on each action in the state it is
taken in.

## Main definitions

* `Run.exec` — the state a run ends in.
* `Run.visited` — the actions of a run with the states they found.
* `Run.Along` — a condition holds at every step of a run.

## Main results

* `Run.exec_invariant` — what every step that meets the condition preserves, every run whose
  steps all meet it preserves; `Run.exec_preserves` — the same without a condition.
* `Run.exec_log` — a list that every action extends by its own part is the parts in order.
* `Run.exec_register` — a variable that only some actions set has the value of the last of them.
-/

namespace Run

variable {S A : Type} (step : S → A → Option S)

/-- The state a run ends in, if all its actions can be taken. -/
def exec : S → List A → Option S
  | s, [] => some s
  | s, a :: as => (step s a).bind fun s' => exec s' as

/-- The actions of a run with the states they found. -/
def visited : S → List A → List (S × A)
  | _, [] => []
  | s, a :: as => (s, a) :: (step s a).elim [] fun s' => visited s' as

/-- A condition on actions holds at every step of a run. -/
def Along (ok : S → A → Prop) : S → List A → Prop
  | _, [] => True
  | s, a :: as => ok s a ∧ ∀ s', step s a = some s' → Along ok s' as

/-- The empty run stays where it is. -/
@[simp] lemma exec_nil (s : S) : exec step s [] = some s := rfl

/-- A run is a step and a run. -/
@[simp] lemma exec_cons (s : S) (a : A) (as : List A) :
    exec step s (a :: as) = (step s a).bind fun s' => exec step s' as := rfl

/-- A run in two parts. -/
lemma exec_append (s : S) (as bs : List A) :
    exec step s (as ++ bs) = (exec step s as).bind fun s' => exec step s' bs := by
  induction as generalizing s with
  | nil => rfl
  | cons a as ih =>
    rw [List.cons_append, exec_cons, exec_cons, Option.bind_assoc]
    exact congrArg _ (funext ih)

/-- The first action meets the state the run starts in. -/
lemma visited_cons {s s' : S} {a : A} (h : step s a = some s') (as : List A) :
    visited step s (a :: as) = (s, a) :: visited step s' as := by
  rw [visited, h, Option.elim_some]

/-- The second part of a run visits what it does from where the first one ended. -/
lemma visited_append {s s' : S} {as : List A} (h : exec step s as = some s') (bs : List A) :
    visited step s (as ++ bs) = visited step s as ++ visited step s' bs := by
  induction as generalizing s with
  | nil =>
    obtain rfl : s = s' := Option.some.inj h
    rfl
  | cons a as ih =>
    obtain ⟨s₁, h₁, hrest⟩ := Option.bind_eq_some_iff.mp h
    rw [List.cons_append, visited_cons step h₁, visited_cons step h₁, ih hrest, List.cons_append]

variable {step}

/-- **Invariants of runs**: what each step preserves under the condition, a run preserves. -/
theorem exec_invariant {ok : S → A → Prop} {inv : S → Prop}
    (hstep : ∀ s a s', ok s a → step s a = some s' → inv s → inv s') {s s' : S} {as : List A}
    (hexec : exec step s as = some s') (hok : Along step ok s as) (hinv : inv s) : inv s' := by
  induction as generalizing s with
  | nil =>
    obtain rfl : s = s' := Option.some.inj hexec
    exact hinv
  | cons a as ih =>
    obtain ⟨s₁, h₁, hrest⟩ := Option.bind_eq_some_iff.mp hexec
    exact ih hrest (hok.2 s₁ h₁) (hstep s a s₁ hok.1 h₁ hinv)

/-- Nothing is asked of the steps. -/
lemma along_true (s : S) (as : List A) : Along step (fun _ _ => True) s as := by
  induction as generalizing s with
  | nil => exact trivial
  | cons a as ih => exact ⟨trivial, fun s' _ => ih s'⟩

/-- What each step preserves, a run preserves. -/
theorem exec_preserves {inv : S → Prop} (hstep : ∀ s a s', step s a = some s' → inv s → inv s')
    {s s' : S} {as : List A} (hexec : exec step s as = some s') (hinv : inv s) : inv s' :=
  exec_invariant (fun s a s' _ => hstep s a s') hexec (along_true s as) hinv

section Writes

variable {s s' : S} {as : List A} (hexec : exec step s as = some s')

include hexec

/-- What holds of every action that can be taken holds of every action of a run. -/
lemma exec_forall {p : A → Prop} (hstep : ∀ s a s', step s a = some s' → p a) :
    ∀ a ∈ as, p a := by
  induction as generalizing s with
  | nil => simp
  | cons a as ih =>
    obtain ⟨s₁, h₁, hrest⟩ := Option.bind_eq_some_iff.mp hexec
    rw [List.forall_mem_cons]
    exact ⟨hstep s a s₁ h₁, ih hrest⟩

/-- **Logs**: what each step appends, a run appends in order. -/
theorem exec_log {V : Type} (get : S → List V) {part : A → List V}
    (hstep : ∀ s a s', step s a = some s' → get s' = get s ++ part a) :
    get s' = get s ++ as.flatMap part := by
  induction as generalizing s with
  | nil =>
    obtain rfl : s = s' := Option.some.inj hexec
    simp
  | cons a as ih =>
    obtain ⟨s₁, h₁, hrest⟩ := Option.bind_eq_some_iff.mp hexec
    rw [ih hrest, hstep s a s₁ h₁, List.flatMap_cons, List.append_assoc]

/-- **Registers**: a variable that an action sets to a value it holds, or leaves alone, has the
value of the last action that holds one. -/
theorem exec_register {V W : Type} (get : S → V) (value : A → List W) {means : W → Option V}
    (hstep : ∀ s a s', step s a = some s' → (value a = [] ∧ get s' = get s) ∨
      ∃ w, value a = [w] ∧ means w = some (get s')) :
    (as.flatMap value = [] ∧ get s' = get s) ∨
      ∃ ws w, as.flatMap value = ws ++ [w] ∧ means w = some (get s') := by
  induction as generalizing s with
  | nil =>
    obtain rfl : s = s' := Option.some.inj hexec
    exact .inl ⟨rfl, rfl⟩
  | cons a as ih =>
    obtain ⟨s₁, h₁, hrest⟩ := Option.bind_eq_some_iff.mp hexec
    rw [List.flatMap_cons]
    rcases ih hrest with ⟨hnil, hget⟩ | ⟨ws, w, hlast, hmeans⟩
    · rw [hnil, List.append_nil, hget]
      rcases hstep s a s₁ h₁ with hkeep | ⟨w, hw, hmeans⟩
      · exact .inl hkeep
      · exact .inr ⟨[], w, hw, hmeans⟩
    · exact .inr ⟨value a ++ ws, w, by rw [hlast, List.append_assoc], hmeans⟩

end Writes

end Run
