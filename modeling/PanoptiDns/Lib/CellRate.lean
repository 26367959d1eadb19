import PanoptiDns.Lib.Mealy

set_option relaxedAutoImplicit false
set_option autoImplicit false

/-!
# Metered machines

A machine that grants or refuses requests, each at a time, is metered if it keeps a theoretical
arrival time: every grant moves it on by an interval, and it is never granted far ahead of the
clock. However the requests come, few of them are granted in a short time. A machine that refuses
for no other reason is a cell, and grants all requests that keep to that bound themselves.

## Main definitions

* `CellRate.Meter` — a theoretical arrival time for a machine.
* `CellRate.Cell` — a meter that says exactly when a request is granted.
* `CellRate.Conforms` — requests that keep to the bound.

## Main results

* `CellRate.Meter.granted_mul_le` — a bound on the grants in a window of time.
* `CellRate.Cell.all_granted_iff` — a cell grants all requests iff they conform.
-/

namespace CellRate

variable {S : Type} {step : S → ℕ → Bool × S}

/-- **A theoretical arrival time** for the states of a machine that meet `inv`. A grant moves it an
interval past itself and past the clock, and finds it at most the tolerance ahead of the clock. -/
structure Meter (step : S → ℕ → Bool × S) (interval tolerance : ℕ) where
  inv : S → Prop
  arrival : S → ℕ
  inv_step : ∀ s t, inv s → inv (step s t).2
  granted : ∀ s t, inv s → (step s t).1 = true →
    arrival s ≤ t + tolerance ∧ max (arrival s) t + interval ≤ arrival (step s t).2
  refused : ∀ s t, inv s → (step s t).1 = false → arrival s ≤ arrival (step s t).2

namespace Meter

variable {interval tolerance : ℕ} (m : Meter step interval tolerance)

/-- The invariant of a meter holds after any calls. -/
lemma inv_final {s : S} (hs : m.inv s) (times : List ℕ) : m.inv (Mealy.final step s times) := by
  induction times generalizing s with
  | nil => exact hs
  | cons t times ih => exact ih (m.inv_step s t hs)

/-- **The grants in a window**, from any state: their intervals fit into the window, the tolerance
and one interval more.

**Proof sketch.** Induction on the requests, with the theoretical arrival time added: a grant makes
it an interval later, and the last grant finds it at most the tolerance after the window. -/
theorem granted_mul_le {s : S} (hs : m.inv s) {times : List ℕ} {lo hi : ℕ}
    (hwindow : ∀ t ∈ times, lo ≤ t ∧ t ≤ hi) :
    (Mealy.answers step s times).count true * interval ≤ (hi - lo) + tolerance + interval := by
  have hmain : ∀ (times : List ℕ) (s : S), m.inv s → (∀ t ∈ times, lo ≤ t ∧ t ≤ hi) →
      (Mealy.answers step s times).count true = 0 ∨
        (Mealy.answers step s times).count true * interval + max (m.arrival s) lo ≤
          hi + tolerance + interval := by
    intro times
    induction times with
    | nil => exact fun s _ _ => .inl rfl
    | cons t times ih =>
      intro s hs hwindow
      obtain ⟨hlo, hhi⟩ := hwindow t (by simp)
      have hrest := ih (step s t).2 (m.inv_step s t hs) fun u hu => hwindow u (by simp [hu])
      rw [Mealy.answers_cons]
      cases hans : (step s t).1 with
      | false =>
        have hlater := m.refused s t hs hans
        rw [List.count_cons_of_ne (by simp)]
        refine hrest.imp id fun h => ?_
        omega
      | true =>
        obtain ⟨hahead, hlater⟩ := m.granted s t hs hans
        rw [List.count_cons_self, Nat.add_mul, Nat.one_mul]
        rcases hrest with hzero | h
        · rw [hzero]
          omega
        · omega
  rcases hmain times s hs hwindow with hzero | h
  · rw [hzero]
    omega
  · omega

end Meter

/-- **A cell** refuses only what is too far ahead of the clock, a grant moves it no further than it
must, and a refusal leaves it where it is. -/
structure Cell (step : S → ℕ → Bool × S) (interval tolerance : ℕ) extends
    Meter step interval tolerance where
  grants : ∀ s t, inv s → arrival s ≤ t + tolerance → (step s t).1 = true
  granted_le : ∀ s t, inv s → (step s t).1 = true →
    arrival (step s t).2 ≤ max (arrival s) t + interval
  refused_le : ∀ s t, inv s → (step s t).1 = false → arrival (step s t).2 ≤ arrival s

/-- **Requests conform** if they keep to the bound on grants: in every window of time, the intervals
of the requests in it fit into the window, the tolerance and one interval more. -/
def Conforms (interval tolerance : ℕ) (times : List ℕ) : Prop :=
  ∀ window, window <:+: times → ∀ lo hi, (∀ t ∈ window, lo ≤ t ∧ t ≤ hi) →
    window.length * interval ≤ (hi - lo) + tolerance + interval

namespace Cell

variable {interval tolerance : ℕ} (c : Cell step interval tolerance) {s : S}

/-- A request moves the arrival time at most the tolerance and an interval ahead of the clock. -/
lemma arrival_step_le (hs : c.inv s) (t : ℕ) :
    c.arrival (step s t).2 ≤ c.arrival s ∨
      c.arrival (step s t).2 ≤ t + tolerance + interval := by
  cases hgrant : (step s t).1 with
  | false => exact .inl (c.refused_le s t hs hgrant)
  | true =>
    have hahead := (c.granted s t hs hgrant).1
    have hnext := c.granted_le s t hs hgrant
    omega

/-- What is granted throughout, conforms. -/
lemma conforms_of_granted (hs : c.inv s) {times : List ℕ}
    (hgranted : ∀ b ∈ Mealy.answers step s times, b = true) :
    Conforms interval tolerance times := by
  rintro window ⟨before, after, rfl⟩ lo hi hwindow
  simp only [Mealy.answers_append, List.forall_mem_append] at hgranted
  have hlength : (Mealy.answers step (Mealy.final step s before) window).count true =
      window.length := by
    rw [List.count_eq_length.mpr fun b hb => (hgranted.1.2 b hb).symm]
    simp only [Mealy.answers, List.length_map]
    rw [← Mealy.map_snd_visited step (Mealy.final step s before) window, List.length_map,
      Mealy.map_snd_visited]
  rw [← hlength]
  exact c.granted_mul_le (c.inv_final hs before) hwindow

/-- **What conforms is granted**, in a state whose arrival time the requests in a window account
for.

**Proof sketch.** Induction on the requests. The arrival time is at most the beginning of some
window up to now and one interval for each request in it; hence the window with the next request
says that the arrival time is not too far ahead. If the clock has overtaken the arrival time, a new
window begins. -/
lemma granted_of_conforms {all : List ℕ} (horder : all.Pairwise (· ≤ ·))
    (hconforms : Conforms interval tolerance all) (before window : List ℕ) (lo : ℕ) {times : List ℕ}
    (hall : all = before ++ (window ++ times)) (hlo : ∀ t ∈ window ++ times, lo ≤ t)
    (hs : c.inv s) (harrival : c.arrival s ≤ lo + window.length * interval) :
    ∀ b ∈ Mealy.answers step s times, b = true := by
  induction times generalizing s before window lo with
  | nil => simp
  | cons t times ih =>
    have hsorted : (window ++ t :: times).Pairwise (· ≤ ·) := by
      rw [hall, List.pairwise_append] at horder
      exact horder.2.1
    have hlater : ∀ u ∈ times, t ≤ u := (List.pairwise_cons.mp
      (List.pairwise_append.mp hsorted).2.1).1
    have hearlier : ∀ u ∈ window, u ≤ t := fun u hu =>
      (List.pairwise_append.mp hsorted).2.2 u hu t (by simp)
    have hstart : lo ≤ t := hlo t (by simp)
    have hwindow := hconforms (window ++ [t]) ⟨before, times, by simp [hall]⟩ lo t fun u hu => by
      rcases List.mem_append.mp hu with hu | hu
      · exact ⟨hlo u (by simp [hu]), hearlier u hu⟩
      · rw [List.mem_singleton.mp hu]
        exact ⟨hstart, Nat.le_refl t⟩
    rw [List.length_append, List.length_singleton, Nat.add_mul, Nat.one_mul] at hwindow
    have hgrant : (step s t).1 = true := c.grants s t hs (by omega)
    have hnext := c.granted_le s t hs hgrant
    rw [Mealy.answers_cons, List.forall_mem_cons]
    refine ⟨hgrant, ?_⟩
    by_cases hidle : c.arrival s ≤ t
    · -- the cell was idle: the request begins a window
      refine ih (before ++ window) [t] t (by simp [hall]) ?_
        (c.inv_step s t hs) ?_
      · simpa using hlater
      · rw [List.length_singleton]
        omega
    · refine ih before (window ++ [t]) lo (by simp [hall]) ?_
        (c.inv_step s t hs) ?_
      · simpa using hlo
      · rw [List.length_append, List.length_singleton, Nat.add_mul]
        omega

/-- **A cell grants all requests iff they conform**, if it is idle at first: the bound on the grants
is exact. -/
theorem all_granted_iff (hs : c.inv s) {times : List ℕ} (horder : times.Pairwise (· ≤ ·))
    (hidle : ∀ t ∈ times, c.arrival s ≤ t) :
    (∀ b ∈ Mealy.answers step s times, b = true) ↔ Conforms interval tolerance times :=
  ⟨c.conforms_of_granted hs, fun hconforms =>
    c.granted_of_conforms horder hconforms [] [] (c.arrival s) rfl hidle hs (by simp)⟩

end Cell

end CellRate
