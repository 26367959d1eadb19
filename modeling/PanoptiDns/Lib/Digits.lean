import Mathlib.Data.Nat.Digits.Lemmas

set_option relaxedAutoImplicit false
set_option autoImplicit false

/-!
# Fixed-width positional digits

The digits of a natural number in base `b`, written with exactly `n` places, least significant
first. Padding with zeros makes the length of the representation a function of `n` alone, and
cutting the list at place `m` cuts the number at `b ^ m`; both facts are what address codecs
with a network part and a host part rely on.

## Main definitions

* `Digits.digitsLE` — the `n` low digits of a number, least significant first.

## Main results

* `Digits.ofDigits_digitsLE` and `Digits.digitsLE_ofDigits` — reading the digits back.
* `Digits.digitsLE_add` — the list splits where the number does.
* `Digits.digitsLE_inj` — digits determine the number modulo `b ^ n`.
* `Digits.digits_append_zeros` — Mathlib's minimal digits, padded, are the fixed-width ones.
-/

namespace Digits

variable {b : ℕ}

/-- The `n` low digits of `x` in base `b`, least significant first. -/
def digitsLE (b : ℕ) : ℕ → ℕ → List ℕ
  | 0, _ => []
  | n + 1, x => x % b :: digitsLE b n (x / b)

/-- There are `n` digits. -/
@[simp] lemma length_digitsLE (n x : ℕ) : (digitsLE b n x).length = n := by
  induction n generalizing x with
  | zero => rfl
  | succ n ih => simp [digitsLE, ih]

/-- Every digit is below the base. -/
lemma lt_of_mem_digitsLE (hb : 0 < b) {n x d : ℕ} (h : d ∈ digitsLE b n x) : d < b := by
  induction n generalizing x with
  | zero => simp [digitsLE] at h
  | succ n ih =>
    rcases List.mem_cons.mp h with rfl | h
    · exact Nat.mod_lt _ hb
    · exact ih h

/-- Reading the `n` low digits back gives the number modulo `b ^ n`. -/
lemma ofDigits_digitsLE (n x : ℕ) : Nat.ofDigits b (digitsLE b n x) = x % b ^ n := by
  induction n generalizing x with
  | zero => simp [digitsLE, Nat.mod_one]
  | succ n ih =>
    rw [digitsLE, Nat.ofDigits_cons, ih, pow_succ', Nat.mod_mul]

/-- Writing a digit list out again gives the list back. -/
lemma digitsLE_ofDigits (ds : List ℕ) (h : ∀ d ∈ ds, d < b) :
    digitsLE b ds.length (Nat.ofDigits b ds) = ds := by
  induction ds with
  | nil => rfl
  | cons d ds ih =>
    have hd : d < b := h d (by simp)
    have hds := ih fun e he => h e (by simp [he])
    rw [List.length_cons, digitsLE, Nat.ofDigits_cons]
    congr 1
    · rw [Nat.add_mul_mod_self_left, Nat.mod_eq_of_lt hd]
    · rw [Nat.add_mul_div_left _ _ (by omega), Nat.div_eq_of_lt hd, Nat.zero_add, hds]

/-- Digits determine a number below `b ^ n`. -/
lemma digitsLE_inj {n x y : ℕ} (hx : x < b ^ n) (hy : y < b ^ n) :
    digitsLE b n x = digitsLE b n y ↔ x = y := by
  refine ⟨fun h => ?_, fun h => by rw [h]⟩
  have := congrArg (Nat.ofDigits b) h
  rwa [ofDigits_digitsLE, ofDigits_digitsLE, Nat.mod_eq_of_lt hx, Nat.mod_eq_of_lt hy] at this

/-- The list splits at place `m` where the number splits at `b ^ m`. -/
lemma digitsLE_add (m n x : ℕ) :
    digitsLE b (m + n) x = digitsLE b m x ++ digitsLE b n (x / b ^ m) := by
  induction m generalizing x with
  | zero => simp [digitsLE]
  | succ m ih =>
    rw [Nat.succ_add, digitsLE, digitsLE, ih, Nat.div_div_eq_div_mul, pow_succ']
    rfl

/-- Only the number modulo `b ^ n` matters. -/
lemma digitsLE_mod (n x : ℕ) : digitsLE b n (x % b ^ n) = digitsLE b n x := by
  rcases Nat.eq_zero_or_pos b with rfl | hb
  · cases n with
    | zero => simp [digitsLE]
    | succ n => simp
  · have h := digitsLE_ofDigits (digitsLE b n x) fun d => lt_of_mem_digitsLE hb
    rwa [ofDigits_digitsLE, length_digitsLE] at h

/-- Place `i` holds `x / b ^ i % b`. -/
lemma digitsLE_eq_map_range (n x : ℕ) :
    digitsLE b n x = (List.range n).map fun i => x / b ^ i % b := by
  induction n generalizing x with
  | zero => rfl
  | succ n ih =>
    rw [digitsLE, ih, List.range_succ_eq_map]
    simp only [List.map_cons, List.map_map, pow_zero, Nat.div_one]
    congr 1
    refine List.map_congr_left fun i _ => ?_
    simp [Nat.div_div_eq_div_mul, pow_succ']

/-- The digits of zero. -/
lemma digitsLE_zero_right (n : ℕ) : digitsLE b n 0 = List.replicate n 0 := by
  induction n with
  | zero => rfl
  | succ n ih => rw [digitsLE, Nat.zero_mod, Nat.zero_div, ih, List.replicate_succ]

/-- Mathlib's minimal digits, padded with zeros to `n` places, are the fixed-width digits. -/
lemma digits_append_zeros (hb : 1 < b) {n x : ℕ} (h : x < b ^ n) :
    Nat.digits b x ++ List.replicate (n - (Nat.digits b x).length) 0 = digitsLE b n x := by
  induction n generalizing x with
  | zero =>
    obtain rfl : x = 0 := by simpa using h
    simp [digitsLE]
  | succ n ih =>
    rcases Nat.eq_zero_or_pos x with rfl | hx
    · simp [digitsLE_zero_right]
    · have hq : x / b < b ^ n := by
        rw [Nat.div_lt_iff_lt_mul (by omega), ← pow_succ]
        exact h
      rw [Nat.digits_def' hb hx, digitsLE, ← ih hq]
      simp

end Digits
