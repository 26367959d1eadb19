import Mathlib.Data.Nat.Bitwise
import Mathlib.Tactic.Ring

set_option relaxedAutoImplicit false
set_option autoImplicit false

/-!
# Network masks on machine words

A word of `w` bits is cut by a prefix length `m` into a network part (the high `m` bits) and a
host part (the low `w - m` bits). Masking, complementing and or-ing are related here to
division and remainder by `2 ^ (w - m)`.

## Main definitions

* `PrefixMask.networkMask` — the word whose high `m` bits are set.

## Main results

* `PrefixMask.toNat_and_networkMask`, `PrefixMask.toNat_and_not_networkMask` — the two parts as
  numbers.
* `PrefixMask.and_eq_iff_div_eq` — two words share a network part iff they agree after division.
* `PrefixMask.shifted_eq_iff` — masking by shifts identifies the words with the same high bits.
* `PrefixMask.or_and_networkMask`, `PrefixMask.eq_or_of_parts` — a network part and a host part
  join without interfering, and every word is the join of its parts.
-/

namespace PrefixMask

variable {w : ℕ}

/-- The word of width `w` whose high `m` bits are set. -/
def networkMask (w m : ℕ) : BitVec w := ~~~(BitVec.allOnes w >>> m)

/-- Bit `i` of the mask is set iff it is one of the high `m`. -/
lemma getLsbD_networkMask (m i : ℕ) :
    (networkMask w m).getLsbD i = (decide (i < w) && decide (w ≤ i + m)) := by
  unfold networkMask
  by_cases hi : i < w
  · by_cases hm : w ≤ i + m
    · simp [hi, hm, show ¬ m + i < w by omega]
    · simp [hi, hm, show m + i < w by omega]
  · simp [hi]

/-- The network part of a word, as a number. -/
lemma toNat_and_networkMask {m : ℕ} (hm : m ≤ w) (x : BitVec w) :
    (x &&& networkMask w m).toNat = x.toNat / 2 ^ (w - m) * 2 ^ (w - m) := by
  refine Nat.eq_of_testBit_eq fun i => ?_
  have hbit : (x &&& networkMask w m).toNat.testBit i =
      (x.getLsbD i && (decide (i < w) && decide (w ≤ i + m))) := by
    rw [BitVec.testBit_toNat, BitVec.getLsbD_and, getLsbD_networkMask]
  rw [hbit, Nat.testBit_mul_two_pow, Nat.testBit_div_two_pow]
  by_cases hi : w - m ≤ i
  · rw [Nat.sub_add_cancel hi, BitVec.testBit_toNat]
    by_cases hw : i < w
    · simp [hi, hw, show w ≤ i + m by omega]
    · simp [BitVec.getLsbD_of_ge _ _ (show w ≤ i by omega)]
  · simp [hi, show ¬ w ≤ i + m by omega]

/-- The host part of a word, as a number. -/
lemma toNat_and_not_networkMask {m : ℕ} (hm : m ≤ w) (x : BitVec w) :
    (x &&& ~~~networkMask w m).toNat = x.toNat % 2 ^ (w - m) := by
  refine Nat.eq_of_testBit_eq fun i => ?_
  rw [BitVec.testBit_toNat, BitVec.getLsbD_and, BitVec.getLsbD_not, getLsbD_networkMask,
    Nat.testBit_mod_two_pow, BitVec.testBit_toNat]
  by_cases hw : i < w
  · by_cases hi : i < w - m
    · simp [hw, hi, show ¬ w ≤ i + m by omega]
    · simp [hw, hi, show w ≤ i + m by omega]
  · simp [hw, BitVec.getLsbD_of_ge _ _ (show w ≤ i by omega)]

/-- A word that is its own network part is a multiple of `2 ^ (w - m)`. -/
lemma div_mul_of_masked {m : ℕ} (hm : m ≤ w) {p : BitVec w} (hp : p &&& networkMask w m = p) :
    p.toNat / 2 ^ (w - m) * 2 ^ (w - m) = p.toNat := by
  rw [← toNat_and_networkMask hm, hp]

/-- **Sharing a network part is agreeing after division** by the size of the host part. -/
lemma and_eq_iff_div_eq {m : ℕ} (hm : m ≤ w) {x p : BitVec w} (hp : p &&& networkMask w m = p) :
    x &&& networkMask w m = p ↔ x.toNat / 2 ^ (w - m) = p.toNat / 2 ^ (w - m) := by
  rw [← BitVec.toNat_inj, toNat_and_networkMask hm]
  constructor
  · intro h
    rw [← div_mul_of_masked hm hp] at h
    exact Nat.eq_of_mul_eq_mul_right (Nat.two_pow_pos _) h
  · intro h
    rw [h, div_mul_of_masked hm hp]

/-- Clearing the low bits by two shifts keeps the high `m` and nothing else. -/
lemma getMsbD_shifted {m : ℕ} (hm : m ≤ w) (x : BitVec w) (i : ℕ) :
    (x >>> (w - m) <<< (w - m)).getMsbD i = (decide (i < m) && x.getMsbD i) := by
  rw [BitVec.getMsbD_shiftLeft, BitVec.getMsbD_ushiftRight, Nat.add_sub_cancel]
  have hlt : (i + (w - m) < w) = (i < m) := propext (by omega)
  simp [hlt]

/-- **Two words agree after their low bits are cleared iff their high bits agree.** -/
lemma shifted_eq_iff {m : ℕ} (hm : m ≤ w) {x y : BitVec w} :
    x >>> (w - m) <<< (w - m) = y >>> (w - m) <<< (w - m) ↔
      ∀ i < m, x.getMsbD i = y.getMsbD i := by
  constructor
  · intro h i hi
    have hbit := congrArg (·.getMsbD i) h
    simpa [getMsbD_shifted hm, hi] using hbit
  · intro h
    apply BitVec.eq_of_getMsbD_eq
    intro i _
    rw [getMsbD_shifted hm, getMsbD_shifted hm]
    by_cases hi : i < m
    · rw [h i hi]
    · simp [hi]

section Join

variable {m : ℕ} (hm : m ≤ w) {p h : BitVec w} (hp : p &&& networkMask w m = p)
  (hh : h.toNat < 2 ^ (w - m))

include hm hh in
/-- A short word has no network part. -/
lemma and_networkMask_of_lt : h &&& networkMask w m = 0#w := by
  rw [← BitVec.toNat_inj, toNat_and_networkMask hm, Nat.div_eq_of_lt hh]
  simp

include hm hp hh in
/-- Joining a host part leaves the network part alone. -/
lemma or_and_networkMask : (p ||| h) &&& networkMask w m = p := by
  rw [BitVec.and_comm, BitVec.and_or_distrib_left, BitVec.and_comm _ p, BitVec.and_comm _ h, hp,
    and_networkMask_of_lt hm hh, BitVec.or_zero]

include hm hp hh in
/-- Joining a network part leaves the host part alone. -/
lemma or_mod_two_pow : (p ||| h).toNat % 2 ^ (w - m) = h.toNat := by
  have hp0 : p.toNat % 2 ^ (w - m) = 0 := by
    rw [← div_mul_of_masked hm hp, Nat.mul_mod_left]
  rw [BitVec.toNat_or, Nat.or_mod_two_pow, hp0, Nat.zero_or, Nat.mod_eq_of_lt hh]

include hm in
/-- A word is the join of its network part and its host part. -/
lemma eq_or_of_parts {x : BitVec w} (hx : x &&& networkMask w m = p)
    (hmod : x.toNat % 2 ^ (w - m) = h.toNat) : x = p ||| h := by
  have hhost : x &&& ~~~networkMask w m = h := by
    rw [← BitVec.toNat_inj, toNat_and_not_networkMask hm, hmod]
  rw [← hx, ← hhost, ← BitVec.and_or_distrib_left]
  simp

end Join

end PrefixMask
