import PanoptiDns.NibbleCodec

set_option relaxedAutoImplicit false
set_option autoImplicit false

/-!
# The host-digit codec

The digits of a host part, plain and dashed, and their decoders: each decoder accepts what its
encoder writes, up to case, and nothing else.

## Main definitions

* `IsDashed` — a text in groups of four, joined by single dashes.

## Main results

* `isDashed_iff` — grouping is splitting into groups and joining them.
* `hostCodec_exact` — the codecs are exact inverses.
-/

namespace PanoptiDns

open Bytes

/-- A text split into groups of four, joined by single dashes. -/
def IsDashed (d s : Bytes) : Prop :=
  ∃ groups : List Bytes, (∀ c ∈ groups, c.length = 4) ∧ groups.flatten = d ∧
    [dash].intercalate groups = s

/-- Grouping a text that is made of groups joins them. -/
lemma dashJoin_flatten (groups : List Bytes) (hgroups : ∀ c ∈ groups, c.length = 4) :
    dashJoin groups.length groups.flatten = [dash].intercalate groups := by
  induction groups with
  | nil => rfl
  | cons c groups ih =>
    have hc : c.length = 4 := hgroups c (by simp)
    have htail := ih fun c' hc' => hgroups c' (by simp [hc'])
    rw [List.length_cons, dashJoin, List.flatten_cons, List.take_left' hc, List.drop_left' hc,
      htail]
    cases groups with
    | nil => simp [List.intercalate]
    | cons c' groups => rw [if_pos (by simp), intercalate_cons_cons]

/-- A text of the right length is made of groups. -/
lemma exists_groups {g : ℕ} {d : Bytes} (hd : d.length = 4 * g) :
    ∃ groups : List Bytes, groups.length = g ∧ (∀ c ∈ groups, c.length = 4) ∧
      groups.flatten = d := by
  induction g generalizing d with
  | zero => exact ⟨[], rfl, by simp, (List.length_eq_zero_iff.mp hd).symm⟩
  | succ g ih =>
    obtain ⟨groups, hlen, hgroups, hflatten⟩ := ih (d := d.drop 4) (by rw [List.length_drop]; omega)
    refine ⟨d.take 4 :: groups, by rw [List.length_cons, hlen], ?_, ?_⟩
    · exact List.forall_mem_cons.mpr ⟨by rw [List.length_take]; omega, hgroups⟩
    · rw [List.flatten_cons, hflatten, List.take_append_drop]

/-- Splitting into groups joined by dashes is grouping. -/
lemma isDashed_iff {g : ℕ} {d s : Bytes} (hd : d.length = 4 * g) :
    IsDashed d s ↔ s = dashJoin g d := by
  constructor
  · rintro ⟨groups, hgroups, rfl, rfl⟩
    have hlen : groups.length = g := by
      have hsum : groups.flatten.length = 4 * groups.length := by
        rw [List.length_flatten, List.map_congr_left hgroups]
        simp [Nat.mul_comm]
      omega
    rw [← hlen, dashJoin_flatten groups hgroups]
  · rintro rfl
    obtain ⟨groups, rfl, hgroups, rfl⟩ := exists_groups hd
    exact ⟨groups, hgroups, rfl, (dashJoin_flatten groups hgroups).symm⟩

/-- **The host-digit codec and its dashed form are exact inverses**: a string decodes to `h` iff
`h` fits and the string is its digits up to case; the digits are those of the low nibbles alone;
and a string is undashed to `d` iff `d` has the length asked for and the string is `d` in groups
of four with single dashes between, which for ASCII is what grouping makes of `d`. -/
theorem hostCodec_exact :
    (∀ n, 1 ≤ n → n ≤ 32 →
      (∀ d h, digitsToHost d n = some h ↔
        h.toNat < 16 ^ n ∧ ∃ digits, hostDigits h n = some digits ∧ lower d = lower digits) ∧
      ∀ a b : U128, a.toNat % 16 ^ n = b.toNat % 16 ^ n → hostDigits a n = hostDigits b n) ∧
    ∀ n, 0 < n → n % 4 = 0 → n ≤ 32 →
      (∀ s d, undashGroup s n = some d ↔ d.length = n ∧ IsDashed d s) ∧
      ∀ d, d.length = n → (∀ b ∈ d, b < 0x80) → ∀ s, IsDashed d s ↔ s = dashGroup d := by
  refine ⟨fun n hn hn32 => ⟨fun d h => ?_, fun a b hab => ?_⟩, fun n hn hmod hn32 => ?_⟩
  · rw [digitsToHost_eq_some_iff d hn32, hostDigits_eq h hn hn32]
    simp only [Option.some.injEq, exists_eq_left', lower_hexDigits]
  · rw [hostDigits_eq a hn hn32, hostDigits_eq b hn hn32, hexDigits_inj.mpr hab]
  · obtain ⟨g, rfl⟩ : ∃ g, n = 4 * g := ⟨n / 4, by omega⟩
    refine ⟨fun s d => ?_, fun d hd hascii s => ?_⟩
    · rw [undashGroup_eq_some_iff (by omega)]
      exact and_congr_right fun hd => (isDashed_iff hd).symm
    · rw [isDashed_iff hd, dashGroup_eq hd hascii]

/-- Eight digits, in mixed case and dashed. -/
theorem hostCodec_exact_eight :
    digitsToHost (ofString "DeadBeef") 8 = some 0xdeadbeef#128 ∧
      hostDigits 0x20010db8deadbeef#128 8 = hostDigits 0xdeadbeef#128 8 ∧
      ofString "dead-beef" = dashGroup (ofString "deadbeef") ∧
      undashGroup (ofString "dead-beef") 8 = some (ofString "deadbeef") := by
  have hascii : (ofString "deadbeef").all (· < 0x80) = true := by decide
  have hdashed := (hostCodec_exact.2 8 (by decide) (by decide) (by decide)).2 (ofString "deadbeef")
    (by decide) (by simpa using List.all_eq_true.mp hascii) (ofString "dead-beef")
  have hundash := (hostCodec_exact.2 8 (by decide) (by decide) (by decide)).1
    (ofString "dead-beef") (ofString "deadbeef")
  have hgroup : ofString "dead-beef" = dashGroup (ofString "deadbeef") := by decide
  refine ⟨?_, ?_, hgroup, hundash.mpr ⟨by decide, hdashed.mpr hgroup⟩⟩
  · exact ((hostCodec_exact.1 8 (by decide) (by decide)).1 _ _).mpr
      ⟨by decide, ofString "deadbeef", by decide +kernel, by decide⟩
  · exact (hostCodec_exact.1 8 (by decide) (by decide)).2 _ _ (by decide)

end PanoptiDns
