import PanoptiDns.Config.Parse

set_option relaxedAutoImplicit false
set_option autoImplicit false

/-!
# The grammar of a line

What `strip_keyword` and `matches_flag` accept, said without their loop: the words of the keyword
in any case, runs of whitespace between them, and a value between runs of whitespace.

## Main definitions

* `IsGap` — a run of whitespace.
* `Spells` — the words of a keyword, written out.
* `IsDirectiveLine`, `IsFlagLine` — the lines of the grammar.

## Main results

* `matchWords_eq_some_iff` — the loop over the words.
* `stripKeyword_eq_some_iff`, `matchesFlag_iff` — the matchers accept the grammar and nothing else.
-/

namespace PanoptiDns

open Bytes

/-- A run of whitespace. -/
structure IsGap (s : Bytes) : Prop where
  nonempty : s ≠ []
  whitespace : ∀ b ∈ s, isWhitespace b = true

/-- The words after the first, in any case, each after a run of whitespace. -/
def SpellsAfter : List Bytes → Bytes → Prop
  | [], s => s = []
  | word :: words, s => ∃ gap head tail, s = gap ++ (head ++ tail) ∧ IsGap gap ∧
      lower head = lower word ∧ SpellsAfter words tail

/-- **The words of a keyword, written out**: in order, in any case, with runs of whitespace
between them. -/
def Spells : List Bytes → Bytes → Prop
  | [], s => s = []
  | word :: words, s => ∃ head tail, s = head ++ tail ∧ lower head = lower word ∧
      SpellsAfter words tail

/-- **A value**: not empty, with no whitespace at either end. -/
structure IsValue (value : Bytes) : Prop where
  nonempty : value ≠ []
  head : ∀ b ∈ value.head?, isWhitespace b = false
  last : ∀ b ∈ value.getLast?, isWhitespace b = false

/-- **The line of a directive**: the words, a run of whitespace, the value, and whitespace or
nothing. The value begins at the offset. -/
def IsDirectiveLine (words : List Bytes) (line : Bytes) (offset : ℕ) (value : Bytes) : Prop :=
  ∃ spelled gap trail, line = spelled ++ (gap ++ (value ++ trail)) ∧ Spells words spelled ∧
    IsGap gap ∧ IsValue value ∧ (∀ b ∈ trail, isWhitespace b = true) ∧
    offset = (spelled ++ gap).length

/-- **The line of a flag**: the words, and whitespace or nothing. -/
def IsFlagLine (words : List Bytes) (line : Bytes) : Prop :=
  ∃ spelled trail, line = spelled ++ trail ∧ Spells words spelled ∧
    ∀ b ∈ trail, isWhitespace b = true

/-- A word that can be told from the whitespace before it. -/
structure IsSolid (w : Bytes) : Prop where
  nonempty : w ≠ []
  solid : ∀ b ∈ w, isWhitespace b = false

/-! ### The loop over the words -/

/-- A word in some case has no whitespace at its start. -/
lemma head_of_spelled {w head : Bytes} (hw : IsSolid w) (hhead : lower head = lower w)
    (tail : Bytes) : ∀ b ∈ (head ++ tail).head?, isWhitespace b = false := by
  cases head with
  | nil => exact absurd (List.map_eq_nil_iff.mp hhead.symm) hw.nonempty
  | cons b head =>
    intro b' hb
    obtain rfl := Option.some.inj hb
    have hmem : lowerByte b ∈ lower w := by rw [← hhead]; exact List.mem_cons_self
    obtain ⟨c, hc, hlower⟩ := List.mem_map.mp hmem
    rw [← isWhitespace_lowerByte, ← hlower, isWhitespace_lowerByte]
    exact hw.solid c hc

/-- One word, compared without case. -/
lemma matchWord_eq_some_iff {i n : ℕ} {w : Bytes} {words : List Bytes} {s : Bytes}
    {r : ℕ × Bytes} :
    ((splitAtChecked s w.length).bind fun p =>
        if !eqIgnoreCase p.1 w then none else matchWordsFrom (i + 1) words (n + w.length) p.2) =
      some r ↔ ∃ head tail, s = head ++ tail ∧ lower head = lower w ∧
        matchWordsFrom (i + 1) words (n + w.length) tail = some r := by
  rw [Option.bind_eq_some_iff]
  constructor
  · rintro ⟨⟨head, tail⟩, hsplit, h⟩
    simp only at h
    split at h
    · cases h
    · rename_i heq
      exact ⟨head, tail, (splitAtChecked_eq_some.mp hsplit).1, by simpa using heq, h⟩
  · rintro ⟨head, tail, rfl, heq, h⟩
    refine ⟨(head, tail), splitAtChecked_eq_some.mpr ⟨rfl, length_eq_of_lower_eq heq⟩, ?_⟩
    simp only [(eqIgnoreCase_iff head w).mpr heq, Bool.not_true, Bool.false_eq_true, if_false]
    exact h

/-- **The rounds after the first**: exactly the words written out after runs of whitespace, with
every byte counted. -/
lemma matchWordsFrom_succ_eq_some_iff {words : List Bytes} (hwords : ∀ w ∈ words, IsSolid w)
    {i n m : ℕ} {s rest : Bytes} :
    matchWordsFrom (i + 1) words n s = some (m, rest) ↔
      ∃ spelled, s = spelled ++ rest ∧ SpellsAfter words spelled ∧ m = n + spelled.length := by
  induction words generalizing i n s with
  | nil =>
    simp only [matchWordsFrom, Option.some.injEq, Prod.mk.injEq, SpellsAfter]
    constructor
    · rintro ⟨rfl, rfl⟩
      exact ⟨[], rfl, rfl, rfl⟩
    · rintro ⟨spelled, rfl, rfl, rfl⟩
      exact ⟨rfl, rfl⟩
  | cons w words ih =>
    have hw := hwords w (by simp)
    have hrest : ∀ w ∈ words, IsSolid w := fun w' hw' => hwords w' (by simp [hw'])
    rw [matchWordsFrom]
    simp only [Nat.succ_pos, if_true]
    constructor
    · intro h
      obtain ⟨gap, hgap, hws, -⟩ := exists_trimStart s
      split at h
      · cases h
      · rename_i hne
        obtain ⟨head, tail, htrim, heq, h⟩ := matchWord_eq_some_iff.mp h
        obtain ⟨spelled, rfl, hspelled, rfl⟩ := (ih hrest).mp h
        have hgapne : gap ≠ [] := by
          rintro rfl
          rw [List.nil_append] at hgap
          exact hne (by rw [← hgap])
        refine ⟨gap ++ (head ++ spelled), ?_, ⟨gap, head, spelled, rfl, ⟨hgapne, hws⟩, heq,
          hspelled⟩, ?_⟩
        · rw [hgap, show trimStart s = head ++ (spelled ++ rest) from htrim]
          simp
        · have hlen : s.length = gap.length + (trimStart s).length := by
            conv_lhs => rw [hgap, List.length_append]
          simp only
          rw [List.length_append, List.length_append, length_eq_of_lower_eq heq]
          omega
    · rintro ⟨spelled, rfl, ⟨gap, head, tail, rfl, hgap, heq, hspelled⟩, rfl⟩
      have htrim : trimStart (gap ++ (head ++ tail) ++ rest) = head ++ (tail ++ rest) := by
        rw [List.append_assoc, List.append_assoc]
        exact trimStart_append hgap.whitespace (head_of_spelled hw heq _)
      have hgaplen : 0 < gap.length := List.length_pos_iff.mpr hgap.nonempty
      have hne : (head ++ (tail ++ rest)).length ≠ (gap ++ (head ++ tail) ++ rest).length := by
        simp only [List.length_append]
        omega
      rw [htrim, if_neg hne]
      refine matchWord_eq_some_iff.mpr ⟨head, tail ++ rest, rfl, heq, ?_⟩
      refine (ih hrest).mpr ⟨tail, rfl, hspelled, ?_⟩
      rw [← length_eq_of_lower_eq heq]
      simp only [List.length_append]
      omega

/-- **The words of a keyword** are matched exactly where they are written out, and the bytes
consumed are theirs. -/
theorem matchWords_eq_some_iff {words : List Bytes} (hwords : ∀ w ∈ words, IsSolid w) {m : ℕ}
    {line rest : Bytes} :
    matchWords line words = some (m, rest) ↔
      ∃ spelled, line = spelled ++ rest ∧ Spells words spelled ∧ m = spelled.length := by
  cases words with
  | nil =>
    simp only [matchWords, matchWordsFrom, Option.some.injEq, Prod.mk.injEq, Spells]
    constructor
    · rintro ⟨rfl, rfl⟩
      exact ⟨[], rfl, rfl, rfl⟩
    · rintro ⟨spelled, rfl, rfl, rfl⟩
      exact ⟨rfl, rfl⟩
  | cons w words =>
    have hrest : ∀ w ∈ words, IsSolid w := fun w' hw' => hwords w' (by simp [hw'])
    rw [matchWords, matchWordsFrom]
    simp only [Nat.lt_irrefl, if_false]
    constructor
    · intro h
      obtain ⟨head, tail, rfl, heq, h⟩ := matchWord_eq_some_iff.mp h
      obtain ⟨spelled, rfl, hspelled, rfl⟩ := (matchWordsFrom_succ_eq_some_iff hrest).mp h
      refine ⟨head ++ spelled, by simp, ⟨head, spelled, rfl, heq, hspelled⟩, ?_⟩
      rw [List.length_append, length_eq_of_lower_eq heq, Nat.zero_add]
    · rintro ⟨spelled, rfl, ⟨head, tail, rfl, heq, hspelled⟩, rfl⟩
      refine matchWord_eq_some_iff.mpr ⟨head, tail ++ rest, by simp, heq, ?_⟩
      refine (matchWordsFrom_succ_eq_some_iff hrest).mpr ⟨tail, rfl, hspelled, ?_⟩
      rw [List.length_append, length_eq_of_lower_eq heq, Nat.zero_add]

/-! ### Directives and flags -/

/-- **Directives**: `strip_keyword` accepts the lines of the grammar, with the value and the offset
at which it begins, and nothing else. -/
theorem stripKeyword_eq_some_iff {words : List Bytes} (hwords : ∀ w ∈ words, IsSolid w)
    {line : Bytes} {offset : ℕ} {value : Bytes} :
    stripKeyword line words = some (offset, value) ↔ IsDirectiveLine words line offset value := by
  rw [stripKeyword, Option.bind_eq_bind, Option.bind_eq_some_iff]
  constructor
  · rintro ⟨⟨consumed, rest⟩, hmatch, h⟩
    obtain ⟨spelled, rfl, hspelled, rfl⟩ := (matchWords_eq_some_iff hwords).mp hmatch
    obtain ⟨gap, hgap, hws, hhead⟩ := exists_trimStart rest
    obtain ⟨trail, htrail, hwst, hlast⟩ := exists_trimEnd (trimStart rest)
    simp only at h
    split_ifs at h with hne hempty
    obtain ⟨rfl, rfl⟩ := Prod.mk.inj (Option.some.inj h)
    have hvalue : trimEnd (trimStart rest) ≠ [] := fun hnil => hempty (by rw [hnil]; rfl)
    have hgapne : gap ≠ [] := by
      rintro rfl
      rw [List.nil_append] at hgap
      exact hne (by rw [← hgap])
    refine ⟨spelled, gap, trail, by rw [← htrail, ← hgap], hspelled, ⟨hgapne, hws⟩,
      ⟨hvalue, fun b hb => hhead b ?_, hlast⟩, hwst, ?_⟩
    · rw [htrail, List.head?_append_of_ne_nil _ hvalue]
      exact hb
    · have hlen : rest.length = gap.length + (trimStart rest).length := by
        conv_lhs => rw [hgap, List.length_append]
      rw [List.length_append]
      omega
  · rintro ⟨spelled, gap, trail, rfl, hspelled, hgap, hvalue, hws, rfl⟩
    refine ⟨(spelled.length, gap ++ (value ++ trail)),
      (matchWords_eq_some_iff hwords).mpr ⟨spelled, rfl, hspelled, rfl⟩, ?_⟩
    have hstart : trimStart (gap ++ (value ++ trail)) = value ++ trail := by
      refine trimStart_append hgap.whitespace fun b hb => hvalue.head b ?_
      rwa [List.head?_append_of_ne_nil _ hvalue.nonempty] at hb
    have hgaplen : 0 < gap.length := List.length_pos_iff.mpr hgap.nonempty
    have hempty : value.isEmpty = false := by
      rw [← Bool.not_eq_true, List.isEmpty_iff]
      exact hvalue.nonempty
    simp only [hstart, trimEnd_append hws hvalue.last, hempty, List.length_append]
    rw [if_neg (by omega)]
    simp only [Bool.false_eq_true, if_false, Option.some.injEq, Prod.mk.injEq, and_true]
    omega

/-- **Flags**: `matches_flag` accepts the words and whitespace after them, and nothing else. -/
theorem matchesFlag_iff {words : List Bytes} (hwords : ∀ w ∈ words, IsSolid w) {line : Bytes} :
    matchesFlag line words = true ↔ IsFlagLine words line := by
  rw [matchesFlag, Option.any_eq_true]
  constructor
  · rintro ⟨⟨consumed, rest⟩, hmatch, hempty⟩
    obtain ⟨spelled, rfl, hspelled, -⟩ := (matchWords_eq_some_iff hwords).mp hmatch
    exact ⟨spelled, rest, rfl, hspelled, (trim_eq_nil_iff rest).mp (List.isEmpty_iff.mp hempty)⟩
  · rintro ⟨spelled, trail, rfl, hspelled, hws⟩
    exact ⟨(spelled.length, trail), (matchWords_eq_some_iff hwords).mpr
      ⟨spelled, rfl, hspelled, rfl⟩, List.isEmpty_iff.mpr ((trim_eq_nil_iff trail).mpr hws)⟩

end PanoptiDns
