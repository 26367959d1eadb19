import PanoptiDns.Lib.Utf8

set_option relaxedAutoImplicit false
set_option autoImplicit false

/-!
# The lines of a text

A text is empty, or a line without its end, or a line, a line feed and a text. Facts about the
lines of a text go by induction along that.

## Main results

* `Bytes.lines_append_cons`, `Bytes.lines_of_notMem` — the lines of a text, one by one.
* `Bytes.lines_induction` — induction along the lines.
* `Bytes.lines_flatMap` — the lines of lines written out.
* `Bytes.isUtf8_of_mem_lines`, `Bytes.isUtf8_of_mem_splitOn` — lines and segments of a valid text
  are valid.
-/

namespace Bytes

section Split

variable {sep : UInt8}

/-- The first piece ends at the first separator. -/
lemma splitInclusive_append_cons {p : Bytes} (hp : sep ∉ p) (t : Bytes) :
    splitInclusive sep (p ++ sep :: t) = (p ++ [sep]) :: splitInclusive sep t := by
  induction p with
  | nil => simp [splitInclusive]
  | cons b p ih =>
    obtain ⟨hb, hp⟩ : sep ≠ b ∧ sep ∉ p := by simpa using hp
    rw [List.cons_append, splitInclusive, if_neg (Ne.symm hb), ih hp]
    rfl

/-- Without a separator there is one piece. -/
lemma splitInclusive_of_notMem {s : Bytes} (hs : sep ∉ s) (hne : s ≠ []) :
    splitInclusive sep s = [s] := by
  induction s with
  | nil => exact absurd rfl hne
  | cons b s ih =>
    obtain ⟨hb, hs⟩ : sep ≠ b ∧ sep ∉ s := by simpa using hs
    rw [splitInclusive, if_neg (Ne.symm hb)]
    cases s with
    | nil => rfl
    | cons c s => rw [ih hs (by simp)]

end Split

/-- The suffix that was appended can be stripped. -/
lemma stripSuffix_append (c : UInt8) (s : Bytes) : stripSuffix c (s ++ [c]) = some s := by
  simp [stripSuffix]

/-- **A line with its end** is the text before the line feed, less a carriage return. -/
lemma lines_append_cons {p : Bytes} (hp : 10 ∉ p) (t : Bytes) :
    lines (p ++ 10 :: t) = stripOne 13 p :: lines t := by
  rw [lines, splitInclusive_append_cons hp, List.map_cons, stripSuffix_append]
  rfl

/-- **A line without its end** is all there is. -/
lemma lines_of_notMem {s : Bytes} (hs : 10 ∉ s) (hne : s ≠ []) : lines s = [s] := by
  have hlast : s.getLast? ≠ some 10 := fun h => hs (List.mem_of_getLast? h)
  rw [lines, splitInclusive_of_notMem hs hne, List.map_singleton, stripSuffix, if_neg hlast]

/-- An empty text has no lines. -/
@[simp] lemma lines_nil : lines [] = [] := rfl

/-- **Induction along the lines.** -/
theorem lines_induction {P : Bytes → Prop} (nil : P []) (last : ∀ s, 10 ∉ s → s ≠ [] → P s)
    (line : ∀ p t, 10 ∉ p → P t → P (p ++ 10 :: t)) (s : Bytes) : P s := by
  induction hlen : s.length using Nat.strong_induction_on generalizing s with
  | _ n ih =>
    by_cases hmem : 10 ∈ s
    · obtain ⟨p, t, rfl, hp⟩ := List.eq_append_cons_of_mem hmem
      refine line p t hp (ih t.length ?_ t rfl)
      rw [← hlen, List.length_append, List.length_cons]
      omega
    · by_cases hne : s = []
      · rw [hne]
        exact nil
      · exact last s hmem hne

/-- A line holds no line feed. -/
lemma notMem_of_mem_lines (s : Bytes) : ∀ l ∈ lines s, 10 ∉ l := by
  have hstrip : ∀ {p : Bytes}, 10 ∉ p → 10 ∉ stripOne 13 p := by
    intro p hp
    rcases stripOne_cases 13 p with h | h
    · rwa [← h]
    · intro hmem
      rw [h] at hp
      exact hp (List.mem_append_left _ hmem)
  induction s using lines_induction with
  | nil => simp
  | last s hmem hne =>
    rw [lines_of_notMem hmem hne]
    exact List.forall_mem_singleton.mpr hmem
  | line p t hp ih =>
    rw [lines_append_cons hp]
    exact List.forall_mem_cons.mpr ⟨hstrip hp, ih⟩

/-- Lines written out, each with its end, are the lines of the text. -/
lemma lines_flatMap {ls : List Bytes} (h : ∀ l ∈ ls, 10 ∉ l ∧ l.getLast? ≠ some 13) :
    lines (ls.flatMap (· ++ [10])) = ls := by
  induction ls with
  | nil => rfl
  | cons l ls ih =>
    obtain ⟨hlf, hcr⟩ := h l (by simp)
    have hstrip : stripOne 13 l = l := by rw [stripOne, stripSuffix, if_neg hcr, Option.getD_none]
    rw [List.flatMap_cons, List.append_assoc, List.singleton_append, lines_append_cons hlf, hstrip,
      ih fun l' hl' => h l' (by simp [hl'])]

/-! ### Validity -/

/-- Less an ASCII byte at its end, valid text stays valid. -/
lemma isUtf8_stripOne {c : UInt8} (hc : c < 0x80) {s : Bytes} (hs : isUtf8 s = true) :
    isUtf8 (stripOne c s) = true := by
  rcases stripOne_cases c s with h | h
  · rwa [← h]
  · rw [h] at hs
    exact (isUtf8_append_cons hc hs).1

/-- The lines of a valid text are valid. -/
lemma isUtf8_of_mem_lines {s : Bytes} (hs : isUtf8 s = true) : ∀ l ∈ lines s, isUtf8 l = true := by
  induction s using lines_induction with
  | nil => simp
  | last s hmem hne =>
    intro l hl
    rw [lines_of_notMem hmem hne, List.mem_singleton] at hl
    rwa [hl]
  | line p t hp ih =>
    obtain ⟨hutf8, ht⟩ := isUtf8_append_cons (by decide) hs
    rw [lines_append_cons hp]
    exact List.forall_mem_cons.mpr ⟨isUtf8_stripOne (by decide) hutf8, ih ht⟩

/-- The segments of a valid text between ASCII separators are valid. -/
lemma isUtf8_of_mem_splitOn {sep : UInt8} (hsep : sep < 0x80) {s : Bytes} (hs : isUtf8 s = true) :
    ∀ seg ∈ s.splitOn sep, isUtf8 seg = true := by
  have hjoined : ∀ segs : List Bytes, isUtf8 ([sep].intercalate segs) = true →
      ∀ seg ∈ segs, isUtf8 seg = true := by
    intro segs
    induction segs with
    | nil => simp
    | cons seg segs ih =>
      intro h
      cases segs with
      | nil => simpa [List.intercalate] using h
      | cons seg' segs =>
        rw [intercalate_cons_cons] at h
        obtain ⟨hseg, hrest⟩ := isUtf8_append_cons hsep h
        exact List.forall_mem_cons.mpr ⟨hseg, ih hrest⟩
  apply hjoined
  rwa [List.intercalate_splitOn]

/-- White space is ASCII. -/
lemma isWhitespace_ascii {b : UInt8} (h : isWhitespace b = true) : b < 0x80 := by
  unfold isWhitespace at h
  grind

/-- What is left of a valid text before whitespace is valid. -/
lemma isUtf8_of_trail {s trail : Bytes} (htrail : ∀ b ∈ trail, isWhitespace b = true)
    (h : isUtf8 (s ++ trail) = true) : isUtf8 s = true := by
  exact (isUtf8_append h fun b hb =>
    isContinuation_ascii (isWhitespace_ascii (htrail b (List.mem_of_mem_head? hb)))).1

end Bytes
