import Mathlib.Algebra.Order.Ring.Nat
import Mathlib.Data.List.Basic
import Mathlib.Data.List.TakeWhile
import Mathlib.Tactic.Common

set_option relaxedAutoImplicit false
set_option autoImplicit false

/-!
# Byte strings

The operations of Rust's `[u8]` and `str` on lists of bytes: ASCII case folding, trimming,
checked splitting, UTF-8 validity, lines, and substring search. A `str` is the list of its
UTF-8 bytes, and every operation below works on bytes exactly as the standard library's does,
since UTF-8 never contains an ASCII byte inside a longer character.

## Main definitions

* `Bytes.lower`, `Bytes.eqIgnoreCase` — ASCII case folding and comparison up to it.
* `Bytes.trimStart`, `Bytes.trimEnd`, `Bytes.splitAtChecked`, `Bytes.splitOnce`.
* `Bytes.isUtf8`, `Bytes.isCharBoundary` — UTF-8 validity and character boundaries.
* `Bytes.lines` — the lines of a text.
* `Bytes.find`, `Bytes.matchCount` — the first occurrence of a pattern, and the number of
  non-overlapping occurrences found from left to right.

## Main results

* `Bytes.trimStart_append`, `Bytes.trimEnd_append` — what trimming leaves of a text between
  whitespace; `Bytes.exists_trimStart`, `Bytes.exists_trimEnd` — every text is of that form.
* `Bytes.find_eq_some` — a hit splits the text around the pattern.
* `Bytes.find_isSome_iff` — a text has a first occurrence iff it has a counted one.
* `Bytes.matchCount_splitOn` — occurrences of a pattern without the separator are counted
  segment by segment.
-/

/-- A byte string. -/
abbrev Bytes := List UInt8

namespace Bytes

/-- The UTF-8 bytes of a string literal. -/
def ofString (s : String) : Bytes := s.toUTF8.data.toList

/-- A statement about every byte is a statement about the 256 of them. -/
lemma forall_byte {P : UInt8 → Prop} (h : ∀ i : Fin 256, P (UInt8.ofFin i)) (b : UInt8) : P b := by
  have := h b.toFin
  simpa using this

/-! ## ASCII case -/

/-- `u8::to_ascii_lowercase`. -/
def lowerByte (b : UInt8) : UInt8 := if 65 ≤ b ∧ b ≤ 90 then b + 32 else b

/-- `to_ascii_lowercase` on a byte string. -/
def lower (s : Bytes) : Bytes := s.map lowerByte

/-- `eq_ignore_ascii_case`. -/
def eqIgnoreCase (s t : Bytes) : Bool := lower s == lower t

/-- Lowercasing a byte twice is lowercasing it once. -/
@[simp] lemma lowerByte_lowerByte (b : UInt8) : lowerByte (lowerByte b) = lowerByte b := by
  unfold lowerByte
  grind

/-- A byte that is not a letter is the lowercase of itself only. -/
lemma lowerByte_eq_iff {c : UInt8} (hupper : ¬(65 ≤ c ∧ c ≤ 90)) (hlower : ¬(97 ≤ c ∧ c ≤ 122))
    (b : UInt8) : lowerByte b = c ↔ b = c := by
  unfold lowerByte
  grind

/-- Nothing to fold. -/
@[simp] lemma lower_nil : lower [] = [] := rfl

/-- The fold is byte by byte. -/
@[simp] lemma lower_cons (b : UInt8) (s : Bytes) : lower (b :: s) = lowerByte b :: lower s := rfl

/-- The fold of a concatenation. -/
@[simp] lemma lower_append (s t : Bytes) : lower (s ++ t) = lower s ++ lower t := by simp [lower]

/-- The fold keeps the length. -/
@[simp] lemma length_lower (s : Bytes) : (lower s).length = s.length := by simp [lower]

/-- Folding twice is folding once. -/
@[simp] lemma lower_lower (s : Bytes) : lower (lower s) = lower s := by
  simp [lower, Function.comp_def]

/-- Comparison up to case is equality of the lowercase forms. -/
@[simp] lemma eqIgnoreCase_iff (s t : Bytes) : eqIgnoreCase s t = true ↔ lower s = lower t := by
  simp [eqIgnoreCase]

/-- Texts equal up to case have the same length. -/
lemma length_eq_of_lower_eq {s t : Bytes} (h : lower s = lower t) : s.length = t.length := by
  simpa using congrArg List.length h

/-! ## Trimming and splitting -/

/-- `u8::is_ascii_whitespace`: space, tab, line feed, form feed, carriage return. -/
def isWhitespace (b : UInt8) : Bool := b == 32 || b == 9 || b == 10 || b == 12 || b == 13

/-- `trim_ascii_start`. -/
def trimStart (s : Bytes) : Bytes := s.dropWhile isWhitespace

/-- `trim_ascii_end`. -/
def trimEnd (s : Bytes) : Bytes := (s.reverse.dropWhile isWhitespace).reverse

/-- `slice::split_at_checked`. -/
def splitAtChecked (s : Bytes) (n : ℕ) : Option (Bytes × Bytes) :=
  if n ≤ s.length then some (s.take n, s.drop n) else none

/-- `str::split_once` at a single byte. -/
def splitOnce (sep : UInt8) : Bytes → Option (Bytes × Bytes)
  | [] => none
  | b :: s => if b = sep then some ([], s) else (splitOnce sep s).map fun p => (b :: p.1, p.2)

/-- `str::strip_suffix` of a single byte. -/
def stripSuffix (last : UInt8) (s : Bytes) : Option Bytes :=
  if s.getLast? = some last then some s.dropLast else none

/-- `strip_suffix(c).unwrap_or(s)`: the text less at most one trailing `c`. -/
def stripOne (last : UInt8) (s : Bytes) : Bytes := (stripSuffix last s).getD s

/-- Whether a byte is whitespace does not depend on its case. -/
lemma isWhitespace_lowerByte (b : UInt8) : isWhitespace (lowerByte b) = isWhitespace b := by
  unfold isWhitespace lowerByte
  grind

/-- A checked split is a split at the given length. -/
lemma splitAtChecked_eq_some {s t u : Bytes} {n : ℕ} :
    splitAtChecked s n = some (t, u) ↔ s = t ++ u ∧ t.length = n := by
  unfold splitAtChecked
  split
  · rename_i h
    simp only [Option.some.injEq, Prod.mk.injEq]
    constructor
    · rintro ⟨rfl, rfl⟩
      exact ⟨(List.take_append_drop n s).symm, by simp [h]⟩
    · rintro ⟨rfl, rfl⟩
      simp
  · rename_i h
    simp only [reduceCtorEq, false_iff]
    rintro ⟨rfl, rfl⟩
    simp at h

/-- A text is split at the first separator in it. -/
lemma eq_of_splitOnce {sep : UInt8} {s t u : Bytes} (h : splitOnce sep s = some (t, u)) :
    s = t ++ sep :: u ∧ sep ∉ t := by
  induction s generalizing t with
  | nil => cases h
  | cons b s ih =>
    rw [splitOnce] at h
    split at h
    · rename_i hb
      obtain ⟨rfl, rfl⟩ := Prod.mk.inj (Option.some.inj h)
      exact ⟨by rw [hb]; rfl, List.not_mem_nil⟩
    · rename_i hb
      obtain ⟨⟨t', u'⟩, hsplit, heq⟩ := Option.map_eq_some_iff.mp h
      obtain ⟨rfl, rfl⟩ := Prod.mk.inj heq
      obtain ⟨rfl, ht⟩ := ih hsplit
      exact ⟨rfl, List.not_mem_cons_of_ne_of_not_mem (Ne.symm hb) ht⟩

/-- What is trimmed at the start: a run of whitespace, up to a byte that is not. -/
lemma trimStart_append {gap rest : Bytes} (hgap : ∀ b ∈ gap, isWhitespace b = true)
    (hrest : ∀ b ∈ rest.head?, isWhitespace b = false) : trimStart (gap ++ rest) = rest := by
  rw [trimStart, List.dropWhile_append_of_pos hgap]
  cases rest with
  | nil => rfl
  | cons b rest => rw [List.dropWhile_cons_of_neg (by simp [hrest b rfl])]

/-- A text is some white space and its trimmed rest, which does not start with any. -/
lemma exists_trimStart (s : Bytes) : ∃ gap, s = gap ++ trimStart s ∧
    (∀ b ∈ gap, isWhitespace b = true) ∧ ∀ b ∈ (trimStart s).head?, isWhitespace b = false := by
  refine ⟨s.takeWhile isWhitespace, (List.takeWhile_append_dropWhile).symm,
    List.all_eq_true.mp List.all_takeWhile, fun b hb => ?_⟩
  have hnot := List.head?_dropWhile_not isWhitespace s
  rw [← trimStart, Option.mem_def.mp hb] at hnot
  simpa using hnot

/-- White space after a text that does not end in any is what `trimEnd` takes off. -/
lemma trimEnd_append {value trail : Bytes} (htrail : ∀ b ∈ trail, isWhitespace b = true)
    (hvalue : ∀ b ∈ value.getLast?, isWhitespace b = false) :
    trimEnd (value ++ trail) = value := by
  have hreverse : trimStart (trail.reverse ++ value.reverse) = value.reverse :=
    trimStart_append (fun b hb => htrail b (List.mem_reverse.mp hb))
      (fun b hb => hvalue b (by rwa [List.head?_reverse] at hb))
  rw [trimEnd, List.reverse_append, ← trimStart, hreverse, List.reverse_reverse]

/-- A text is its trimmed front, which does not end in white space, and some white space. -/
lemma exists_trimEnd (s : Bytes) : ∃ trail, s = trimEnd s ++ trail ∧
    (∀ b ∈ trail, isWhitespace b = true) ∧ ∀ b ∈ (trimEnd s).getLast?, isWhitespace b = false := by
  obtain ⟨gap, hgap, hws, hhead⟩ := exists_trimStart s.reverse
  refine ⟨gap.reverse, ?_, fun b hb => hws b (List.mem_reverse.mp hb), fun b hb => hhead b ?_⟩
  · rw [trimEnd, ← trimStart, ← List.reverse_append, ← hgap, List.reverse_reverse]
  · rwa [trimEnd, ← trimStart, List.getLast?_reverse] at hb

/-- A text of which trimming leaves nothing is whitespace. -/
lemma trim_eq_nil_iff (s : Bytes) :
    trimEnd (trimStart s) = [] ↔ ∀ b ∈ s, isWhitespace b = true := by
  constructor
  · intro h
    obtain ⟨gap, hgap, hws, -⟩ := exists_trimStart s
    obtain ⟨trail, htrail, hwst, -⟩ := exists_trimEnd (trimStart s)
    rw [h, List.nil_append] at htrail
    rw [hgap, htrail]
    exact List.forall_mem_append.mpr ⟨hws, hwst⟩
  · intro h
    have htrim : trimStart s = [] := List.dropWhile_eq_nil_iff.mpr h
    rw [htrim]
    rfl

/-- Joining two texts or more puts the separator after the first. -/
lemma intercalate_cons_cons (sep : UInt8) (s t : Bytes) (segs : List Bytes) :
    [sep].intercalate (s :: t :: segs) = s ++ sep :: [sep].intercalate (t :: segs) := by
  simp [List.intercalate, List.intersperse]

/-- Dropping at most one trailing byte drops nothing or exactly that byte. -/
lemma stripOne_cases (c : UInt8) (s : Bytes) : s = stripOne c s ∨ s = stripOne c s ++ [c] := by
  unfold stripOne stripSuffix
  split
  · rename_i h
    right
    simpa using (List.dropLast_append_getLast? c (by simpa using h)).symm
  · exact .inl rfl

/-! ## UTF-8 -/

/-- A continuation byte, `0x80..=0xBF`. -/
def isContinuation (b : UInt8) : Bool := 0x80 ≤ b && b ≤ 0xBF

/-- `str::from_utf8`: the validity test of the standard library, by the table of well-formed
byte sequences (no overlong form, no surrogate, nothing above `U+10FFFF`). -/
def isUtf8 : Bytes → Bool
  | [] => true
  | a :: s =>
    if a < 0x80 then isUtf8 s
    else match s with
      | [] => false
      | b :: s =>
        if 0xC2 ≤ a && a ≤ 0xDF then isContinuation b && isUtf8 s
        else match s with
          | [] => false
          | c :: s =>
            if (a == 0xE0 && 0xA0 ≤ b && b ≤ 0xBF) || (0xE1 ≤ a && a ≤ 0xEC && isContinuation b) ||
                (a == 0xED && 0x80 ≤ b && b ≤ 0x9F) ||
                ((a == 0xEE || a == 0xEF) && isContinuation b) then
              isContinuation c && isUtf8 s
            else match s with
              | [] => false
              | d :: s =>
                ((a == 0xF0 && 0x90 ≤ b && b ≤ 0xBF) ||
                  (0xF1 ≤ a && a ≤ 0xF3 && isContinuation b) ||
                  (a == 0xF4 && 0x80 ≤ b && b ≤ 0x8F)) &&
                isContinuation c && isContinuation d && isUtf8 s

/-- `str::is_char_boundary`: an offset is a boundary at the ends and before every byte that is
not a continuation byte. -/
def isCharBoundary (s : Bytes) (n : ℕ) : Bool :=
  n == 0 || match s[n]? with
    | none => n == s.length
    | some b => !isContinuation b

/-- `str::split_at_checked`. -/
def strSplitAtChecked (s : Bytes) (n : ℕ) : Option (Bytes × Bytes) :=
  if isCharBoundary s n then splitAtChecked s n else none

/-- A checked split of a string is a split at the given length. -/
lemma eq_of_strSplitAtChecked {s t u : Bytes} {n : ℕ} (h : strSplitAtChecked s n = some (t, u)) :
    s = t ++ u ∧ t.length = n := by
  unfold strSplitAtChecked at h
  split at h
  · exact splitAtChecked_eq_some.mp h
  · simp at h

/-! ## Lines -/

/-- `str::split_inclusive` at a single byte. -/
def splitInclusive (sep : UInt8) : Bytes → List Bytes
  | [] => []
  | b :: s =>
    if b = sep then [b] :: splitInclusive sep s
    else match splitInclusive sep s with
      | [] => [[b]]
      | l :: ls => (b :: l) :: ls

/-- `str::lines`: split after each line feed, then drop the line feed and a carriage return
before it. -/
def lines (s : Bytes) : List Bytes :=
  (splitInclusive 10 s).map fun line =>
    match stripSuffix 10 line with
    | none => line
    | some line => stripOne 13 line

/-! ## Substring search -/

/-- `str::find`: the offset of the first occurrence of `pat`. -/
def find (pat : Bytes) : Bytes → Option ℕ
  | [] => if pat.isEmpty then some 0 else none
  | b :: s => if pat.isPrefixOf (b :: s) then some 0 else (find pat s).map (· + 1)

/-- `str::match_indices(pat).count()` for a nonempty `pat`: occurrences are taken from left to
right and do not overlap, so after a hit the scan skips the rest of the occurrence. The first
argument is the number of bytes still to be skipped. -/
def matchCount (pat : Bytes) : ℕ → Bytes → ℕ
  | _, [] => 0
  | skip + 1, _ :: s => matchCount pat skip s
  | 0, b :: s =>
    if pat.isPrefixOf (b :: s) then matchCount pat (pat.length - 1) s + 1
    else matchCount pat 0 s

/-- A hit splits the text around the pattern. -/
lemma find_eq_some {pat s : Bytes} {n : ℕ} (h : find pat s = some n) :
    ∃ t u, s = t ++ pat ++ u ∧ t.length = n := by
  induction s generalizing n with
  | nil =>
    have hp : pat = [] := by
      by_contra hne
      simp [find, hne] at h
    subst hp
    exact ⟨[], [], rfl, by simpa [find] using h⟩
  | cons b s ih =>
    rw [find] at h
    split at h
    · rename_i hp
      obtain ⟨u, hu⟩ := List.isPrefixOf_iff_prefix.mp hp
      exact ⟨[], u, hu.symm, by simpa using h⟩
    · obtain ⟨m, hm, rfl⟩ := Option.map_eq_some_iff.mp h
      obtain ⟨t, u, rfl, rfl⟩ := ih hm
      exact ⟨b :: t, u, rfl, rfl⟩

/-- A text has a first occurrence of a nonempty pattern iff at least one is counted. -/
lemma find_isSome_iff {pat : Bytes} (hpat : pat ≠ []) (s : Bytes) :
    (find pat s).isSome ↔ 0 < matchCount pat 0 s := by
  induction s with
  | nil => simp [find, matchCount, hpat]
  | cons b s ih =>
    rw [find, matchCount]
    split
    · simp
    · simpa using ih

section Separator

variable {sep : UInt8} {pat : Bytes} (hsep : sep ∉ pat) (hpat : pat ≠ [])

include hsep in
/-- A pattern without the separator is a prefix of a text iff it is a prefix of the part before
the separator. -/
lemma isPrefixOf_append_cons (s t : Bytes) :
    pat.isPrefixOf (s ++ sep :: t) = pat.isPrefixOf s := by
  rw [Bool.eq_iff_iff, List.isPrefixOf_iff_prefix, List.isPrefixOf_iff_prefix]
  constructor
  · intro h
    have hlen : pat.length ≤ s.length := by
      by_contra hlt
      have hget : pat[s.length]? = some sep := by
        obtain ⟨u, hu⟩ := h
        have := congrArg (fun l => l[s.length]?) hu
        rw [List.getElem?_append_left (by omega)] at this
        simpa using this
      exact hsep (List.mem_of_getElem? hget)
    exact List.prefix_of_prefix_length_le h (List.prefix_append s _) hlen
  · intro h
    exact h.trans (List.prefix_append s _)

include hsep hpat in
/-- Scanning a text with a separator in it counts the occurrences before and after it.

**Proof sketch.** Induction on the part before the separator, with the number of bytes still to
be skipped at most its length: a hit starts before the separator iff it ends before it, so the
skip never reaches past it. -/
lemma matchCount_append_cons (s t : Bytes) (skip : ℕ) (hskip : skip ≤ s.length) :
    matchCount pat skip (s ++ sep :: t) = matchCount pat skip s + matchCount pat 0 t := by
  induction s generalizing skip with
  | nil =>
    obtain rfl : skip = 0 := by simpa using hskip
    have hno : pat.isPrefixOf (sep :: t) = false := by
      have := isPrefixOf_append_cons hsep [] t
      cases pat with
      | nil => exact absurd rfl hpat
      | cons p pat => simpa using this
    simp [matchCount, hno]
  | cons b s ih =>
    cases skip with
    | succ skip =>
      rw [List.cons_append, matchCount, matchCount]
      exact ih skip (by simpa using hskip)
    | zero =>
      rw [List.cons_append, matchCount, matchCount]
      have hpre := isPrefixOf_append_cons hsep (b :: s) t
      rw [List.cons_append] at hpre
      rw [hpre]
      split
      · rename_i hp
        have hle : pat.length ≤ s.length + 1 := by
          simpa using (List.isPrefixOf_iff_prefix.mp hp).length_le
        rw [ih _ (by omega)]
        omega
      · exact ih 0 (by omega)

include hsep hpat in
/-- Occurrences of a pattern without the separator are counted segment by segment. -/
lemma matchCount_intercalate (segs : List Bytes) :
    matchCount pat 0 ([sep].intercalate segs) = (segs.map (matchCount pat 0)).sum := by
  induction segs with
  | nil => rfl
  | cons s segs ih =>
    cases segs with
    | nil => simp [List.intercalate]
    | cons s' segs =>
      rw [intercalate_cons_cons, matchCount_append_cons hsep hpat _ _ _ (by omega), ih]
      simp

include hsep hpat in
/-- **Occurrences split with the text**: a pattern without the separator occurs in a text as
often as it occurs in the segments between separators. -/
lemma matchCount_splitOn (s : Bytes) :
    matchCount pat 0 s = ((s.splitOn sep).map (matchCount pat 0)).sum := by
  have hjoin : [sep].intercalate (s.splitOn sep) = s := List.intercalate_splitOn sep
  rw [← matchCount_intercalate hsep hpat, hjoin]

end Separator

/-- Lowercasing commutes with splitting at a byte that is not the case-folded form of another. -/
lemma splitOn_lower {sep : UInt8} (hsep : ∀ b, lowerByte b = sep ↔ b = sep) (s : Bytes) :
    (lower s).splitOn sep = (s.splitOn sep).map lower := by
  induction s with
  | nil => rfl
  | cons b s ih =>
    rw [lower_cons, List.splitOn_cons_eq_if_modifyHead, List.splitOn_cons_eq_if_modifyHead, ih]
    by_cases hb : b = sep
    · simp [hb, (hsep sep).mpr rfl]
    · have hb' : lowerByte b ≠ sep := fun h => hb ((hsep b).mp h)
      simp only [beq_iff_eq, hb, hb', if_false]
      cases s.splitOn sep <;> simp

/-- Lowercasing commutes with joining. -/
lemma lower_intercalate {sep : UInt8} (hsep : lowerByte sep = sep) (segs : List Bytes) :
    lower ([sep].intercalate segs) = [sep].intercalate (segs.map lower) := by
  induction segs with
  | nil => rfl
  | cons s segs ih =>
    cases segs with
    | nil => simp [List.intercalate]
    | cons t segs =>
      rw [List.map_cons] at ih
      rw [List.map_cons, List.map_cons, intercalate_cons_cons, intercalate_cons_cons, lower_append,
        lower_cons, ih, hsep]

/-- A trailing separator leaves an empty segment. -/
lemma splitOn_append_sep (sep : UInt8) (s : Bytes) :
    (s ++ [sep]).splitOn sep = s.splitOn sep ++ [[]] := by
  induction s with
  | nil => simp [List.splitOn_cons_eq_if_modifyHead]
  | cons b s ih =>
    rw [List.cons_append, List.splitOn_cons_eq_if_modifyHead, List.splitOn_cons_eq_if_modifyHead,
      ih]
    by_cases hb : b = sep
    · simp [hb]
    · simp only [beq_iff_eq, hb, if_false]
      cases hs : s.splitOn sep with
      | nil => exact absurd hs (List.splitOn_ne_nil _ _)
      | cons t ts => rfl

/-- Lowercasing commutes with dropping a byte that is not the case-folded form of another. -/
lemma lower_stripOne {c : UInt8} (hc : ∀ b, lowerByte b = c ↔ b = c) (s : Bytes) :
    lower (stripOne c s) = stripOne c (lower s) := by
  have hlast : (lower s).getLast? = some c ↔ s.getLast? = some c := by
    rw [lower, List.getLast?_map, Option.map_eq_some_iff]
    simp [hc]
  unfold stripOne stripSuffix
  simp only [hlast]
  split
  · simp [lower]
  · rfl

end Bytes
