import PanoptiDns.Config.Grammar

set_option relaxedAutoImplicit false
set_option autoImplicit false

/-!
# A line, word by word

Whether a keyword matches a line depends on the first words of the line, without their case, and on
what comes after them, without the whitespace around it.

## Main definitions

* `leadingWords`, `afterWords` — the first words of a text, and the text after them.

## Main results

* `Spells.words_eq`, `exists_spells` — the first words of a text are those written out at its
  start.
* `matchesFlag_iff_words`, `stripKeyword_iff_words` — the matchers, by the first words of the line.
-/

namespace PanoptiDns

open Bytes

/-! ## The first words of a text -/

/-- The first `n` words of a text, in lowercase. -/
def leadingWords : ℕ → Bytes → List Bytes
  | 0, _ => []
  | n + 1, s => lower (s.takeWhile (!isWhitespace ·)) ::
      leadingWords n (trimStart (s.dropWhile (!isWhitespace ·)))

/-- The text after its first `n` words and the whitespace behind them. -/
def afterWords : ℕ → Bytes → Bytes
  | 0, s => s
  | n + 1, s => afterWords n (trimStart (s.dropWhile (!isWhitespace ·)))

/-- Fewer words are the beginning of more. -/
lemma leadingWords_isPrefix {n m : ℕ} (h : n ≤ m) (s : Bytes) :
    leadingWords n s <+: leadingWords m s := by
  induction n generalizing m s with
  | zero => exact List.nil_prefix
  | succ n ih =>
    cases m with
    | zero => omega
    | succ m => exact (List.prefix_cons_inj _).mpr (ih (by omega) _)

/-- The first words, in two goes. -/
lemma leadingWords_add (n m : ℕ) (s : Bytes) :
    leadingWords (n + m) s = leadingWords n s ++ leadingWords m (afterWords n s) := by
  induction n generalizing s with
  | zero => simp [leadingWords, afterWords]
  | succ n ih =>
    rw [Nat.add_right_comm, leadingWords, leadingWords, afterWords, ih]
    rfl

/-- What follows them, in two goes. -/
lemma afterWords_add (n m : ℕ) (s : Bytes) :
    afterWords (n + m) s = afterWords m (afterWords n s) := by
  induction n generalizing s with
  | zero => simp [afterWords]
  | succ n ih =>
    rw [Nat.add_right_comm, afterWords, afterWords, ih]

/-- A text that starts with whitespace, or is empty. -/
def StartsApart (s : Bytes) : Prop := ∀ b ∈ s.head?, isWhitespace b = true

/-- What follows a word starts with white space, if anything follows. -/
lemma startsApart_dropWhile (s : Bytes) : StartsApart (s.dropWhile (!isWhitespace ·)) := by
  intro b hb
  have hnot := List.head?_dropWhile_not (!isWhitespace ·) s
  rw [Option.mem_def.mp hb] at hnot
  simpa using hnot

/-- The first word of a text, with whitespace or nothing after it. -/
lemma word_append {head tail : Bytes} (hhead : ∀ b ∈ head, isWhitespace b = false)
    (htail : StartsApart tail) :
    (head ++ tail).takeWhile (!isWhitespace ·) = head ∧
      (head ++ tail).dropWhile (!isWhitespace ·) = tail := by
  have hall : ∀ b ∈ head, (!isWhitespace b) = true := by simpa using hhead
  rw [List.takeWhile_append_of_pos hall, List.dropWhile_append_of_pos hall]
  cases tail with
  | nil => simp
  | cons b tail => simp [htail b rfl]

/-- The first word of a text, spelled in some case. -/
lemma leadingWords_append {head tail : Bytes} (hhead : ∀ b ∈ head, isWhitespace b = false)
    (htail : StartsApart tail) (n : ℕ) :
    leadingWords (n + 1) (head ++ tail) = lower head :: leadingWords n (trimStart tail) := by
  obtain ⟨htake, hdrop⟩ := word_append hhead htail
  rw [leadingWords, htake, hdrop]

/-- The rest after the first word of a text. -/
lemma afterWords_append {head tail : Bytes} (hhead : ∀ b ∈ head, isWhitespace b = false)
    (htail : StartsApart tail) (n : ℕ) :
    afterWords (n + 1) (head ++ tail) = afterWords n (trimStart tail) := by
  rw [afterWords, (word_append hhead htail).2]

/-- A text that starts apart, with another after it. -/
lemma StartsApart.append {s t : Bytes} (hs : StartsApart s) (ht : StartsApart t) :
    StartsApart (s ++ t) := by
  cases s with
  | nil => exact ht
  | cons b s => exact hs

/-! ## Words written out -/

/-- A word of a keyword, which is in lowercase. -/
structure IsWord (w : Bytes) : Prop where
  lower : lower w = w
  solid : ∀ b ∈ w, isWhitespace b = false

section Spelled

variable {words : List Bytes} (hwords : ∀ w ∈ words, IsWord w ∧ w ≠ [])

/-- A word in some case has no whitespace in it. -/
lemma solid_of_spelled {w head : Bytes} (hw : IsWord w) (hhead : lower head = lower w) :
    ∀ b ∈ head, isWhitespace b = false := by
  intro b hb
  have hmem : lowerByte b ∈ w := by
    rw [← hw.lower, ← hhead]
    exact List.mem_map_of_mem hb
  rw [← isWhitespace_lowerByte]
  exact hw.solid _ hmem

/-- What starts with a gap starts apart. -/
lemma IsGap.startsApart {gap : Bytes} (hgap : IsGap gap) (t : Bytes) : StartsApart (gap ++ t) := by
  intro b hb
  rw [List.head?_append_of_ne_nil _ hgap.nonempty] at hb
  exact hgap.whitespace b (List.mem_of_mem_head? hb)

include hwords

/-- The words after the first, written out, are the next words of the text. -/
lemma SpellsAfter.words_eq {spelled tail : Bytes} (h : SpellsAfter words spelled)
    (htail : StartsApart tail) :
    StartsApart (spelled ++ tail) ∧
      leadingWords words.length (trimStart (spelled ++ tail)) = words ∧
      afterWords words.length (trimStart (spelled ++ tail)) = trimStart tail := by
  induction words generalizing spelled with
  | nil =>
    obtain rfl := h
    exact ⟨htail, rfl, rfl⟩
  | cons w words ih =>
    obtain ⟨⟨hw, hne⟩, hrest⟩ := List.forall_mem_cons.mp hwords
    obtain ⟨gap, head, spelled, rfl, hgap, hhead, hspelled⟩ := h
    obtain ⟨happend, hleading, hafter⟩ := ih hrest hspelled
    have htrim : trimStart (gap ++ (head ++ spelled) ++ tail) = head ++ (spelled ++ tail) := by
      rw [List.append_assoc, List.append_assoc]
      exact trimStart_append hgap.whitespace (head_of_spelled ⟨hne, hw.solid⟩ hhead _)
    refine ⟨?_, ?_, ?_⟩
    · rw [List.append_assoc]
      exact hgap.startsApart _
    · rw [htrim, List.length_cons, leadingWords_append (solid_of_spelled hw hhead) happend,
        hhead, hw.lower, hleading]
    · rw [htrim, List.length_cons, afterWords_append (solid_of_spelled hw hhead) happend, hafter]

/-- **Words written out** at the start of a text are its first words. -/
lemma Spells.words_eq {spelled tail : Bytes} (hne : words ≠ []) (h : Spells words spelled)
    (htail : StartsApart tail) :
    leadingWords words.length (spelled ++ tail) = words ∧
      afterWords words.length (spelled ++ tail) = trimStart tail := by
  cases words with
  | nil => exact absurd rfl hne
  | cons w words =>
    obtain ⟨⟨hw, -⟩, hrest⟩ := List.forall_mem_cons.mp hwords
    obtain ⟨head, spelled, rfl, hhead, hspelled⟩ := h
    obtain ⟨happend, hleading, hafter⟩ := hspelled.words_eq hrest htail
    rw [List.append_assoc]
    refine ⟨?_, ?_⟩
    · rw [List.length_cons, leadingWords_append (solid_of_spelled hw hhead) happend, hhead,
        hw.lower, hleading]
    · rw [List.length_cons, afterWords_append (solid_of_spelled hw hhead) happend, hafter]

/-- A text whose next words are given has them written out at its start. -/
lemma exists_spellsAfter {s : Bytes} (hs : StartsApart s)
    (h : leadingWords words.length (trimStart s) = words) :
    ∃ spelled tail, s = spelled ++ tail ∧ SpellsAfter words spelled ∧ StartsApart tail := by
  induction words generalizing s with
  | nil => exact ⟨[], s, rfl, rfl, hs⟩
  | cons w words ih =>
    obtain ⟨⟨hw, hne⟩, hrest⟩ := List.forall_mem_cons.mp hwords
    obtain ⟨gap, hgap, hws, hhead⟩ := exists_trimStart s
    obtain ⟨hfirst, hothers⟩ := List.cons.inj h
    obtain ⟨spelled, tail, htail, hspelled, hapart⟩ :=
      ih hrest (startsApart_dropWhile (trimStart s)) hothers
    have hgapne : gap ≠ [] := by
      rintro rfl
      rw [List.nil_append] at hgap
      cases hs' : trimStart s with
      | nil =>
        rw [hs'] at hfirst
        exact hne hfirst.symm
      | cons b t =>
        rw [← hgap] at hs' hhead
        have hb : b ∈ s.head? := by rw [hs']; rfl
        exact Bool.false_ne_true ((hhead b hb).symm.trans (hs b hb))
    refine ⟨gap ++ ((trimStart s).takeWhile (!isWhitespace ·) ++ spelled), tail, ?_,
      ⟨gap, _, spelled, rfl, ⟨hgapne, hws⟩, hfirst.trans hw.lower.symm, hspelled⟩, hapart⟩
    calc s = gap ++ ((trimStart s).takeWhile (!isWhitespace ·) ++
          (trimStart s).dropWhile (!isWhitespace ·)) := by
          rw [List.takeWhile_append_dropWhile, ← hgap]
      _ = _ := by
          rw [htail]
          simp

/-- **A text whose first words are given** has them written out at its start. -/
lemma exists_spells {s : Bytes} (h : leadingWords words.length s = words) (hne : words ≠ []) :
    ∃ spelled tail, s = spelled ++ tail ∧ Spells words spelled ∧ StartsApart tail := by
  cases words with
  | nil => exact absurd rfl hne
  | cons w words =>
    obtain ⟨⟨hw, -⟩, hrest⟩ := List.forall_mem_cons.mp hwords
    obtain ⟨hfirst, hothers⟩ := List.cons.inj h
    obtain ⟨spelled, tail, htail, hspelled, hapart⟩ :=
      exists_spellsAfter hrest (startsApart_dropWhile s) hothers
    refine ⟨s.takeWhile (!isWhitespace ·) ++ spelled, tail, ?_,
      ⟨_, spelled, rfl, hfirst.trans hw.lower.symm, hspelled⟩, hapart⟩
    rw [List.append_assoc, ← htail, List.takeWhile_append_dropWhile]

/-- A word has its first byte to tell it from whitespace. -/
lemma isSolid_of_isWord : ∀ w ∈ words, IsSolid w := fun w hw =>
  ⟨(hwords w hw).2, (hwords w hw).1.solid⟩

/-- **A flag**, by its words. -/
lemma matchesFlag_iff_words (hne : words ≠ []) {body : Bytes} :
    matchesFlag body words = true ↔
      leadingWords words.length body = words ∧ trimEnd (afterWords words.length body) = [] := by
  rw [matchesFlag_iff (isSolid_of_isWord hwords)]
  constructor
  · rintro ⟨spelled, trail, rfl, hspelled, hws⟩
    have hapart : StartsApart trail := fun b hb => hws b (List.mem_of_mem_head? hb)
    obtain ⟨hleading, hafter⟩ := hspelled.words_eq hwords hne hapart
    rw [hafter]
    exact ⟨hleading, (trim_eq_nil_iff trail).mpr hws⟩
  · rintro ⟨hleading, hempty⟩
    obtain ⟨spelled, tail, rfl, hspelled, hapart⟩ := exists_spells hwords hleading hne
    rw [(hspelled.words_eq hwords hne hapart).2] at hempty
    exact ⟨spelled, tail, rfl, hspelled, (trim_eq_nil_iff tail).mp hempty⟩

/-- **A directive**, by its words. -/
lemma stripKeyword_iff_words (hne : words ≠ []) {body value : Bytes} :
    (∃ offset, stripKeyword body words = some (offset, value)) ↔
      leadingWords words.length body = words ∧ trimEnd (afterWords words.length body) = value ∧
        value ≠ [] := by
  simp only [stripKeyword_eq_some_iff (isSolid_of_isWord hwords)]
  constructor
  · rintro ⟨offset, spelled, gap, trail, rfl, hspelled, hgap, hvalue, hws, -⟩
    obtain ⟨hleading, hafter⟩ := hspelled.words_eq hwords hne (hgap.startsApart (value ++ trail))
    have htrim : trimStart (gap ++ (value ++ trail)) = value ++ trail := by
      refine trimStart_append hgap.whitespace fun b hb => hvalue.head b ?_
      rwa [List.head?_append_of_ne_nil _ hvalue.nonempty] at hb
    refine ⟨hleading, ?_, hvalue.nonempty⟩
    rw [hafter, htrim, trimEnd_append hws hvalue.last]
  · rintro ⟨hleading, rfl, hvalue⟩
    obtain ⟨spelled, tail, rfl, hspelled, hapart⟩ := exists_spells hwords hleading hne
    rw [(hspelled.words_eq hwords hne hapart).2] at hvalue ⊢
    obtain ⟨gap, hgap, hws, hhead⟩ := exists_trimStart tail
    obtain ⟨trail, htrail, hwst, hlast⟩ := exists_trimEnd (trimStart tail)
    have hvaluehead : ∀ b ∈ (trimEnd (trimStart tail)).head?, isWhitespace b = false := by
      intro b hb
      refine hhead b ?_
      rw [htrail, List.head?_append_of_ne_nil _ hvalue]
      exact hb
    have hgapne : gap ≠ [] := by
      rintro rfl
      obtain ⟨b, t, hbt⟩ := List.exists_cons_of_ne_nil hvalue
      have hb : b ∈ (trimEnd (trimStart tail)).head? := by rw [hbt]; rfl
      have hbtail : b ∈ tail.head? := by
        rw [hgap, List.nil_append, htrail, List.head?_append_of_ne_nil _ hvalue]
        exact hb
      exact Bool.false_ne_true ((hvaluehead b hb).symm.trans (hapart b hbtail))
    refine ⟨_, spelled, gap, trail, ?_, hspelled, ⟨hgapne, hws⟩, ⟨hvalue, hvaluehead, hlast⟩, hwst,
      rfl⟩
    rw [← htrail, ← hgap]

end Spelled

end PanoptiDns
