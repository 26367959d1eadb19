import Mathlib.Logic.Relation
import PanoptiDns.Lib.Lines
import PanoptiDns.Config.Accept
import PanoptiDns.Config.Values
import PanoptiDns.Config.Keywords

set_option relaxedAutoImplicit false
set_option autoImplicit false

/-!
# Layout is decorative

Indentation, whitespace between words, line ends, blank lines and comments, the case of keywords and
of every value but that of `resolves to`: none of it means anything. An edit of one of these kinds
leaves every line saying what it said, so that the same outline is collected.

## Main definitions

* `LineEdit`, `Edit` — a change of the layout of a line, and of a text.
* `SameLayout` — texts that edits lead to from one another, in any combination.
* `said` — what the lines of a text say, without those that say nothing.
* `Config.sansLines` — a configuration without the lines its zones were read from.

## Main results

* `LineEdit.readLine_eq`, `Edit.said_eq` — an edit changes nothing of what is said.
* `layout_decorative` — texts of the same layout are accepted together and mean the same.
-/

namespace PanoptiDns

open Bytes

/-! ### Edits -/

/-- **A change of the layout of a line**: other whitespace around it; a keyword, or its first words,
in another case; another run of whitespace after them; a value in another case, but not that of
`resolves to`. -/
inductive LineEdit : Bytes → Bytes → Prop
  | margins {lead lead' core trail trail' : Bytes} (hlead : ∀ b ∈ lead, isWhitespace b = true)
      (hlead' : ∀ b ∈ lead', isWhitespace b = true) (htrail : ∀ b ∈ trail, isWhitespace b = true)
      (htrail' : ∀ b ∈ trail', isWhitespace b = true) :
      LineEdit (lead ++ (core ++ trail)) (lead' ++ (core ++ trail'))
  | keyword {k : Keyword} (hk : k ∈ keywords) {words : List Bytes} (hne : words ≠ [])
      (hwords : words <+: k.words) {lead spelled spelled' rest : Bytes}
      (hlead : ∀ b ∈ lead, isWhitespace b = true) (hspelled : Spells words spelled)
      (hcase : lower spelled' = lower spelled) (hrest : StartsApart rest) :
      LineEdit (lead ++ (spelled ++ rest)) (lead ++ (spelled' ++ rest))
  | gap {k : Keyword} (hk : k ∈ keywords) {words : List Bytes} (hne : words ≠ [])
      (hwords : words <+: k.words) {lead spelled gap gap' rest : Bytes}
      (hlead : ∀ b ∈ lead, isWhitespace b = true) (hspelled : Spells words spelled)
      (hgap : IsGap gap) (hgap' : IsGap gap') :
      LineEdit (lead ++ (spelled ++ (gap ++ rest))) (lead ++ (spelled ++ (gap' ++ rest)))
  | value {d : Directive} (hd : d ∈ directives) (hto : d.target ≠ .resolvesTo)
      {lead spelled gap rest rest' : Bytes} (hlead : ∀ b ∈ lead, isWhitespace b = true)
      (hspelled : Spells d.words spelled) (hgap : IsGap gap) (hcase : lower rest' = lower rest) :
      LineEdit (lead ++ (spelled ++ (gap ++ rest))) (lead ++ (spelled ++ (gap ++ rest')))

/-- A text that ends where a line starts. -/
def StartsLine (front : Bytes) : Prop := front = [] ∨ front.getLast? = some 10

/-- A text that starts where a line ends: with its end, with or without a carriage return, or
nothing. -/
def EndsLine (back : Bytes) : Prop :=
  ∃ cr rest, back = cr ++ rest ∧ (cr = [] ∨ cr = [13]) ∧ (rest = [] ∨ rest.head? = some 10)

/-- **A change of the layout of a text**: of one line; of one line end; or one blank line or comment
more, before another line or after the last. -/
inductive Edit : Bytes → Bytes → Prop
  | line {front l l' back : Bytes} (hfront : StartsLine front) (hback : EndsLine back)
      (hl : 10 ∉ l) (hl' : 10 ∉ l') (h : LineEdit l l') :
      Edit (front ++ (l ++ back)) (front ++ (l' ++ back))
  | ending {front l back : Bytes} (hfront : StartsLine front) (hl : 10 ∉ l) :
      Edit (front ++ (l ++ 10 :: back)) (front ++ (l ++ 13 :: 10 :: back))
  | blank {front l back : Bytes} (hfront : StartsLine front) (hl : 10 ∉ l) (h : IsBlank l) :
      Edit (front ++ back) (front ++ (l ++ 10 :: back))
  | lastBlank {front l last : Bytes} (hfront : StartsLine front) (hlast : 10 ∉ last) (hl : 10 ∉ l)
      (h : IsBlank l) : Edit (front ++ last) (front ++ (last ++ 10 :: l))

/-- **Any combination of edits**, made or undone. -/
def SameLayout : Bytes → Bytes → Prop := Relation.EqvGen Edit

/-! ### Margins -/

section Margins

variable {lead trail : Bytes} (hlead : ∀ b ∈ lead, isWhitespace b = true)
  (htrail : ∀ b ∈ trail, isWhitespace b = true)

include hlead in
/-- White space in front is trimmed. -/
lemma trimStart_lead (s : Bytes) : trimStart (lead ++ s) = trimStart s := by
  rw [trimStart, List.dropWhile_append_of_pos hlead]
  rfl

include htrail

/-- Whitespace at the end is trimmed at the start only if there is nothing else. -/
lemma trimStart_trail (s : Bytes) :
    (trimStart s = [] ∧ trimStart (s ++ trail) = []) ∨
      (trimStart s ≠ [] ∧ trimStart (s ++ trail) = trimStart s ++ trail) := by
  obtain ⟨gap, hgap, hws, hhead⟩ := exists_trimStart s
  have happend : trimStart (s ++ trail) = trimStart (trimStart s ++ trail) := by
    conv_lhs => rw [hgap, List.append_assoc, trimStart_lead hws]
  by_cases hs : trimStart s = []
  · rw [hs, List.nil_append] at happend
    exact .inl ⟨hs, happend.trans (List.dropWhile_eq_nil_iff.mpr htrail)⟩
  · refine .inr ⟨hs, happend.trans ?_⟩
    refine @trimStart_append [] (trimStart s ++ trail) (by simp) fun b hb => hhead b ?_
    rwa [List.head?_append_of_ne_nil _ hs] at hb

/-- White space at the end is trimmed. -/
lemma trimEnd_trail (s : Bytes) : trimEnd (s ++ trail) = trimEnd s := by
  obtain ⟨end', hend, hws, hlast⟩ := exists_trimEnd s
  conv_lhs => rw [hend, List.append_assoc]
  exact trimEnd_append (List.forall_mem_append.mpr ⟨hws, htrail⟩) hlast

/-- **Whitespace at the end** is in no word. -/
lemma words_trail (n : ℕ) (s : Bytes) :
    leadingWords n (s ++ trail) = leadingWords n s ∧
      trimEnd (afterWords n (s ++ trail)) = trimEnd (afterWords n s) := by
  induction n generalizing s with
  | zero => exact ⟨rfl, trimEnd_trail htrail s⟩
  | succ n ih =>
    have hword : ∀ b ∈ s.takeWhile (!isWhitespace ·), isWhitespace b = false := by
      simpa using List.all_eq_true.mp (List.all_takeWhile (p := (!isWhitespace ·)) (l := s))
    have hapart : StartsApart trail := fun b hb => htrail b (List.mem_of_mem_head? hb)
    obtain ⟨htake, hdrop⟩ := word_append hword ((startsApart_dropWhile s).append hapart)
    rw [← List.append_assoc, List.takeWhile_append_dropWhile] at htake hdrop
    rw [leadingWords, leadingWords, afterWords, afterWords, htake, hdrop]
    rcases trimStart_trail htrail (s.dropWhile (!isWhitespace ·)) with ⟨hnil, htrim⟩ | ⟨-, htrim⟩
    · rw [hnil, htrim]
      exact ⟨rfl, rfl⟩
    · rw [htrim]
      obtain ⟨hleading, hafter⟩ := ih (trimStart (s.dropWhile (!isWhitespace ·)))
      exact ⟨by rw [hleading], hafter⟩

end Margins

/-- A keyword reads the same with white space at the end. -/
lemma readWords_trail {trail : Bytes} (htrail : ∀ b ∈ trail, isWhitespace b = true) (body : Bytes)
    (k : Keyword) : k.readWords (body ++ trail) = k.readWords body := by
  obtain ⟨hleading, hafter⟩ := words_trail htrail k.words.length body
  rw [Keyword.readWords, Keyword.readWords, hleading, hafter]

/-- **Margins say nothing.** -/
lemma readLine_margins {lead core trail : Bytes} (hlead : ∀ b ∈ lead, isWhitespace b = true)
    (htrail : ∀ b ∈ trail, isWhitespace b = true) :
    readLine (lead ++ (core ++ trail)) = readLine core := by
  rcases trimStart_trail htrail core with ⟨hnil, htrim⟩ | ⟨hne, htrim⟩
  · rw [readLine_of_isBlank (.inl hnil), readLine_of_isBlank]
    exact .inl ((trimStart_lead hlead _).trans htrim)
  · apply readLine_congr
    · unfold IsBlank
      rw [trimStart_lead hlead, htrim, List.head?_append_of_ne_nil _ hne]
      simp [hne]
    · intro k _
      rw [trimStart_lead hlead, htrim, readWords_trail htrail]

/-! ### Words and values -/

section Words

variable {x y : Bytes}

/-- Texts with the same first words of one keyword, and the same after them. -/
lemma readWords_of_words {k : Keyword} (hk : k ∈ keywords) {words : List Bytes}
    (hwords : words <+: k.words) (hx : leadingWords words.length x = words)
    (hy : leadingWords words.length y = words)
    (hafter : afterWords words.length x = afterWords words.length y) :
    ∀ k' ∈ keywords, k'.readWords x = k'.readWords y := by
  intro k' hk'
  unfold Keyword.readWords
  rcases Nat.le_total words.length k'.words.length with hle | hle
  · -- the keyword goes on after the words, where the texts are the same
    obtain ⟨n, hn⟩ := Nat.exists_eq_add_of_le hle
    rw [hn, leadingWords_add, leadingWords_add, afterWords_add, afterWords_add, hx, hy, hafter]
  · -- a shorter keyword would be the beginning of the other
    have hpre : ∀ z, leadingWords words.length z = words →
        leadingWords k'.words.length z = k'.words → words = k'.words := by
      intro z hz hz'
      have hbegin := leadingWords_isPrefix hle z
      rw [hz, hz'] at hbegin
      obtain rfl := keywords_code k' hk' k hk (hbegin.trans hwords)
      exact hbegin.eq_of_length_le hwords.length_le |>.symm
    by_cases hkx : leadingWords k'.words.length x = k'.words
    · rw [← hpre x hx hkx, hx, hy, hafter]
    · have hky : ¬leadingWords k'.words.length y = k'.words := fun hky =>
        hkx (by rw [← hpre y hy hky, hx])
      rw [if_neg hkx, if_neg hky]

/-- Trimming the front does not depend on case. -/
lemma lower_trimStart (s : Bytes) : lower (trimStart s) = trimStart (lower s) := by
  induction s with
  | nil => rfl
  | cons b s ih =>
    rw [trimStart, lower_cons, trimStart, List.dropWhile_cons, List.dropWhile_cons,
      isWhitespace_lowerByte]
    split
    · exact ih
    · rfl

/-- Nor does trimming the end. -/
lemma lower_trimEnd (s : Bytes) : lower (trimEnd s) = trimEnd (lower s) := by
  have hreverse : ∀ t : Bytes, lower t.reverse = (lower t).reverse := fun t => List.map_reverse
  rw [trimEnd, ← trimStart, hreverse, lower_trimStart, hreverse]
  rfl

/-- Texts with the same directive and a value in another case, which the parser lowercases. -/
lemma readWords_of_value {d : Directive} (hd : d ∈ directives) (hlower : d.lowercase = true)
    (hx : leadingWords d.words.length x = d.words) (hy : leadingWords d.words.length y = d.words)
    (hafter : lower (afterWords d.words.length x) = lower (afterWords d.words.length y)) :
    ∀ k ∈ keywords, k.readWords x = k.readWords y := by
  have hk := mem_keywords_directive.mpr hd
  intro k hk'
  by_cases heq : k = .directive d
  · obtain rfl := heq
    have hvalue : lower (trimEnd (afterWords d.words.length x)) =
        lower (trimEnd (afterWords d.words.length y)) := by
      rw [lower_trimEnd, lower_trimEnd, hafter]
    have hread : ∀ z, leadingWords d.words.length z = d.words →
        (Keyword.directive d).readWords z =
          if lower (trimEnd (afterWords d.words.length z)) = [] then none
          else some (if isUtf8 (lower (trimEnd (afterWords d.words.length z))) then
            d.target.entry (lower (trimEnd (afterWords d.words.length z))) else .bad) := by
      intro z hz
      have hleading : leadingWords (Keyword.directive d).words.length z =
          (Keyword.directive d).words := hz
      have hempty : ∀ t : Bytes, lower t = [] ↔ t = [] := fun t => List.map_eq_nil_iff
      rw [Keyword.readWords, if_pos hleading, Keyword.readRest, if_pos hlower]
      simp only [hempty, isUtf8_lower]
      rfl
    rw [hread x hx, hread y hy, hvalue]
  · have hnone : ∀ z, leadingWords d.words.length z = d.words → k.readWords z = none := by
      intro z hz
      refine if_neg fun hz' => heq ?_
      rcases Nat.le_total k.words.length d.words.length with hle | hle
      · have hbegin := leadingWords_isPrefix hle z
        rw [hz, hz'] at hbegin
        exact keywords_code k hk' _ hk hbegin
      · have hbegin := leadingWords_isPrefix hle z
        rw [hz, hz'] at hbegin
        exact (keywords_code _ hk k hk' hbegin).symm
    rw [hnone x hx, hnone y hy]

end Words

/-! ### One line -/

/-- Words written out do not start with whitespace. -/
lemma Spells.head {words : List Bytes} (hwords : ∀ w ∈ words, IsWord w ∧ w ≠ []) (hne : words ≠ [])
    {spelled : Bytes} (h : Spells words spelled) :
    spelled ≠ [] ∧ ∀ b ∈ spelled.head?, isWhitespace b = false := by
  cases words with
  | nil => exact absurd rfl hne
  | cons w words =>
    obtain ⟨⟨hw, hwne⟩, -⟩ := List.forall_mem_cons.mp hwords
    obtain ⟨head, tail, rfl, hhead, -⟩ := h
    refine ⟨?_, head_of_spelled ⟨hwne, hw.solid⟩ hhead tail⟩
    rintro hnil
    rw [(List.append_eq_nil_iff.mp hnil).1] at hhead
    exact hwne (List.map_eq_nil_iff.mp hhead.symm)

/-- A line that starts with a word after its indentation. -/
lemma trimStart_spelled {lead spelled : Bytes} (hlead : ∀ b ∈ lead, isWhitespace b = true)
    (hne : spelled ≠ []) (hhead : ∀ b ∈ spelled.head?, isWhitespace b = false) (rest : Bytes) :
    trimStart (lead ++ (spelled ++ rest)) = spelled ++ rest ∧
      (IsBlank (lead ++ (spelled ++ rest)) ↔ spelled.head? = some '#'.toUInt8) := by
  have htrim : trimStart (lead ++ (spelled ++ rest)) = spelled ++ rest := by
    refine trimStart_append hlead fun b hb => hhead b ?_
    rwa [List.head?_append_of_ne_nil _ hne] at hb
  refine ⟨htrim, ?_⟩
  unfold IsBlank
  rw [htrim, List.head?_append_of_ne_nil _ hne]
  simp [hne]

/-- Only the value of `resolves to` keeps its case. -/
lemma lowercase_of_target_ne {d : Directive} (hd : d ∈ directives) (hto : d.target ≠ .resolvesTo) :
    d.lowercase = true := by
  have hall : ∀ d ∈ directives, d.target ≠ .resolvesTo → d.lowercase = true := by decide
  exact hall d hd hto

/-- The fold neither makes nor loses a `#`. -/
lemma lowerByte_eq_hash_iff (b : UInt8) : lowerByte b = '#'.toUInt8 ↔ b = '#'.toUInt8 :=
  lowerByte_eq_iff (by decide) (by decide) b

/-- A text in another case, piece by piece. -/
lemma lower_eq_append {s t u : Bytes} (h : lower s = lower (t ++ u)) :
    ∃ t' u', s = t' ++ u' ∧ lower t' = lower t ∧ lower u' = lower u := by
  rw [lower_append, lower, List.map_eq_append_iff] at h
  obtain ⟨t', u', hs, ht, hu⟩ := h
  exact ⟨t', u', hs, ht, hu⟩

/-- A gap has no case. -/
lemma IsGap.of_lower_eq {gap gap' : Bytes} (h : IsGap gap) (hcase : lower gap' = lower gap) :
    IsGap gap' where
  nonempty := by
    rintro rfl
    exact h.nonempty (List.map_eq_nil_iff.mp hcase.symm)
  whitespace b hb := by
    have hmem : lowerByte b ∈ lower gap := by
      rw [← hcase]
      exact List.mem_map_of_mem hb
    obtain ⟨c, hc, hlower⟩ := List.mem_map.mp hmem
    rw [← isWhitespace_lowerByte, ← hlower, isWhitespace_lowerByte]
    exact h.whitespace c hc

/-- What follows the first word of a keyword spells it in either case. -/
lemma SpellsAfter.of_lower_eq {words : List Bytes} {spelled spelled' : Bytes}
    (h : SpellsAfter words spelled) (hcase : lower spelled' = lower spelled) :
    SpellsAfter words spelled' := by
  induction words generalizing spelled spelled' with
  | nil =>
    obtain rfl := h
    exact List.map_eq_nil_iff.mp hcase
  | cons w words ih =>
    obtain ⟨gap, head, tail, rfl, hgap, hhead, htail⟩ := h
    obtain ⟨gap', rest', rfl, hgap', hrest⟩ := lower_eq_append hcase
    obtain ⟨head', tail', rfl, hhead', htail'⟩ := lower_eq_append hrest
    exact ⟨gap', head', tail', rfl, hgap.of_lower_eq hgap', hhead'.trans hhead, ih htail htail'⟩

/-- Words written out in another case. -/
lemma Spells.of_lower_eq {words : List Bytes} {spelled spelled' : Bytes} (h : Spells words spelled)
    (hcase : lower spelled' = lower spelled) : Spells words spelled' := by
  cases words with
  | nil =>
    obtain rfl := h
    exact List.map_eq_nil_iff.mp hcase
  | cons w words =>
    obtain ⟨head, tail, rfl, hhead, htail⟩ := h
    obtain ⟨head', tail', rfl, hhead', htail'⟩ := lower_eq_append hcase
    exact ⟨head', tail', rfl, hhead'.trans hhead, htail.of_lower_eq htail'⟩

/-- **A line that starts with words of a keyword**: how it reads, but for what is after them. -/
lemma Spells.line_eq {k : Keyword} (hk : k ∈ keywords) {words : List Bytes} (hne : words ≠ [])
    (hpre : words <+: k.words) {lead spelled rest : Bytes}
    (hlead : ∀ b ∈ lead, isWhitespace b = true) (h : Spells words spelled)
    (hrest : StartsApart rest) :
    (IsBlank (lead ++ (spelled ++ rest)) ↔ (lower spelled).head? = some '#'.toUInt8) ∧
      leadingWords words.length (trimStart (lead ++ (spelled ++ rest))) = words ∧
      afterWords words.length (trimStart (lead ++ (spelled ++ rest))) = trimStart rest := by
  have hwords : ∀ w ∈ words, IsWord w ∧ w ≠ [] := fun w hw =>
    (words_of_mem_keywords hk).1 w (hpre.subset hw)
  obtain ⟨hsne, hhead⟩ := h.head hwords hne
  obtain ⟨htrim, hblank⟩ := trimStart_spelled hlead hsne hhead rest
  rw [htrim]
  refine ⟨hblank.trans ?_, h.words_eq hwords hne hrest⟩
  cases spelled with
  | nil => exact absurd rfl hsne
  | cons b s => simp [lowerByte_eq_hash_iff]

/-- **An edit of a line** changes nothing of what it says. -/
lemma LineEdit.readLine_eq {l l' : Bytes} (h : LineEdit l l') : readLine l = readLine l' := by
  cases h with
  | margins hlead hlead' htrail htrail' =>
    rw [readLine_margins hlead htrail, readLine_margins hlead' htrail']
  | keyword hk hne hpre hlead hspelled hcase hrest =>
    obtain ⟨hblank, hleading, hafter⟩ := hspelled.line_eq hk hne hpre hlead hrest
    obtain ⟨hblank', hleading', hafter'⟩ :=
      (hspelled.of_lower_eq hcase).line_eq hk hne hpre hlead hrest
    refine readLine_congr ?_ ?_
    · rw [hblank, hblank', hcase]
    · exact readWords_of_words hk hpre hleading hleading' (hafter.trans hafter'.symm)
  | @gap k hk words hne hpre lead spelled gap gap' rest hlead hspelled hgap hgap' =>
    obtain ⟨hblank, hleading, hafter⟩ :=
      hspelled.line_eq hk hne hpre hlead (hgap.startsApart rest)
    obtain ⟨hblank', hleading', hafter'⟩ :=
      hspelled.line_eq hk hne hpre hlead (hgap'.startsApart rest)
    refine readLine_congr (hblank.trans hblank'.symm) ?_
    refine readWords_of_words hk hpre hleading hleading' ?_
    rw [hafter, hafter', trimStart_lead hgap.whitespace, trimStart_lead hgap'.whitespace]
  | @value d hd hto lead spelled gap rest rest' hlead hspelled hgap hcase =>
    have hk := mem_keywords_directive.mpr hd
    have hne : d.words ≠ [] := (words_of_mem_keywords hk).2
    obtain ⟨hblank, hleading, hafter⟩ :=
      hspelled.line_eq hk hne List.prefix_rfl hlead (hgap.startsApart rest)
    obtain ⟨hblank', hleading', hafter'⟩ :=
      hspelled.line_eq hk hne List.prefix_rfl hlead (hgap.startsApart rest')
    refine readLine_congr (hblank.trans hblank'.symm) ?_
    -- the value is lowercased before it is read, so that its case goes
    refine readWords_of_value hd (lowercase_of_target_ne hd hto) hleading hleading' ?_
    rw [hafter, hafter', trimStart_lead hgap.whitespace, trimStart_lead hgap.whitespace,
      lower_trimStart, lower_trimStart, hcase]

/-! ### The whole text -/

/-- What a line says, unless it says nothing. -/
def saidOf (raw : Bytes) : List Entry := [readLine raw].filter (· ≠ .blank)

/-- **What a text says**, line by line, without the lines that say nothing. -/
def said (input : Bytes) : List Entry := (fileLines input).flatMap saidOf

/-- A blank line says nothing. -/
lemma saidOf_of_isBlank {raw : Bytes} (h : IsBlank raw) : saidOf raw = [] := by
  rw [saidOf, readLine_of_isBlank h]
  rfl

/-- A carriage return at the end of a line says nothing. -/
lemma saidOf_append_cr {cr : Bytes} (hcr : cr = [] ∨ cr = [13]) (l : Bytes) :
    saidOf (l ++ cr) = saidOf l := by
  have hws : ∀ b ∈ cr, isWhitespace b = true := by
    rcases hcr with rfl | rfl
    · simp
    · exact List.forall_mem_singleton.mpr rfl
  have hmargins := @readLine_margins [] l cr (by simp) hws
  rw [List.nil_append] at hmargins
  rw [saidOf, saidOf, hmargins]

/-- A carriage return at its end does not change what a line says. -/
lemma saidOf_stripOne (l : Bytes) : saidOf (stripOne 13 l) = saidOf l := by
  rcases stripOne_cases 13 l with h | h
  · rw [← h]
  · conv_rhs => rw [h, saidOf_append_cr (.inr rfl)]

/-- **The first line** of a text. -/
lemma said_append_cons {p : Bytes} (hp : 10 ∉ p) (t : Bytes) :
    said (p ++ 10 :: t) = saidOf p ++ said t := by
  have hcr : '\r'.toUInt8 = 13 := rfl
  rw [said, fileLines, lines_append_cons hp, List.map_cons, List.flatMap_cons, hcr, saidOf_stripOne,
    saidOf_stripOne]
  rfl

/-- **The last line** of a text. -/
lemma said_of_notMem {s : Bytes} (hs : 10 ∉ s) : said s = saidOf s := by
  have hcr : '\r'.toUInt8 = 13 := rfl
  by_cases hne : s = []
  · rw [hne]
    rfl
  · rw [said, fileLines, lines_of_notMem hs hne, List.map_singleton, List.flatMap_singleton, hcr,
      saidOf_stripOne]

/-- A text cut where a line starts. -/
lemma said_append {front : Bytes} (hfront : StartsLine front) (t : Bytes) :
    said (front ++ t) = said front ++ said t := by
  induction front using lines_induction with
  | nil => rfl
  | last s hs hne =>
    rcases hfront with hnil | hlast
    · exact absurd hnil hne
    · exact absurd (List.mem_of_getLast? hlast) hs
  | line p rest hp ih =>
    have hrest : StartsLine rest := by
      by_cases hnil : rest = []
      · exact .inl hnil
      · rcases hfront with h | h
        · simp at h
        · refine .inr ?_
          rwa [List.getLast?_append_of_ne_nil _ (List.cons_ne_nil _ _),
            List.getLast?_cons_of_ne_nil hnil] at h
    rw [List.append_assoc, List.cons_append, said_append_cons hp, said_append_cons hp, ih hrest,
      List.append_assoc]

/-- The text from a line on. -/
lemma said_line {back : Bytes} (hback : EndsLine back) :
    ∃ es, ∀ l : Bytes, 10 ∉ l → said (l ++ back) = saidOf l ++ es := by
  obtain ⟨cr, rest, rfl, hcr, hrest⟩ := hback
  have hlf : ∀ l : Bytes, 10 ∉ l → 10 ∉ l ++ cr := by
    intro l hl
    rcases hcr with rfl | rfl
    · simpa using hl
    · simpa using hl
  rcases hrest with rfl | hhead
  · refine ⟨[], fun l hl => ?_⟩
    rw [List.append_nil, List.append_nil, said_of_notMem (hlf l hl), saidOf_append_cr hcr]
  · obtain ⟨t, rfl⟩ := List.head?_eq_some_iff.mp hhead
    refine ⟨said t, fun l hl => ?_⟩
    rw [← List.append_assoc, said_append_cons (hlf l hl), saidOf_append_cr hcr]

/-- **An edit** changes nothing of what is said. -/
lemma Edit.said_eq {s s' : Bytes} (h : Edit s s') : said s = said s' := by
  cases h with
  | line hfront hback hl hl' h =>
    obtain ⟨es, hes⟩ := said_line hback
    rw [said_append hfront, said_append hfront, hes _ hl, hes _ hl', saidOf, saidOf, h.readLine_eq]
  | @ending front l back hfront hl =>
    have hcr : 10 ∉ l ++ [13] := by simpa using hl
    have hcut : l ++ 13 :: 10 :: back = (l ++ [13]) ++ 10 :: back := by simp
    rw [said_append hfront, said_append hfront, hcut, said_append_cons hl, said_append_cons hcr,
      saidOf_append_cr (.inr rfl)]
  | blank hfront hl h =>
    rw [said_append hfront, said_append hfront, said_append_cons hl, saidOf_of_isBlank h,
      List.nil_append]
  | lastBlank hfront hlast hl h =>
    rw [said_append hfront, said_append hfront, said_append_cons hlast, said_of_notMem hlast,
      said_of_notMem hl, saidOf_of_isBlank h, List.append_nil]

/-- One change of layout does not change what is said. -/
lemma SameLayout.said_eq {s s' : Bytes} (h : SameLayout s s') : said s = said s' := by
  induction h with
  | rel _ _ h => exact h.said_eq
  | refl _ => rfl
  | symm _ _ _ ih => exact ih.symm
  | trans _ _ _ _ _ ih ih' => exact ih.trans ih'

/-! ### What it means -/

/-- A blank entry adds nothing. -/
lemma Outline.add_blank (o : Outline) : o.add .blank = some o := by
  obtain ⟨listen, blocks, globals⟩ := o
  cases hlast : blocks.getLast? with
  | none => simp [Outline.add, hlast, Outline.addGlobal]
  | some b =>
    have hblocks := List.dropLast_append_getLast? b hlast
    simp [Outline.add, hlast, Block.add, Entry.listens, hblocks]

/-- Lines that say nothing add nothing. -/
lemma exec_filter_blank (es : List Entry) (o : Outline) :
    Run.exec Outline.add o (es.filter (· ≠ .blank)) = Run.exec Outline.add o es := by
  induction es generalizing o with
  | nil => rfl
  | cons e es ih =>
    by_cases he : e = .blank
    · rw [he, List.filter_cons_of_neg (by simp), ih, Run.exec_cons, Outline.add_blank]
      rfl
    · rw [List.filter_cons_of_pos (by simpa using he), Run.exec_cons, Run.exec_cons]
      exact congrArg _ (funext ih)

/-- **The outline** is that of what is said. -/
lemma outline_eq_exec_said (input : Bytes) :
    outline (fileLines input) = Run.exec Outline.add {} (said input) := by
  have hlist : ∀ ls : List Bytes, ls.flatMap saidOf = (ls.map readLine).filter (· ≠ .blank) := by
    intro ls
    induction ls with
    | nil => rfl
    | cons l ls ih =>
      rw [List.flatMap_cons, ih, saidOf, ← List.filter_append]
      rfl
  rw [said, hlist, exec_filter_blank]
  rfl

/-- A configuration without the lines its zones were read from. -/
def Config.sansLines (c : Config) : Config := { c with zones := c.zones.map Zone.sansLine }

/-- Sorting does not look at lines. -/
lemma map_sansLine_sortByMask (zs : List Zone) :
    (sortByMask zs).map Zone.sansLine = sortByMask (zs.map Zone.sansLine) :=
  List.map_insertionSort _ _ _ _ fun _ _ _ _ => Iff.rfl

/-- Texts with the same outline are accepted together and mean the same. -/
lemma parse_of_outline_eq {hk : Hickory} {s s' : Bytes}
    (hsame : outline (fileLines s') = outline (fileLines s)) {c : Config}
    (h : Config.parse hk s = .ok c) :
    ∃ c', Config.parse hk s' = .ok c' ∧ c'.sansLines = c.sansLines := by
  obtain ⟨herr, hlisten, hglobals, zs, hzs, hapart, rfl⟩ := parse_eq_ok_iff.mp h
  obtain ⟨herr', hsame⟩ := parse_outline.mpr (hsame.trans (parse_outline.mp ⟨herr, rfl⟩))
  obtain ⟨hl, hb, hg⟩ := Outline.mk.inj hsame
  have hagree := compileGlobals_agree hk hg.symm
  have hlisten' := compileListens_of_value_eq hl (Prod.ext rfl hlisten)
  obtain ⟨zs', hzs', hsans⟩ := forall₂_compiles_of_block_eq hb hzs
  have hapart' : zs'.Pairwise Zone.Apart := by
    have hmap : (zs.map Zone.sansLine).Pairwise Zone.Apart := List.pairwise_map.mpr hapart
    rw [← hsans, List.pairwise_map] at hmap
    exact hmap
  refine ⟨_, parse_eq_ok_iff.mpr ⟨herr', congrArg Prod.snd hlisten', hagree.errors.mp hglobals,
    zs', hzs', hapart', rfl⟩, ?_⟩
  have hzones : ∀ ws : List Zone,
      (sortByMask (ws.map (Zone.withTtl (compileGlobals hk (parse s).cfg).ttl))).map Zone.sansLine =
        sortByMask ((ws.map Zone.sansLine).map
          (Zone.withTtl (compileGlobals hk (parse s).cfg).ttl)) := by
    intro ws
    rw [map_sansLine_sortByMask, List.map_map, List.map_map]
    rfl
  simp only [Config.sansLines, hlisten', ← hagree.ttl, ← hagree.soa, ← hagree.nameservers,
    ← hagree.params, hzones, hsans]

/-- **Texts that say the same** are accepted together and mean the same. -/
lemma parse_of_said_eq {hk : Hickory} {s s' : Bytes} (hsaid : said s = said s') {c : Config}
    (h : Config.parse hk s = .ok c) :
    ∃ c', Config.parse hk s' = .ok c' ∧ c'.sansLines = c.sansLines := by
  refine parse_of_outline_eq ?_ h
  rw [outline_eq_exec_said, outline_eq_exec_said, hsaid]

/-- **Layout is decorative.** Of two texts of the same layout the one is accepted iff the other is,
and then the two configurations are equal but for the lines their zones were read from. Of the
parsers of addresses, numbers and names nothing is used but that they are functions of the text they
are given. -/
theorem layout_decorative {s s' : Bytes} (h : SameLayout s s') (hk : Hickory) :
    ((∃ c, Config.parse hk s = .ok c) ↔ ∃ c', Config.parse hk s' = .ok c') ∧
    ∀ c c', Config.parse hk s = .ok c → Config.parse hk s' = .ok c' →
      c'.sansLines = c.sansLines := by
  have hsaid := h.said_eq
  refine ⟨⟨?_, ?_⟩, ?_⟩
  · rintro ⟨c, hc⟩
    obtain ⟨c', hc', -⟩ := parse_of_said_eq hsaid hc
    exact ⟨c', hc'⟩
  · rintro ⟨c', hc'⟩
    obtain ⟨c, hc, -⟩ := parse_of_said_eq hsaid.symm hc'
    exact ⟨c, hc⟩
  · intro c c' hc hc'
    obtain ⟨c'', hc'', hsans⟩ := parse_of_said_eq hsaid hc
    rw [hc'] at hc''
    obtain rfl := Except.ok.inj hc''
    exact hsans

/-- A block on two lines. -/
def plainInput : Bytes := ofString "network 2001:db8::/32
resolves to %DIGITS%.Example"

/-- The block under a comment, with a keyword in another case, a carriage return and indentation. -/
def decoratedInput : Bytes := ofString "# layout
Network 2001:db8::/32\r
  resolves to %DIGITS%.Example"

/-- The decoration, edit by edit. -/
lemma sameLayout_decoratedInput : SameLayout plainInput decoratedInput := by
  have hspace : IsGap [32] := ⟨List.cons_ne_nil _ _, List.forall_mem_singleton.mpr rfl⟩
  have hkeyword : LineEdit (ofString "network 2001:db8::/32") (ofString "Network 2001:db8::/32") :=
    @LineEdit.keyword (.directive ⟨[ofString "network"], "network", .anywhere, .network, true⟩)
      (by decide +kernel) [ofString "network"] (by decide +kernel) (List.prefix_refl _) []
      (ofString "network") (ofString "Network") ([32] ++ ofString "2001:db8::/32")
      (by decide +kernel) ⟨ofString "network", [], (List.append_nil _).symm, rfl, rfl⟩
      (by decide +kernel) (hspace.startsApart _)
  have hmargins : LineEdit (ofString "resolves to %DIGITS%.Example")
      (ofString "  resolves to %DIGITS%.Example") :=
    @LineEdit.margins [] [32, 32] (ofString "resolves to %DIGITS%.Example") [] []
      (by decide +kernel) (by decide +kernel) (by decide +kernel) (by decide +kernel)
  have h₁ : Edit plainInput (ofString "Network 2001:db8::/32\nresolves to %DIGITS%.Example") :=
    @Edit.line [] _ _ (10 :: ofString "resolves to %DIGITS%.Example") (.inl rfl)
      ⟨[], _, rfl, .inl rfl, .inr rfl⟩ (by decide +kernel) (by decide +kernel) hkeyword
  have h₂ : Edit (ofString "Network 2001:db8::/32\nresolves to %DIGITS%.Example")
      (ofString "Network 2001:db8::/32\r\nresolves to %DIGITS%.Example") :=
    @Edit.ending [] (ofString "Network 2001:db8::/32") (ofString "resolves to %DIGITS%.Example")
      (.inl rfl) (by decide +kernel)
  have h₃ : Edit (ofString "Network 2001:db8::/32\r\nresolves to %DIGITS%.Example")
      (ofString "Network 2001:db8::/32\r\n  resolves to %DIGITS%.Example") :=
    @Edit.line (ofString "Network 2001:db8::/32\r\n") _ _ [] (.inr (by decide +kernel))
      ⟨[], [], rfl, .inl rfl, .inl rfl⟩ (by decide +kernel) (by decide +kernel) hmargins
  have h₄ : Edit (ofString "Network 2001:db8::/32\r\n  resolves to %DIGITS%.Example")
      decoratedInput :=
    @Edit.blank [] (ofString "# layout")
      (ofString "Network 2001:db8::/32\r\n  resolves to %DIGITS%.Example") (.inl rfl)
      (by decide +kernel) (.inr (by decide +kernel))
  exact (Relation.EqvGen.rel _ _ h₁).trans _ _ _ ((Relation.EqvGen.rel _ _ h₂).trans _ _ _
    ((Relation.EqvGen.rel _ _ h₃).trans _ _ _ (.rel _ _ h₄)))

/-- A file with comments, indentation and other case means what the plain one does. -/
theorem layout_decorative_decoratedInput :
    Config.parse namelessHickory decoratedInput = .ok (parsed decoratedInput) ∧
      (parsed decoratedInput).sansLines = (parsed plainInput).sansLines := by
  have hplain : Config.parse namelessHickory plainInput = .ok (parsed plainInput) := by
    decide +kernel
  have hdecorated : Config.parse namelessHickory decoratedInput = .ok (parsed decoratedInput) := by
    decide +kernel
  exact ⟨hdecorated, (layout_decorative sameLayout_decoratedInput namelessHickory).2 _ _ hplain
    hdecorated⟩

end PanoptiDns
