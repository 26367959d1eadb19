import PanoptiDns.Config.Outline
import PanoptiDns.Config.Words

set_option relaxedAutoImplicit false
set_option autoImplicit false

/-!
# The keywords

The parser takes the first entry of its tables that a line matches. The order of the tables does
not matter: a keyword that is matched is the beginning of the line, word by word, and no keyword
is the beginning of another. What a line says is what its one entry makes of it.

## Main definitions

* `Keyword`, `keywords` — the entries of both tables.
* `Keyword.read`, `Keyword.matches?` — what an entry makes of a line, and whether it matches it.
* `Keyword.readWords` — what an entry makes of a line, by its words.

## Main results

* `Keyword.eq_of_read` — at most one entry matches a line.
* `exists_keyword` — a line that the parser recognises is what its one entry makes of it.
* `grammar_exact` — the entries match the lines of the grammar, and at most one matches a line.
* `readLine_congr` — lines of which every entry makes the same say the same.
-/

namespace PanoptiDns

open Bytes

/-- An entry of the tables. -/
inductive Keyword
  | flag (f : Flag)
  | directive (d : Directive)
  deriving DecidableEq

/-- The entries of both tables. -/
def keywords : List Keyword := flags.map .flag ++ directives.map .directive

namespace Keyword

/-- The words of a keyword. -/
def words : Keyword → List Bytes
  | .flag f => f.words
  | .directive d => d.words

/-- What an entry makes of a line without its indentation: a flag is all of the line, and a
directive has a value. -/
def read (body : Bytes) : Keyword → Option Entry
  | .flag f => if matchesFlag body f.words then some (.flag f.key) else none
  | .directive d => (stripKeyword body d.words).map fun p =>
      d.target.entry (if d.lowercase then lower p.2 else p.2)

end Keyword

/-- The flags among the keywords. -/
lemma mem_keywords_flag {f : Flag} : Keyword.flag f ∈ keywords ↔ f ∈ flags := by
  simp [keywords]

/-- The directives among them. -/
lemma mem_keywords_directive {d : Directive} : Keyword.directive d ∈ keywords ↔ d ∈ directives := by
  simp [keywords]

/-- The words of an entry: at least one, and each of them a word in lowercase. -/
lemma words_of_mem_keywords {k : Keyword} (hk : k ∈ keywords) :
    (∀ w ∈ k.words, IsWord w ∧ w ≠ []) ∧ k.words ≠ [] := by
  have hall : ∀ k ∈ keywords, (∀ w ∈ k.words,
      (lower w = w ∧ ∀ b ∈ w, isWhitespace b = false) ∧ w ≠ []) ∧ k.words ≠ [] := by
    decide +kernel
  obtain ⟨hwords, hne⟩ := hall k hk
  exact ⟨fun w hw => ⟨⟨(hwords w hw).1.1, (hwords w hw).1.2⟩, (hwords w hw).2⟩, hne⟩

/-- No word of a keyword has white space in it. -/
lemma isSolid_of_mem_keywords {k : Keyword} (hk : k ∈ keywords) : ∀ w ∈ k.words, IsSolid w :=
  isSolid_of_isWord (words_of_mem_keywords hk).1

/-! ## A keyword that matches is the beginning of the line -/

/-- **A keyword that matches** is the first words of the line. -/
lemma Keyword.leadingWords_of_read {k : Keyword} (hk : k ∈ keywords) {body : Bytes} {e : Entry}
    (h : k.read body = some e) : leadingWords k.words.length body = k.words := by
  obtain ⟨hwords, hne⟩ := words_of_mem_keywords hk
  cases k with
  | flag f =>
    rw [read, Option.ite_none_right_eq_some] at h
    exact ((matchesFlag_iff_words hwords hne).mp h.1).1
  | directive d =>
    obtain ⟨p, hstrip, -⟩ := Option.map_eq_some_iff.mp h
    exact ((stripKeyword_iff_words hwords hne).mp ⟨p.1, hstrip⟩).1

/-- No keyword is the beginning of another. -/
lemma keywords_code : ∀ k ∈ keywords, ∀ k' ∈ keywords, k.words <+: k'.words → k = k' := by
  decide +kernel

/-- **At most one entry matches a line**, so that the order of the tables does not matter. -/
lemma Keyword.eq_of_read {k k' : Keyword} (hk : k ∈ keywords) (hk' : k' ∈ keywords) {body : Bytes}
    {e e' : Entry} (h : k.read body = some e) (h' : k'.read body = some e') : k = k' := by
  have hwords := leadingWords_of_read hk h
  have hwords' := leadingWords_of_read hk' h'
  rcases Nat.le_total k.words.length k'.words.length with hle | hle
  · apply keywords_code k hk k' hk'
    have := leadingWords_isPrefix hle body
    rwa [hwords, hwords'] at this
  · apply Eq.symm
    apply keywords_code k' hk' k hk
    have := leadingWords_isPrefix hle body
    rwa [hwords, hwords'] at this

/-! ## The lines the parser recognises -/

/-- **A line that is recognised** is blank, or what its one entry makes of it. -/
lemma exists_keyword {raw : Bytes} (h : readLine raw ≠ .bad) :
    (IsBlank raw ∧ readLine raw = .blank) ∨
      (¬IsBlank raw ∧ ∃ k ∈ keywords, k.read (trimStart raw) = some (readLine raw)) := by
  have hscans := scanLine_scans 0 raw
  unfold readLine at h ⊢
  cases hx : scanLine 0 raw with
  | blank =>
    rw [hx] at hscans
    cases hscans with
    | blank hblank => exact .inl ⟨hblank, rfl⟩
  | flag f v =>
    rw [hx] at hscans
    cases hscans with
    | flag hblank _ hf hmatch span =>
      refine .inr ⟨hblank, .flag f, by simp [keywords, hf], ?_⟩
      simp [Keyword.read, hmatch, Scanned.entry]
  | directive d v =>
    rw [hx] at hscans
    cases hscans with
    | directive hblank _ hd p hmatch span =>
      refine .inr ⟨hblank, .directive d, by simp [keywords, hd], ?_⟩
      simp [Keyword.read, hmatch, Scanned.entry]
  | bad e =>
    rw [hx] at h
    exact absurd rfl h

/-! ## One keyword -/

/-- An entry of the tables matches a line. -/
def Keyword.matches? (line : Bytes) : Keyword → Bool
  | .flag f => matchesFlag line f.words
  | .directive d => (stripKeyword line d.words).isSome

/-- A keyword that matches a line reads it. -/
lemma Keyword.exists_read {k : Keyword} {line : Bytes} (h : k.matches? line = true) :
    ∃ e, k.read line = some e := by
  cases k with
  | flag f => exact ⟨_, if_pos h⟩
  | directive d =>
    obtain ⟨p, hp⟩ := Option.isSome_iff_exists.mp h
    exact ⟨_, by rw [read, hp]; rfl⟩

/-- **At most one entry of both tables matches a line.** -/
lemma Keyword.eq_of_matches {k k' : Keyword} (hk : k ∈ keywords) (hk' : k' ∈ keywords)
    {line : Bytes} (h : k.matches? line = true) (h' : k'.matches? line = true) : k = k' := by
  obtain ⟨e, he⟩ := exists_read h
  obtain ⟨e', he'⟩ := exists_read h'
  exact eq_of_read hk hk' he he'

/-- The scan of the entries in any order finds the one that matches. -/
lemma Keyword.find?_eq_some_iff {ks : List Keyword} (hks : ks.Perm keywords) {line : Bytes}
    {k : Keyword} :
    ks.find? (matches? line) = some k ↔ k ∈ keywords ∧ k.matches? line = true := by
  constructor
  · intro h
    exact ⟨hks.mem_iff.mp (List.mem_of_find?_eq_some h), List.find?_some h⟩
  · rintro ⟨hk, h⟩
    obtain ⟨k', hk'⟩ := Option.isSome_iff_exists.mp
      (List.find?_isSome.mpr ⟨k, hks.mem_iff.mpr hk, h⟩)
    rw [hk', eq_of_matches (hks.mem_iff.mp (List.mem_of_find?_eq_some hk')) hk
      (List.find?_some hk') h]

/-- The flag the parser takes is the one entry that matches. -/
lemma find?_flags_eq_some_iff {ks : List Keyword} (hks : ks.Perm keywords) {line : Bytes}
    {f : Flag} :
    flags.find? (fun f => matchesFlag line f.words) = some f ↔
      ks.find? (Keyword.matches? line) = some (.flag f) := by
  rw [Keyword.find?_eq_some_iff hks, mem_keywords_flag]
  constructor
  · intro h
    have hmatch := List.find?_some h
    exact ⟨List.mem_of_find?_eq_some h, hmatch⟩
  · rintro ⟨hf, h⟩
    have hsome : (flags.find? fun f => matchesFlag line f.words).isSome = true :=
      List.find?_isSome.mpr ⟨f, hf, h⟩
    obtain ⟨f', hf'⟩ := Option.isSome_iff_exists.mp hsome
    have hmatch := List.find?_some hf'
    have heq := Keyword.eq_of_matches (mem_keywords_flag.mpr (List.mem_of_find?_eq_some hf'))
      (mem_keywords_flag.mpr hf) hmatch h
    rw [hf', Keyword.flag.inj heq]

/-- The directive the parser takes, once no flag has matched, is the one entry that matches. -/
lemma matchDirective_eq_some_iff {ks : List Keyword} (hks : ks.Perm keywords) {line : Bytes}
    {d : Directive} {p : ℕ × Bytes} :
    (flags.find? (fun f => matchesFlag line f.words) = none ∧ matchDirective line = some (d, p)) ↔
      ks.find? (Keyword.matches? line) = some (.directive d) ∧
        stripKeyword line d.words = some p := by
  rw [Keyword.find?_eq_some_iff hks, mem_keywords_directive]
  constructor
  · rintro ⟨-, h⟩
    obtain ⟨d', hd', hmap⟩ := List.exists_of_findSome?_eq_some h
    obtain ⟨q, hstrip, heq⟩ := Option.map_eq_some_iff.mp hmap
    obtain ⟨rfl, rfl⟩ := Prod.mk.inj heq
    exact ⟨⟨hd', by rw [Keyword.matches?, hstrip]; rfl⟩, hstrip⟩
  · rintro ⟨⟨hd, h⟩, hstrip⟩
    refine ⟨List.find?_eq_none.mpr fun f hf hmatch => ?_, ?_⟩
    · have heq := Keyword.eq_of_matches (mem_keywords_flag.mpr hf)
        (mem_keywords_directive.mpr hd) hmatch h
      cases heq
    · have hsome : (matchDirective line).isSome = true := by
        rw [matchDirective, List.findSome?_isSome_iff]
        exact ⟨d, hd, by rw [hstrip]; rfl⟩
      obtain ⟨⟨d', q⟩, hmatch⟩ := Option.isSome_iff_exists.mp hsome
      obtain ⟨d'', hd'', hmap⟩ := List.exists_of_findSome?_eq_some hmatch
      obtain ⟨q', hstrip', heq⟩ := Option.map_eq_some_iff.mp hmap
      obtain ⟨rfl, rfl⟩ := Prod.mk.inj heq
      have heq := Keyword.eq_of_matches (mem_keywords_directive.mpr hd'')
        (mem_keywords_directive.mpr hd) (by rw [Keyword.matches?, hstrip']; rfl) h
      obtain rfl := Keyword.directive.inj heq
      rw [hmatch, ← Option.some.inj (hstrip'.symm.trans hstrip)]

/-- **The line grammar is matched exactly and unambiguously.** A directive is matched on the lines
of its grammar, with the value and where it begins; at most one entry of both tables matches a
line; and what the parser takes a line for is what a scan of the entries in any order finds. -/
theorem grammar_exact :
    (∀ line, ∀ d ∈ directives, ∀ offset value,
      stripKeyword line d.words = some (offset, value) ↔
        IsDirectiveLine d.words line offset value) ∧
    (∀ line, ∀ k ∈ keywords, ∀ k' ∈ keywords, k.matches? line = true → k'.matches? line = true →
      k = k') ∧
    ∀ line (ks : List Keyword), ks.Perm keywords →
      (∀ f, flags.find? (fun f => matchesFlag line f.words) = some f ↔
        ks.find? (Keyword.matches? line) = some (.flag f)) ∧
      ∀ d p, (flags.find? (fun f => matchesFlag line f.words) = none ∧
          matchDirective line = some (d, p)) ↔
        ks.find? (Keyword.matches? line) = some (.directive d) ∧
          stripKeyword line d.words = some p := by
  refine ⟨fun line d hd offset value => ?_, fun line k hk k' hk' => Keyword.eq_of_matches hk hk',
    fun line ks hks => ⟨fun f => find?_flags_eq_some_iff hks,
      fun d p => matchDirective_eq_some_iff hks⟩⟩
  exact stripKeyword_eq_some_iff (isSolid_of_mem_keywords (mem_keywords_directive.mpr hd))

/-- The line `resolves  To x `, read with the tables backwards. -/
theorem grammar_exact_backwards :
    IsDirectiveLine [ofString "resolves", ofString "to"] (ofString "resolves  To x ") 13
        (ofString "x") ∧
      keywords.reverse.find? (Keyword.matches? (ofString "resolves  To x ")) =
        some (.directive ⟨[ofString "resolves", ofString "to"], "resolves to", .zone, .resolvesTo,
          false⟩) :=
  ⟨(grammar_exact.1 _ ⟨[ofString "resolves", ofString "to"], "resolves to", .zone, .resolvesTo,
      false⟩ (by decide +kernel) _ _).mp (by decide +kernel),
    (((grammar_exact.2.2 _ _ (List.reverse_perm _)).2 _ _).mp
      (show _ ∧ _ = some (_, 13, ofString "x") by decide +kernel)).1⟩

/-! ## What a line says, by its words -/

namespace Keyword

/-- What an entry makes of the rest of a line: a flag has none, and a directive has a value in
UTF-8. -/
def readRest (rest : Bytes) : Keyword → Option Entry
  | .flag f => if rest = [] then some (.flag f.key) else none
  | .directive d =>
    if rest = [] then none
    else some (if isUtf8 rest then d.target.entry (if d.lowercase then lower rest else rest)
      else .bad)

/-- What an entry makes of a line without its indentation, by its words. -/
def readWords (body : Bytes) (k : Keyword) : Option Entry :=
  if leadingWords k.words.length body = k.words then
    k.readRest (trimEnd (afterWords k.words.length body))
  else none

end Keyword

/-- A flag is read off its words alone. -/
lemma readWords_flag {f : Flag} (hf : f ∈ flags) (body : Bytes) :
    (Keyword.flag f).readWords body =
      if matchesFlag body f.words then some (.flag f.key) else none := by
  obtain ⟨hwords, hne⟩ := words_of_mem_keywords (mem_keywords_flag.mpr hf)
  have hiff : matchesFlag body f.words = true ↔ _ := matchesFlag_iff_words hwords hne
  unfold Keyword.readWords
  split_ifs with hleading hmatch hmatch
  · exact if_pos (hiff.mp hmatch).2
  · exact if_neg fun hempty => hmatch (hiff.mpr ⟨hleading, hempty⟩)
  · exact absurd (hiff.mp hmatch).1 hleading
  · rfl

/-- A directive is read off its words and the value after them. -/
lemma readWords_directive {d : Directive} (hd : d ∈ directives) (body : Bytes) :
    (Keyword.directive d).readWords body = (stripKeyword body d.words).map fun p =>
      if isUtf8 p.2 then d.target.entry (if d.lowercase then lower p.2 else p.2) else .bad := by
  obtain ⟨hwords, hne⟩ := words_of_mem_keywords (mem_keywords_directive.mpr hd)
  have hiff : ∀ value, (∃ offset, stripKeyword body d.words = some (offset, value)) ↔ _ :=
    fun value => stripKeyword_iff_words hwords hne
  unfold Keyword.readWords
  by_cases hleading :
      leadingWords (Keyword.directive d).words.length body = (Keyword.directive d).words
  · rw [if_pos hleading, Keyword.readRest]
    by_cases hempty : trimEnd (afterWords (Keyword.directive d).words.length body) = []
    · rw [if_pos hempty]
      cases hstrip : stripKeyword body d.words with
      | none => rfl
      | some p =>
        obtain ⟨-, hvalue, hvaluene⟩ := (hiff p.2).mp ⟨p.1, hstrip⟩
        exact absurd (hvalue.symm.trans hempty) hvaluene
    · obtain ⟨offset, hstrip⟩ := (hiff _).mpr ⟨hleading, rfl, hempty⟩
      rw [if_neg hempty, hstrip]
      rfl
  · rw [if_neg hleading]
    cases hstrip : stripKeyword body d.words with
    | none => rfl
    | some p => exact absurd ((hiff p.2).mp ⟨p.1, hstrip⟩).1 hleading

/-- A blank line says nothing. -/
lemma readLine_of_isBlank {raw : Bytes} (h : IsBlank raw) : readLine raw = .blank := by
  have hcond : ((trimStart raw).isEmpty || (trimStart raw).head? == some '#'.toUInt8) = true := by
    simpa [IsBlank] using h
  unfold readLine scanLine
  simp only [hcond, if_true]
  rfl

/-- **A line says what its one entry makes of it**; a line of which no entry makes anything is
bad. -/
lemma readLine_of_readWords {raw : Bytes} (hblank : ¬IsBlank raw) {k : Keyword} (hk : k ∈ keywords)
    {e : Entry} (h : k.readWords (trimStart raw) = some e) : readLine raw = e := by
  have hcond : ((trimStart raw).isEmpty || (trimStart raw).head? == some '#'.toUInt8) = false := by
    simpa [IsBlank] using hblank
  unfold readLine scanLine
  simp only [hcond, Bool.false_eq_true, if_false]
  cases k with
  | flag f =>
    have hf := mem_keywords_flag.mp hk
    rw [readWords_flag hf, Option.ite_none_right_eq_some] at h
    obtain ⟨hmatch, he⟩ := h
    have hfind := (find?_flags_eq_some_iff (List.Perm.refl _)).mpr
      ((Keyword.find?_eq_some_iff (List.Perm.refl _)).mpr ⟨hk, hmatch⟩)
    rw [hfind]
    exact Option.some.inj he
  | directive d =>
    have hd := mem_keywords_directive.mp hk
    rw [readWords_directive hd, Option.map_eq_some_iff] at h
    obtain ⟨p, hstrip, he⟩ := h
    have hmatches : (Keyword.directive d).matches? (trimStart raw) = true := by
      rw [Keyword.matches?, hstrip]
      rfl
    obtain ⟨hnone, hsome⟩ := (matchDirective_eq_some_iff (List.Perm.refl _)).mpr
      ⟨(Keyword.find?_eq_some_iff (List.Perm.refl _)).mpr ⟨hk, hmatches⟩, hstrip⟩
    rw [hnone, hsome]
    obtain ⟨offset, value⟩ := p
    rw [← he]
    cases hutf8 : isUtf8 value with
    | true => simp [hutf8, Scanned.entry]
    | false => simp [hutf8, Scanned.entry]

/-- A line that no keyword reads is an error. -/
lemma readLine_of_readWords_none {raw : Bytes} (hblank : ¬IsBlank raw)
    (h : ∀ k ∈ keywords, k.readWords (trimStart raw) = none) : readLine raw = .bad := by
  by_contra hbad
  rcases exists_keyword hbad with ⟨hblank', -⟩ | ⟨-, k, hk, hread⟩
  · exact hblank hblank'
  · have hnone := h k hk
    cases k with
    | flag f =>
      rw [readWords_flag (mem_keywords_flag.mp hk)] at hnone
      rw [Keyword.read] at hread
      split at hread
      · rename_i hmatch
        rw [if_pos hmatch] at hnone
        cases hnone
      · cases hread
    | directive d =>
      rw [readWords_directive (mem_keywords_directive.mp hk), Option.map_eq_none_iff] at hnone
      rw [Keyword.read, hnone] at hread
      cases hread

/-- **Lines of which every entry makes the same** say the same. -/
theorem readLine_congr {raw raw' : Bytes} (hblank : IsBlank raw ↔ IsBlank raw')
    (h : ∀ k ∈ keywords, k.readWords (trimStart raw) = k.readWords (trimStart raw')) :
    readLine raw = readLine raw' := by
  by_cases hraw : IsBlank raw
  · rw [readLine_of_isBlank hraw, readLine_of_isBlank (hblank.mp hraw)]
  · have hraw' := fun hb => hraw (hblank.mpr hb)
    by_cases hnone : ∀ k ∈ keywords, k.readWords (trimStart raw) = none
    · rw [readLine_of_readWords_none hraw hnone,
        readLine_of_readWords_none hraw' fun k hk => (h k hk).symm.trans (hnone k hk)]
    · push Not at hnone
      obtain ⟨k, hk, hsome⟩ := hnone
      obtain ⟨e, he⟩ := Option.ne_none_iff_exists'.mp hsome
      rw [readLine_of_readWords hraw hk he, readLine_of_readWords hraw' hk ((h k hk).symm.trans he)]

end PanoptiDns
