import PanoptiDns.Config.Contents
import PanoptiDns.Config.Layout

set_option relaxedAutoImplicit false
set_option autoImplicit false

/-!
# Writing a file out

An outline is written out one line an entry, keywords in lowercase and single blanks between words.
What is written is read back as the same entries; and every entry that a line of a file can be read
as can be written. So a file without errors has a canonical text, which says what the file says.

## Main definitions

* `IsText` — a value that a line can hold.
* `Entry.line`, `Entry.Sayable` — the line of an entry, and the entries that have one.
* `Outline.print`, `Outline.Sayable` — the text of an outline, and the outlines that have one.

## Main results

* `readLine_line` — an entry is read back from its line.
* `sayable_readLine` — what a line is read as can be written, unless it is an error.
* `outline_print` — an outline is read back from its text.
* `parse_print` — a file without errors, written out and parsed again.
-/

namespace PanoptiDns

open Bytes

/-! ## Lines -/

/-- A value that a line can hold: no whitespace at its ends, valid, and all on one line. -/
structure IsText (value : Bytes) : Prop where
  isValue : IsValue value
  utf8 : isUtf8 value = true
  oneLine : 10 ∉ value

/-- The words of a keyword with single blanks between them. -/
def spellWords (words : List Bytes) : Bytes := [' '.toUInt8].intercalate words

/-- The line of a directive. -/
def Directive.line (d : Directive) (value : Bytes) : Bytes :=
  spellWords d.words ++ ([' '.toUInt8] ++ value)

/-- The line of the directive that has the target. -/
def Target.line (t : Target) (value : Bytes) : Bytes :=
  ((directives.find? (·.target = t)).map (·.line value)).getD []

/-- The line of the flag that has the key. -/
def flagLine (key : GlobalKey) : Bytes :=
  ((flags.find? (·.key = key)).map fun f => spellWords f.words).getD []

/-- The line of an entry. -/
def Entry.line : Entry → Bytes
  | .blank | .bad => []
  | .listen value => Target.listen.line value
  | .network value => Target.network.line value
  | .resolvesTo value => Target.resolvesTo.line value
  | .upstream value => Target.upstream.line value
  | .flag key => flagLine key
  | .setting key value => (Target.global key).line value

/-- The entries that have a line. Only the value of `resolves to` keeps its case. -/
def Entry.Sayable : Entry → Prop
  | .blank => True
  | .bad => False
  | .listen value | .network value | .upstream value => IsText value ∧ lower value = value
  | .resolvesTo value => IsText value
  | .flag key => key = .rrlOff
  | .setting key value => key ≠ .rrlOff ∧ IsText value ∧ lower value = value

/-- The blank between words. -/
lemma isGap_space : IsGap [' '.toUInt8] := by
  refine ⟨by simp, fun b hb => ?_⟩
  rw [List.mem_singleton.mp hb]
  rfl

/-- The words with blanks between them spell the keyword. -/
lemma spells_spellWords {words : List Bytes} (hne : words ≠ []) :
    Spells words (spellWords words) := by
  have hafter : ∀ (ws : List Bytes), SpellsAfter ws (ws.flatMap fun w => [' '.toUInt8] ++ w) := by
    intro ws
    induction ws with
    | nil => rfl
    | cons w ws ih =>
      refine ⟨[' '.toUInt8], w, _, ?_, isGap_space, rfl, ih⟩
      simp
  have hspell : ∀ (w : Bytes) (ws : List Bytes),
      spellWords (w :: ws) = w ++ ws.flatMap fun w => [' '.toUInt8] ++ w := by
    intro w ws
    induction ws generalizing w with
    | nil => simp [spellWords, List.intercalate]
    | cons w' ws ih =>
      rw [spellWords, intercalate_cons_cons, ← spellWords, ih]
      simp
  cases words with
  | nil => exact absurd rfl hne
  | cons w ws => exact ⟨w, _, hspell w ws, rfl, hafter ws⟩

/-- What follows a spelled keyword is neither indented nor a comment. -/
lemma spellWords_front {k : Keyword} (hk : k ∈ keywords) (rest : Bytes) :
    trimStart (spellWords k.words ++ rest) = spellWords k.words ++ rest ∧
      ¬IsBlank (spellWords k.words ++ rest) := by
  have hall : ∀ k ∈ keywords, (spellWords k.words).head?.any
      (fun b => !isWhitespace b && b != '#'.toUInt8) = true := by
    decide +kernel
  obtain ⟨b, hb, hfront⟩ := (Option.any_eq_true _ _).mp (hall k hk)
  obtain ⟨tail, htail⟩ := List.head?_eq_some_iff.mp hb
  rw [Bool.and_eq_true, Bool.not_eq_true', bne_iff_ne] at hfront
  have htrim : trimStart (spellWords k.words ++ rest) = spellWords k.words ++ rest := by
    rw [htail, List.cons_append]
    exact List.dropWhile_cons_of_neg (by simp [hfront.1])
  refine ⟨htrim, ?_⟩
  rw [IsBlank, htrim, htail]
  simp [hfront.2]

/-- **The line of a directive** is read back. -/
lemma readLine_directive {d : Directive} (hd : d ∈ directives) {value : Bytes}
    (hvalue : IsText value) :
    readLine (d.line value) = d.target.entry (if d.lowercase then lower value else value) := by
  have hk := mem_keywords_directive.mpr hd
  obtain ⟨htrim, hblank⟩ := spellWords_front hk ([' '.toUInt8] ++ value)
  refine readLine_of_readWords hblank hk ?_
  have hline : IsDirectiveLine d.words (d.line value) (spellWords d.words ++ [' '.toUInt8]).length
      value :=
    ⟨spellWords d.words, [' '.toUInt8], [], by simp [Directive.line],
      spells_spellWords (words_of_mem_keywords hk).2, isGap_space, hvalue.isValue,
      by simp, rfl⟩
  have hstrip : stripKeyword (spellWords d.words ++ ([' '.toUInt8] ++ value)) d.words =
      some ((spellWords d.words ++ [' '.toUInt8]).length, value) :=
    (stripKeyword_eq_some_iff (isSolid_of_mem_keywords hk)).mpr hline
  rw [htrim, readWords_directive hd]
  simp only [Keyword.words, hstrip, Option.map_some, hvalue.utf8, if_true]

/-- **The line of a flag** is read back. -/
lemma readLine_flag {f : Flag} (hf : f ∈ flags) : readLine (spellWords f.words) = .flag f.key := by
  have hk := mem_keywords_flag.mpr hf
  obtain ⟨htrim, hblank⟩ := spellWords_front hk []
  rw [List.append_nil] at htrim hblank
  refine readLine_of_readWords hblank hk ?_
  have hline : IsFlagLine f.words (spellWords f.words) :=
    ⟨spellWords f.words, [], by simp, spells_spellWords (words_of_mem_keywords hk).2, by simp⟩
  rw [htrim, readWords_flag hf]
  exact if_pos ((matchesFlag_iff (isSolid_of_mem_keywords hk)).mpr hline)

/-- The directive of a target; only `resolves to` keeps the case of its value. -/
lemma exists_directive {t : Target} (ht : t ≠ .global .rrlOff) :
    ∃ d ∈ directives, d.target = t ∧ (d.lowercase = true ↔ t ≠ .resolvesTo) ∧
      ∀ value, t.line value = d.line value := by
  have hfind : ∀ t : Target, t ≠ .global .rrlOff → (directives.find? (·.target = t)).any
      (fun d => decide (d.lowercase = true ↔ t ≠ .resolvesTo)) = true := by
    intro t ht
    cases t with
    | listen => decide
    | network => decide
    | resolvesTo => decide
    | upstream => decide
    | global key =>
      cases key with
      | rrlOff => exact absurd rfl ht
      | _ => decide
  obtain ⟨d, hd, hlower⟩ := (Option.any_eq_true _ _).mp (hfind t ht)
  refine ⟨d, List.mem_of_find?_eq_some hd, by simpa using List.find?_some hd,
    of_decide_eq_true hlower, fun value => ?_⟩
  rw [Target.line, hd, Option.map_some, Option.getD_some]

/-- The line of the one flag there is. -/
lemma flagLine_rrlOff : ∃ f ∈ flags, f.key = .rrlOff ∧ flagLine .rrlOff = spellWords f.words :=
  ⟨_, List.mem_singleton_self _, rfl, rfl⟩

/-- The line of a target and a value is read as the entry of both. -/
lemma readLine_target {t : Target} (ht : t ≠ .global .rrlOff) {value : Bytes}
    (hvalue : IsText value)
    (hlower : t = .resolvesTo ∨ lower value = value) : readLine (t.line value) = t.entry value := by
  obtain ⟨d, hd, rfl, hcase, hline⟩ := exists_directive ht
  rw [hline, readLine_directive hd hvalue]
  split
  · rename_i hlow
    rw [hlower.resolve_left (hcase.mp hlow)]
  · rfl

/-- **An entry is read back from its line.** -/
theorem readLine_line {e : Entry} (h : e.Sayable) : readLine e.line = e := by
  cases e with
  | blank => rfl
  | bad => exact h.elim
  | listen value => exact readLine_target (t := .listen) (by simp) h.1 (.inr h.2)
  | network value => exact readLine_target (t := .network) (by simp) h.1 (.inr h.2)
  | resolvesTo value => exact readLine_target (t := .resolvesTo) (by simp) h (.inl rfl)
  | upstream value => exact readLine_target (t := .upstream) (by simp) h.1 (.inr h.2)
  | flag key =>
    obtain ⟨f, hf, hkey, hline⟩ := flagLine_rrlOff
    obtain rfl : key = .rrlOff := h
    rw [Entry.line, hline, readLine_flag hf, hkey]
  | setting key value =>
    exact readLine_target (t := .global key) (by simpa using h.1) h.2.1 (.inr h.2.2)

/-! ## What a line is read as -/

/-- A text that can stand as a value can in lowercase. -/
lemma isText_lower {value : Bytes} (h : IsText value) : IsText (lower value) where
  isValue := by
    refine ⟨by simpa [lower] using h.isValue.nonempty, fun b hb => ?_, fun b hb => ?_⟩
    · rw [lower, List.head?_map, Option.mem_def, Option.map_eq_some_iff] at hb
      obtain ⟨c, hc, rfl⟩ := hb
      rw [isWhitespace_lowerByte]
      exact h.isValue.head c hc
    · rw [lower, List.getLast?_map, Option.mem_def, Option.map_eq_some_iff] at hb
      obtain ⟨c, hc, rfl⟩ := hb
      rw [isWhitespace_lowerByte]
      exact h.isValue.last c hc
  utf8 := by rw [isUtf8_lower, h.utf8]
  oneLine := by
    intro hmem
    obtain ⟨c, hc, hlower⟩ := List.mem_map.mp hmem
    rw [(lowerByte_eq_iff (by decide) (by decide) c).mp hlower] at hc
    exact h.oneLine hc

/-- **What a line is read as can be written**, unless it is an error. -/
theorem sayable_readLine {raw : Bytes} (hraw : 10 ∉ raw) (hbad : readLine raw ≠ .bad) :
    (readLine raw).Sayable := by
  rcases exists_keyword hbad with ⟨-, hblank⟩ | ⟨hblank, k, hk, hread⟩
  · rw [hblank]
    exact trivial
  cases k with
  | flag f =>
    rw [Keyword.read, Option.ite_none_right_eq_some, Option.some.injEq] at hread
    obtain rfl := List.mem_singleton.mp (mem_keywords_flag.mp hk)
    rw [← hread.2]
    rfl
  | directive d =>
    have hd := mem_keywords_directive.mp hk
    obtain ⟨⟨offset, value⟩, hstrip, hentry⟩ := Option.map_eq_some_iff.mp hread
    obtain ⟨spelled, gap, trail, hline, -, -, hvalue, -, -⟩ :=
      (stripKeyword_eq_some_iff (isSolid_of_mem_keywords hk)).mp hstrip
    -- a value that is not valid makes the line an error
    have hutf8 : isUtf8 value = true := by
      by_contra hnot
      refine hbad (readLine_of_readWords hblank hk ?_)
      rw [readWords_directive hd]
      simp [hstrip, hnot]
    have honeLine : 10 ∉ value := by
      intro hmem
      obtain ⟨front, hfront⟩ : ∃ front, raw = front ++ trimStart raw := by
        obtain ⟨front, hfront, -⟩ := exists_trimStart raw
        exact ⟨front, hfront⟩
      rw [hfront, hline] at hraw
      simp [hmem] at hraw
    have htext : IsText value := ⟨hvalue, hutf8, honeLine⟩
    have hcase : ∀ d ∈ directives, d.target ≠ .global .rrlOff ∧
        (d.lowercase = true ↔ d.target ≠ .resolvesTo) := by decide
    obtain ⟨htarget, hlowercase⟩ := hcase d hd
    rw [← hentry]
    cases ht : d.target with
    | resolvesTo =>
      have hkeep : d.lowercase = false := by
        rw [← Bool.not_eq_true, hlowercase, ht]
        simp
      simp only [hkeep, Bool.false_eq_true, if_false]
      exact htext
    | global key =>
      have hlow := hlowercase.mpr (by simp [ht])
      exact ⟨by simpa [ht] using htarget, by simpa [hlow] using isText_lower htext,
        by simp [hlow]⟩
    | _ =>
      have hlow := hlowercase.mpr (by simp [ht])
      exact ⟨by simpa [hlow] using isText_lower htext, by simp [hlow]⟩

/-! ## Files -/

/-- The entries of a block. -/
def Block.entries (b : Block) : List Entry :=
  .network b.network ::
    ((b.resolvesTo.map Entry.resolvesTo).toList ++ (b.upstream.map Entry.upstream).toList)

/-- The entry of a setting; `rrl off` is a flag. -/
def settingEntry (p : GlobalKey × Bytes) : Entry :=
  if p.1 = .rrlOff then .flag p.1 else .setting p.1 p.2

/-- The entries of an outline: what may stand anywhere, then the settings, then the blocks. -/
def Outline.entries (o : Outline) : List Entry :=
  o.listen.map .listen ++ (o.globals.map settingEntry ++ o.blocks.flatMap Block.entries)

/-- The text of an outline. -/
def Outline.print (o : Outline) : Bytes := o.entries.flatMap fun e => e.line ++ [10]

/-- The outlines that have a text: `rrl off` has no value, and the settings that the parser takes
only once are there at most once. -/
structure Outline.Sayable (o : Outline) : Prop where
  entries : ∀ e ∈ o.entries, e.Sayable
  flag : ∀ value, (GlobalKey.rrlOff, value) ∈ o.globals → value = []
  setOnce : SetOnce o.globals

/-- The line of an entry has no line end in it. -/
lemma line_ends {e : Entry} (h : e.Sayable) : 10 ∉ e.line ∧ e.line.getLast? ≠ some 13 := by
  have hwords : ∀ k ∈ keywords, (spellWords k.words).all (· != 10) = true ∧
      (spellWords k.words).getLast? ≠ some 13 := by decide +kernel
  have htarget : ∀ {t : Target}, t ≠ .global .rrlOff → ∀ {value : Bytes}, IsText value →
      10 ∉ t.line value ∧ (t.line value).getLast? ≠ some 13 := by
    intro t ht value hvalue
    obtain ⟨d, hd, -, -, hline⟩ := exists_directive ht
    rw [hline, Directive.line]
    constructor
    · intro hmem
      rcases List.mem_append.mp hmem with hmem | hmem
      · have hb := List.all_eq_true.mp (hwords _ (mem_keywords_directive.mpr hd)).1 _ hmem
        simp at hb
      · rcases List.mem_append.mp hmem with hmem | hmem
        · exact absurd (List.mem_singleton.mp hmem) (by decide)
        · exact hvalue.oneLine hmem
    · intro hlast
      rw [List.getLast?_append_of_ne_nil _ (by simp), List.getLast?_append_of_ne_nil _
        hvalue.isValue.nonempty] at hlast
      exact absurd (hvalue.isValue.last 13 hlast) (by decide)
  cases e with
  | blank => exact ⟨by simp [Entry.line], by simp [Entry.line]⟩
  | bad => exact h.elim
  | listen value => exact htarget (t := .listen) (by simp) h.1
  | network value => exact htarget (t := .network) (by simp) h.1
  | resolvesTo value => exact htarget (t := .resolvesTo) (by simp) h
  | upstream value => exact htarget (t := .upstream) (by simp) h.1
  | flag key =>
    obtain ⟨f, hf, -, hline⟩ := flagLine_rrlOff
    obtain rfl : key = .rrlOff := h
    obtain ⟨hlf, hcr⟩ := hwords _ (mem_keywords_flag.mpr hf)
    rw [Entry.line, hline]
    refine ⟨fun hmem => ?_, hcr⟩
    have hb := List.all_eq_true.mp hlf _ hmem
    simp at hb
  | setting key value => exact htarget (t := .global key) (by simpa using h.1) h.2.1

/-- The lines of a text are the lines it was written from. -/
lemma fileLines_print {o : Outline} (h : o.Sayable) :
    fileLines o.print = o.entries.map Entry.line := by
  have hends : ∀ l ∈ o.entries.map Entry.line, 10 ∉ l ∧ l.getLast? ≠ some 13 := by
    intro l hl
    obtain ⟨e, he, rfl⟩ := List.mem_map.mp hl
    exact line_ends (h.entries e he)
  have hprint : o.print = (o.entries.map Entry.line).flatMap (· ++ [10]) := by
    rw [Outline.print, List.flatMap_map]
  rw [fileLines, hprint, lines_flatMap hends]
  refine (List.map_congr_left fun l hl => ?_).trans (List.map_id _)
  change stripOne 13 l = l
  rw [stripOne, stripSuffix, if_neg (hends l hl).2, Option.getD_none]

/-- The `listen` entries are taken as they are. -/
lemma exec_listens (ls : List Bytes) {o : Outline} (ho : o.blocks = []) :
    Run.exec Outline.add o (ls.map .listen) = some { o with listen := o.listen ++ ls } := by
  induction ls generalizing o with
  | nil => simp
  | cons l ls ih =>
    have hadd : o.add (.listen l) = some { o with listen := o.listen ++ [l] } := by
      simp [Outline.add, ho, Outline.addGlobal]
    rw [List.map_cons, Run.exec_cons, hadd, Option.bind_some,
      ih (o := { o with listen := o.listen ++ [l] }) ho]
    simp

/-- The texts of a key in two lists of settings. -/
lemma textsOf_append (key : GlobalKey) (gs gs' : List (GlobalKey × Bytes)) :
    textsOf key (gs ++ gs') = textsOf key gs ++ textsOf key gs' := List.flatMap_append

/-- A key that is set has a text. -/
lemma textsOf_ne_nil {key : GlobalKey} {gs : List (GlobalKey × Bytes)}
    (h : key ∈ gs.map Prod.fst) : textsOf key gs ≠ [] := by
  obtain ⟨p, hp, rfl⟩ := List.mem_map.mp h
  exact List.ne_nil_of_mem (a := p.2) (List.mem_flatMap.mpr ⟨p, hp, by simp⟩)

/-- The settings are taken as they are, if none is there twice. -/
lemma exec_settings (gs : List (GlobalKey × Bytes)) {o : Outline} (ho : o.blocks = [])
    (hflag : ∀ value, (GlobalKey.rrlOff, value) ∈ gs → value = [])
    (honce : SetOnce (o.globals ++ gs)) :
    Run.exec Outline.add o (gs.map settingEntry) = some { o with globals := o.globals ++ gs } := by
  induction gs generalizing o with
  | nil => simp
  | cons p gs ih =>
    obtain ⟨key, value⟩ := p
    have hadd : o.add (settingEntry (key, value)) =
        some { o with globals := o.globals ++ [(key, value)] } := by
      by_cases hkey : key = .rrlOff
      · subst hkey
        obtain rfl := hflag value (by simp)
        simp [settingEntry, Outline.add, ho, Outline.addGlobal]
      · have hnew : ¬(key ≠ .ns ∧ key ∈ o.globals.map Prod.fst) := by
          rintro ⟨hns, hmem⟩
          have hle := honce key (by cases key <;> simp_all [GlobalKey.repeatable])
          have hpos := List.length_pos_iff.mpr (textsOf_ne_nil hmem)
          rw [textsOf_append, textsOf, textsOf, List.flatMap_cons] at hle
          simp only [if_true, List.length_append, List.length_singleton] at hle
          change 0 < (List.flatMap _ _).length at hpos
          omega
        simp [settingEntry, hkey, Outline.add, ho, Outline.addGlobal, if_neg hnew]
    have honce' : SetOnce ((o.globals ++ [(key, value)]) ++ gs) := by
      rwa [List.append_assoc, List.singleton_append]
    rw [List.map_cons, Run.exec_cons, hadd, Option.bind_some,
      ih (o := { o with globals := o.globals ++ [(key, value)] }) ho
        (fun v hv => hflag v (by simp [hv])) honce']
    simp

/-- The entries of a block make the block. -/
lemma blockOf_entries (b : Block) : blockOf b.entries = some b := by
  obtain ⟨network, resolvesTo, upstream⟩ := b
  cases resolvesTo with
  | none =>
    cases upstream with
    | none => rfl
    | some u => rfl
  | some r =>
    cases upstream with
    | none => rfl
    | some u => rfl

/-- What is in a block. -/
lemma mem_entries {b : Block} {e : Entry} : e ∈ b.entries ↔ e = .network b.network ∨
    (∃ v ∈ b.resolvesTo, e = .resolvesTo v) ∨ ∃ v ∈ b.upstream, e = .upstream v := by
  simp [Block.entries, eq_comm]

/-- The entries of a block are one section. -/
lemma isSection_entries (b : Block) : Sections.IsSection Entry.isNetwork b.entries := by
  refine ⟨_, _, rfl, rfl, fun e he => ?_⟩
  rw [List.mem_append, Option.mem_toList, Option.mem_toList, Option.map_eq_some_iff,
    Option.map_eq_some_iff] at he
  obtain ⟨v, -, rfl⟩ | ⟨v, -, rfl⟩ := he
  · rfl
  · rfl

/-- **An outline is read back from its text.** -/
theorem outline_print {o : Outline} (h : o.Sayable) : outline (fileLines o.print) = some o := by
  have hread : (o.entries.map Entry.line).map readLine = o.entries := by
    rw [List.map_map]
    exact (List.map_congr_left fun e he => readLine_line (h.entries e he)).trans (List.map_id _)
  have hblocks : Run.exec Outline.add { o with blocks := [] } (o.blocks.flatMap Block.entries) =
      some o := by
    rw [List.flatMap_def]
    refine (exec_sections fun s hs => ?_).mpr ⟨o.blocks, ?_, ?_⟩
    · obtain ⟨b, -, rfl⟩ := List.mem_map.mp hs
      exact isSection_entries b
    · rw [List.forall₂_map_left_iff, List.forall₂_same]
      exact fun b _ => blockOf_entries b
    · have hnone : (o.blocks.flatMap Block.entries).flatMap Entry.listens = [] := by
        rw [List.flatMap_eq_nil_iff]
        intro e he
        obtain ⟨b, -, he⟩ := List.mem_flatMap.mp he
        obtain rfl | ⟨v, -, rfl⟩ | ⟨v, -, rfl⟩ := mem_entries.mp he
        · rfl
        · rfl
        · rfl
      rw [← List.flatMap_def, hnone]
      simp
  rw [outline, fileLines_print h, hread, Outline.entries, Run.exec_append, exec_listens _ rfl,
    Option.bind_some, Run.exec_append, exec_settings _ rfl h.flag (by simpa using h.setOnce),
    Option.bind_some]
  simpa using hblocks

/-- A line has no line end in it. -/
lemma notMem_of_mem_fileLines {input raw : Bytes} (h : raw ∈ fileLines input) : 10 ∉ raw := by
  obtain ⟨l, hl, rfl⟩ := List.mem_map.mp h
  have hlf := notMem_of_mem_lines input l hl
  intro hmem
  rcases stripOne_cases '\r'.toUInt8 l with hl' | hl'
  · exact hlf (hl' ▸ hmem)
  · exact hlf (hl' ▸ List.mem_append_left _ hmem)

/-- A value of the lines is a value of one of them. -/
lemma mem_valuesOf {α : Type} {kind : Entry → List α} {ls : List Bytes} {v : α} :
    v ∈ valuesOf kind ls ↔ ∃ raw ∈ ls, v ∈ kind (readLine raw) := List.mem_flatMap

/-- The values of an entry that belong to a target; a setting is kept with its key instead. -/
def Target.valuesIn (t : Target) (e : Entry) : List Bytes :=
  match t with
  | .listen => e.listens
  | .network => e.networks
  | .resolvesTo => e.resolvesTos
  | .upstream => e.upstreams
  | .global _ => []

/-- An entry with a value for a target is the entry of that target and value. -/
lemma eq_entry_of_mem {t : Target} {e : Entry} {v : Bytes} (h : v ∈ t.valuesIn e) :
    e = t.entry v := by
  cases t with
  | listen => cases e <;> simp_all [Target.valuesIn, Target.entry, Entry.listens]
  | network => cases e <;> simp_all [Target.valuesIn, Target.entry, Entry.networks]
  | resolvesTo => cases e <;> simp_all [Target.valuesIn, Target.entry, Entry.resolvesTos]
  | upstream => cases e <;> simp_all [Target.valuesIn, Target.entry, Entry.upstreams]
  | global key => cases h

/-- A value that lines which can be written have for a target makes an entry that can be written. -/
lemma sayable_of_mem_valuesOf {ls : List Bytes} (hls : ∀ raw ∈ ls, (readLine raw).Sayable)
    (t : Target) {v : Bytes} (hv : v ∈ valuesOf t.valuesIn ls) : (t.entry v).Sayable := by
  obtain ⟨raw, hraw, hmem⟩ := mem_valuesOf.mp hv
  rw [← eq_entry_of_mem hmem]
  exact hls raw hraw

/-- A setting comes from a flag, or from a directive with its key. -/
lemma sayable_of_mem_settings {e : Entry} (he : e.Sayable) {p : GlobalKey × Bytes}
    (hp : p ∈ e.settings) : (settingEntry p).Sayable ∧ (p.1 = .rrlOff → p.2 = []) := by
  cases e with
  | flag key =>
    obtain rfl := List.mem_singleton.mp hp
    obtain rfl : key = .rrlOff := he
    exact ⟨rfl, fun _ => rfl⟩
  | setting key value =>
    obtain rfl := List.mem_singleton.mp hp
    rw [settingEntry, if_neg he.1]
    exact ⟨he, fun hkey => absurd hkey he.1⟩
  | _ => simp [Entry.settings] at hp

/-- The lines of a block make a block that can be written. -/
lemma sayable_of_sectionSays {ls : List Bytes} {b : Block} (h : SectionSays ls b)
    (hls : ∀ raw ∈ ls, (readLine raw).Sayable) : ∀ e ∈ b.entries, e.Sayable := by
  intro e he
  obtain rfl | ⟨v, hv, rfl⟩ | ⟨v, hv, rfl⟩ := mem_entries.mp he
  · exact sayable_of_mem_valuesOf hls .network (h.network ▸ List.mem_singleton_self _)
  · exact sayable_of_mem_valuesOf hls .resolvesTo (h.resolvesTo ▸ Option.mem_toList.mpr hv)
  · exact sayable_of_mem_valuesOf hls .upstream (h.upstream ▸ Option.mem_toList.mpr hv)

/-- **The outline of a file can be written.** -/
theorem sayable_of_outline {input : Bytes} {o : Outline} (h : outline (fileLines input) = some o) :
    o.Sayable := by
  have hcollects := collects_of_outline h
  have hsay : ∀ raw ∈ fileLines input, (readLine raw).Sayable := fun raw hraw =>
    sayable_readLine (notMem_of_mem_fileLines hraw) (hcollects.recognised raw hraw)
  have hsetting : ∀ p ∈ o.globals, (settingEntry p).Sayable ∧ (p.1 = .rrlOff → p.2 = []) := by
    intro p hp
    rw [hcollects.globals] at hp
    obtain ⟨raw, hraw, hp⟩ := mem_valuesOf.mp hp
    exact sayable_of_mem_settings (hsay raw hraw) hp
  have hblock : ∀ b ∈ o.blocks, ∀ e ∈ b.entries, e.Sayable := by
    intro b hb
    obtain ⟨ls, hls, hsays⟩ := exists_of_forall₂_right hcollects.blocks hb
    refine sayable_of_sectionSays hsays fun raw hraw => hsay raw ?_
    rw [← Sections.preamble_append_flatten isNetworkLine (fileLines input)]
    exact List.mem_append_right _ (List.mem_flatten_of_mem hls hraw)
  refine ⟨fun e he => ?_, fun value hv => (hsetting _ hv).2 rfl, ?_⟩
  · rw [Outline.entries, List.mem_append, List.mem_append, List.mem_map, List.mem_map,
      List.mem_flatMap] at he
    obtain ⟨v, hv, rfl⟩ | ⟨p, hp, rfl⟩ | ⟨b, hb, he⟩ := he
    · exact sayable_of_mem_valuesOf hsay .listen (hcollects.listen ▸ hv)
    · exact (hsetting p hp).1
    · exact hblock b hb e he
  · obtain ⟨-, hcfg⟩ := parse_outline.mpr h
    have honce := (parse_keeps input).2
    rw [← hcfg]
    exact honce

/-- **A file without errors, written out.** Its text says what the file says: the parser takes it
without an error and collects the same outline, and it is accepted iff the file is, with the same
configuration but for the lines its zones were read from. -/
theorem parse_print {input : Bytes} (h : (parse input).errors = []) :
    (parse (parse input).cfg.outline.print).errors = [] ∧
    (parse (parse input).cfg.outline.print).cfg.outline = (parse input).cfg.outline ∧
    ∀ hk,
      (∀ c, Config.parse hk input = .ok c →
        ∃ c', Config.parse hk (parse input).cfg.outline.print = .ok c' ∧
          c'.sansLines = c.sansLines) ∧
      ∀ c', Config.parse hk (parse input).cfg.outline.print = .ok c' →
        ∃ c, Config.parse hk input = .ok c ∧ c'.sansLines = c.sansLines := by
  have houtline := parse_outline.mp ⟨h, rfl⟩
  have hprint := outline_print (sayable_of_outline houtline)
  obtain ⟨herr, hcfg⟩ := parse_outline.mpr hprint
  refine ⟨herr, hcfg, fun hk => ⟨fun c hc => ?_, fun c' hc' => ?_⟩⟩
  · exact parse_of_outline_eq (hprint.trans houtline.symm) hc
  · obtain ⟨c, hc, hsans⟩ := parse_of_outline_eq (houtline.trans hprint.symm) hc'
    exact ⟨c, hc, hsans.symm⟩

/-- A file of which every line has something to lose, in layout or in order. -/
def untidyInput : Bytes := ofString "  TTL\t60   # seconds
RRL   Off\r
# authority
network 2001:DB8::/32
\tWith upstream  ::1
listen [::]:5353
  resolves   TO v6-%DIGITS%.Example"

/-- An untidy file, written out: settings first, blocks after them, white space gone. -/
theorem parse_print_untidyInput :
    (parse untidyInput).cfg.outline.print = ofString "listen [::]:5353
ttl 60   # seconds
rrl off
network 2001:db8::/32
resolves to v6-%DIGITS%.Example
with upstream ::1
" ∧ (parse (parse untidyInput).cfg.outline.print).cfg.outline = (parse untidyInput).cfg.outline :=
  ⟨by decide +kernel, (parse_print (by decide +kernel)).2.1⟩

end PanoptiDns
