import PanoptiDns.Lib.Lines
import PanoptiDns.Config.Keywords
import PanoptiDns.Config.Template

set_option relaxedAutoImplicit false
set_option autoImplicit false

/-!
# Where values and errors come from

Every value the parser keeps is that of a recognised line and lies in it, and every error is of a
line that was not recognised, or points at a value.

## Main definitions

* `RawZone.values`, `RawConfig.values` — the values of a file.
* `Sources` — what the parser has collected comes from the lines.
* `LiesIn` — how the value of a directive lies in its line.

## Main results

* `parse_sources` — values and errors come from the lines.
* `scanLine_directive`, `scanLine_flag_value`, `scanLine_bad` — where the value of a line lies, or
  its error.
-/

namespace PanoptiDns

open Bytes

/-- The values of a block. -/
def RawZone.values (z : RawZone) : List RawValue :=
  z.network :: (z.resolvesTo.toList ++ z.upstream.toList)

/-- The values of a file; a flag's is empty. -/
def RawConfig.values (raw : RawConfig) : List RawValue :=
  raw.listen ++ (raw.globals.map RawGlobal.value ++ raw.zones.flatMap RawZone.values)

/-- The value of a recognised line. -/
def Scanned.value? : Scanned → Option RawValue
  | .flag _ v => some v
  | .directive _ v => some v
  | _ => none

/-- An error about where a line stands. -/
def ConfigErrorKind.IsPlacement : ConfigErrorKind → Prop
  | .globalAfterNetwork _ | .directiveBeforeNetwork _ | .duplicateDirective .. => True
  | _ => False

/-- An error about the prefix length of a network, taken by itself. -/
def ConfigErrorKind.IsPrefixLen : ConfigErrorKind → Prop
  | .networkPrefixLenNotANumber | .networkPrefixLenOutOfRange _ | .networkPrefixNotNibbleAligned _
  | .networkPrefixTooShort _ => True
  | _ => False

/-- An error about a part of a network. -/
def ConfigErrorKind.IsNetworkPart (k : ConfigErrorKind) : Prop :=
  k = .networkInvalidAddress ∨ k.IsPrefixLen

/-- A misplaced line is not an error about a part of a network. -/
lemma ConfigErrorKind.IsPlacement.not_isNetworkPart {k : ConfigErrorKind} (h : k.IsPlacement) :
    ¬k.IsNetworkPart := by
  cases k <;> simp_all [IsPlacement, IsNetworkPart, IsPrefixLen]

/-- Nor is it one about the encoding. -/
lemma ConfigErrorKind.IsPlacement.ne_notUtf8 {k : ConfigErrorKind} (h : k.IsPlacement) :
    k ≠ .notUtf8 := by
  rintro rfl
  exact h

/-- **What was collected comes from the lines**: values in blocks and of `listen` from directives,
other values from flags or directives, and errors from bad lines or from where a line stands. -/
structure Sources (xs : List Scanned) (s : ParseState) : Prop where
  listen : ∀ v ∈ s.cfg.listen, ∃ d, Scanned.directive d v ∈ xs
  zones : ∀ v ∈ s.cfg.zones.flatMap RawZone.values, ∃ d, Scanned.directive d v ∈ xs
  globals : ∀ g ∈ s.cfg.globals, ∃ x ∈ xs, x.value? = some g.value
  errors : ∀ e ∈ s.errors, Scanned.bad e ∈ xs ∨
    ∃ x ∈ xs, ∃ v k, x.value? = some v ∧ k.IsPlacement ∧ e = v.error k

section Place

variable {xs : List Scanned} {s : ParseState}

/-- What came from some lines comes from more. -/
lemma Sources.mono (h : Sources xs s) (x : Scanned) : Sources (xs ++ [x]) s where
  listen v hv := (h.listen v hv).imp fun _ hd => List.mem_append_left _ hd
  zones v hv := (h.zones v hv).imp fun _ hd => List.mem_append_left _ hd
  globals g hg := (h.globals g hg).imp fun _ hx => ⟨List.mem_append_left _ hx.1, hx.2⟩
  errors e he := (h.errors e he).imp (List.mem_append_left _) fun ⟨y, hy, hrest⟩ =>
    ⟨y, List.mem_append_left _ hy, hrest⟩

/-- An error about where the last line stands. -/
lemma Sources.push (h : Sources xs s) {x : Scanned} {v : RawValue} {k : ConfigErrorKind}
    (hx : x.value? = some v) (hk : k.IsPlacement) : Sources (xs ++ [x]) (s.push (v.error k)) where
  listen := (h.mono x).listen
  zones := (h.mono x).zones
  globals := (h.mono x).globals
  errors e he := by
    rcases List.mem_append.mp he with he | he
    · exact (h.mono x).errors e he
    · obtain rfl := List.mem_singleton.mp he
      exact .inr ⟨x, by simp, v, k, hx, hk, rfl⟩

/-- Blocks that are the old ones but for values of the last line. -/
lemma Sources.withZones (h : Sources xs s) {d : Directive} {v : RawValue} {zones : List RawZone}
    (hzones : ∀ w ∈ zones.flatMap RawZone.values,
      w = v ∨ w ∈ s.cfg.zones.flatMap RawZone.values) :
    Sources (xs ++ [.directive d v]) { s with cfg.zones := zones } where
  listen := (h.mono _).listen
  zones w hw := by
    rcases hzones w hw with rfl | hw
    · exact ⟨d, by simp⟩
    · exact (h.mono _).zones w hw
  globals := (h.mono _).globals
  errors := (h.mono _).errors

/-- The last line sets something. -/
lemma Sources.withGlobal (h : Sources xs s) {x : Scanned} {g : RawGlobal}
    (hx : x.value? = some g.value) :
    Sources (xs ++ [x]) { s with cfg.globals := s.cfg.globals ++ [g] } where
  listen := (h.mono x).listen
  zones := (h.mono x).zones
  globals g' hg' := by
    rcases List.mem_append.mp hg' with hg' | hg'
    · exact (h.mono x).globals g' hg'
    · obtain rfl := List.mem_singleton.mp hg'
      exact ⟨x, by simp, hx⟩
  errors := (h.mono x).errors

/-- A value put into the last block. -/
lemma values_of_last {zones : List RawZone} {z z' : RawZone} {v : RawValue}
    (hlast : zones.getLast? = some z) (hz : ∀ w ∈ z'.values, w = v ∨ w ∈ z.values) :
    ∀ w ∈ (zones.dropLast ++ [z']).flatMap RawZone.values,
      w = v ∨ w ∈ zones.flatMap RawZone.values := by
  have hzones := List.dropLast_append_getLast? z hlast
  intro w hw
  rw [← hzones]
  simp only [List.flatMap_append, List.mem_append, List.flatMap_cons, List.flatMap_nil,
    List.append_nil] at hw ⊢
  rcases hw with hw | hw
  · exact .inr (.inl hw)
  · exact (hz w hw).imp id .inr

/-- Filing a directive keeps the values traced to their lines. -/
lemma file_sources (h : Sources xs s) (d : Directive) (v : RawValue) :
    Sources (xs ++ [.directive d v]) (file d v s) := by
  unfold file
  cases d.target with
  | listen =>
    exact { (h.mono _) with
      listen := fun w hw => by
        rcases List.mem_append.mp hw with hw | hw
        · exact (h.mono _).listen w hw
        · obtain rfl := List.mem_singleton.mp hw
          exact ⟨d, by simp⟩ }
  | network =>
    refine h.withZones fun w hw => ?_
    simp only [List.flatMap_append, List.mem_append, List.flatMap_singleton] at hw
    rcases hw with hw | hw
    · exact .inr hw
    · exact .inl (by simpa [RawZone.values] using hw)
  | resolvesTo =>
    simp only
    cases hlast : s.cfg.zones.getLast? with
    | none => exact h.mono _
    | some zone =>
      simp only
      cases hslot : zone.resolvesTo with
      | some first => exact h.push rfl trivial
      | none =>
        refine h.withZones (values_of_last hlast fun w hw => ?_)
        simp only [RawZone.values, Option.toList_some, List.mem_cons, List.mem_append,
          List.not_mem_nil, or_false] at hw ⊢
        tauto
  | upstream =>
    simp only
    cases hlast : s.cfg.zones.getLast? with
    | none => exact h.mono _
    | some zone =>
      simp only
      cases hslot : zone.upstream with
      | some first => exact h.push rfl trivial
      | none =>
        refine h.withZones (values_of_last hlast fun w hw => ?_)
        simp only [RawZone.values, Option.toList_some, List.mem_cons, List.mem_append,
          List.not_mem_nil, or_false] at hw ⊢
        tauto
  | global key =>
    simp only
    split
    · exact h.push rfl trivial
    · exact h.withGlobal rfl

/-- **One line**: what it adds comes from it. -/
lemma place_sources (h : Sources xs s) (x : Scanned) : Sources (xs ++ [x]) (place s x) := by
  cases x with
  | blank => exact h.mono _
  | bad e =>
    exact { (h.mono _) with
      errors := fun e' he => by
        rcases List.mem_append.mp he with he | he
        · exact (h.mono _).errors e' he
        · obtain rfl := List.mem_singleton.mp he
          exact .inl (by simp) }
  | flag f v =>
    rw [place]
    split
    · exact h.push rfl trivial
    · exact h.withGlobal rfl
  | directive d v =>
    simp only [place]
    split
    · exact h.push rfl trivial
    · exact h.push rfl trivial
    · exact file_sources h d v

end Place

/-- **Values and errors come from the lines.** -/
theorem parse_sources (input : Bytes) : Sources (scannedLines input) (parse input) := by
  have hloop : ∀ xs : List Scanned, Sources xs (xs.foldl place {}) := by
    intro xs
    induction xs using List.reverseRecOn with
    | nil => exact ⟨by simp, by simp, by simp, by simp⟩
    | append_singleton xs x ih =>
      rw [List.foldl_append]
      exact place_sources ih x
  rw [parse_eq_foldl]
  exact hloop _

/-! ### In the line -/

/-- **A value lies in its line**: what is underlined is the value but for its case, and cuts no
character. -/
structure LiesIn (raw : Bytes) (v : RawValue) : Prop where
  rawLine : v.rawLine = raw
  slice : ∃ before value after, raw = before ++ (value ++ after) ∧
    v.span = (before.length, before.length + value.length) ∧ lower v.value = lower value
  isUtf8_value : isUtf8 v.value = true

/-- The lines of a valid text are valid. -/
lemma isUtf8_of_mem_fileLines {input raw : Bytes} (h : isUtf8 input = true)
    (hraw : raw ∈ fileLines input) : isUtf8 raw = true := by
  obtain ⟨line, hline, rfl⟩ := List.mem_map.mp hraw
  exact isUtf8_stripOne (by decide) (isUtf8_of_mem_lines h line hline)

/-- The line of a directive, from the indentation to the end. -/
lemma exists_of_matchDirective {raw : Bytes} {d : Directive} {offset : ℕ} {value : Bytes}
    (h : matchDirective (trimStart raw) = some (d, offset, value)) :
    d ∈ directives ∧ ∃ before trail, raw = before ++ (value ++ trail) ∧
      before.length = raw.length - (trimStart raw).length + offset ∧
      (isUtf8 raw = true → isUtf8 value = true) := by
  obtain ⟨d', hd, hmap⟩ := List.exists_of_findSome?_eq_some h
  obtain ⟨⟨offset', value'⟩, hstrip, heq⟩ := Option.map_eq_some_iff.mp hmap
  simp only [Prod.mk.injEq] at heq
  obtain ⟨rfl, rfl, rfl⟩ := heq
  have hsolid := isSolid_of_mem_keywords (mem_keywords_directive.mpr hd)
  obtain ⟨spelled, gap, trail, hline, -, hgap, -, hws, rfl⟩ :=
    (stripKeyword_eq_some_iff hsolid).mp hstrip
  obtain ⟨indent, hindent, -, -⟩ := exists_trimStart raw
  have hlen : raw.length = indent.length + (trimStart raw).length := by
    conv_lhs => rw [hindent, List.length_append]
  have hraw : raw = (indent ++ (spelled ++ gap)) ++ (value' ++ trail) := by
    rw [hline] at hindent
    simpa using hindent
  refine ⟨hd, indent ++ (spelled ++ gap), trail, hraw, ?_, fun hutf8 => ?_⟩
  · rw [List.length_append]
    omega
  · -- the value stands after whitespace, which is ASCII
    obtain ⟨gap', b, rfl⟩ := List.eq_nil_or_concat gap |>.resolve_left hgap.nonempty
    have hb : isWhitespace b = true := hgap.whitespace b (by simp)
    have hcut : raw = (indent ++ (spelled ++ gap')) ++ b :: (value' ++ trail) := by
      rw [hraw]
      simp
    rw [hcut] at hutf8
    exact isUtf8_of_trail hws (isUtf8_append_cons (isWhitespace_ascii hb) hutf8).2

/-- **The value of a directive** lies in its line. -/
lemma scanLine_directive {n : ℕ} {raw : Bytes} {d : Directive} {v : RawValue}
    (h : scanLine n raw = .directive d v) : v.line = n ∧ LiesIn raw v := by
  unfold scanLine at h
  simp only at h
  split at h
  · cases h
  split at h
  · cases h
  split at h
  · cases h
  rename_i d' offset value hmatch
  split at h
  · cases h
  rename_i hutf8
  obtain ⟨rfl, rfl⟩ := Scanned.directive.inj h
  obtain ⟨-, before, trail, hraw, hbefore, -⟩ := exists_of_matchDirective hmatch
  have hvalue : isUtf8 value = true := by simpa using hutf8
  refine ⟨rfl, rfl, ⟨before, value, trail, hraw, ?_, ?_⟩, ?_⟩
  · simp only [hbefore]
    split
    · rw [length_lower]
    · rfl
  · simp only
    split
    · rw [lower_lower]
    · rfl
  · simp only
    split
    · rw [isUtf8_lower, hvalue]
    · exact hvalue

/-- The span of a flag is the line less its indentation. -/
lemma scanLine_flag_value {n : ℕ} {raw : Bytes} {f : Flag} {v : RawValue}
    (h : scanLine n raw = .flag f v) :
    v.line = n ∧ v.rawLine = raw ∧ v.span.1 ≤ v.span.2 ∧ v.span.2 = raw.length := by
  unfold scanLine at h
  simp only at h
  split at h
  · cases h
  split at h
  · obtain ⟨rfl, rfl⟩ := Scanned.flag.inj h
    exact ⟨rfl, rfl, Nat.sub_le _ _, rfl⟩
  split at h
  · cases h
  split at h
  · cases h
  · cases h

/-- **A line that is not recognised** is reported with a part of it underlined. The encoding is the
reason only where the line is not UTF-8, and the reason is never in a network. -/
lemma scanLine_bad {n : ℕ} {raw : Bytes} {e : ConfigError} (h : scanLine n raw = .bad e) :
    e.line = n ∧ e.snippet = raw ∧
      (∃ start stop, e.span = some (start, stop) ∧ start ≤ stop ∧ stop ≤ raw.length) ∧
      ¬e.kind.IsNetworkPart ∧ (isUtf8 raw = true → e.kind ≠ .notUtf8) := by
  unfold scanLine at h
  simp only at h
  split at h
  · cases h
  rename_i hblank
  split at h
  · cases h
  split at h
  · -- an unknown keyword, or one without its value
    obtain rfl := Scanned.bad.inj h
    have hbody : 0 < (trimStart raw).length := by
      apply List.length_pos_iff.mpr
      rintro hnil
      simp [hnil] at hblank
    have hword : ((trimStart raw).takeWhile (!isWhitespace ·)).length ≤ (trimStart raw).length :=
      (List.takeWhile_prefix _).length_le
    have hle : (trimStart raw).length ≤ raw.length := (List.dropWhile_suffix _).length_le
    refine ⟨rfl, rfl, ⟨_, _, rfl, Nat.le_add_right _ _, by omega⟩, ?_, fun _ => ?_⟩
    · unfold unmatchedLineError
      simp only
      split <;> simp [ConfigErrorKind.IsNetworkPart, ConfigErrorKind.IsPrefixLen]
    · unfold unmatchedLineError
      simp only
      split <;> simp
  · rename_i d offset value hmatch
    split at h
    · -- the bytes of the value
      rename_i hutf8
      obtain rfl := Scanned.bad.inj h
      obtain ⟨-, before, trail, hraw, hbefore, hvalue⟩ := exists_of_matchDirective hmatch
      have hle : before.length ≤ raw.length := by
        conv_rhs => rw [hraw, List.length_append]
        exact Nat.le_add_right _ _
      refine ⟨rfl, rfl, ⟨_, _, rfl, by omega, le_refl _⟩, ?_, fun hall => ?_⟩
      · simp [ConfigErrorKind.IsNetworkPart, ConfigErrorKind.IsPrefixLen]
      · simp [hvalue hall] at hutf8
    · cases h

end PanoptiDns
