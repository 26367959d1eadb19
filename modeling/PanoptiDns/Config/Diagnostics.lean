import PanoptiDns.Config.Unreachable

set_option relaxedAutoImplicit false
set_option autoImplicit false

/-!
# Diagnostics point at the offending text

An error names a line of the file, quotes it, and underlines a part of it. The offsets are added up
along the line: indentation, keyword, whitespace, value, and in a network the part before the slash
or the part after.

## Main definitions

* `underlined` — the bytes of a line in a span.
* `StandsIn` — a number, a quotation and a span fit a file.
* `Underlines` — an error underlines a part of a value.

## Main results

* `value_standsIn` — every value of a file fits it.
* `diagnostics_point` — so does every error, and in a network it underlines the part it is about.
-/

namespace PanoptiDns

open Bytes

/-- The bytes of a line in a span. -/
def underlined (line : Bytes) (span : ℕ × ℕ) : Bytes := (line.take span.2).drop span.1

/-- What stands between two parts of a line is what a span of its length underlines. -/
lemma underlined_append {before value after : Bytes} :
    underlined (before ++ (value ++ after)) (before.length, before.length + value.length) =
      value := by
  rw [underlined, ← List.append_assoc, ← List.length_append, List.take_left', List.drop_left']
  · rfl
  · rfl

/-- **A number, a quotation and a span fit the file**: the number is that of a line, the quotation
is the line less at most one carriage return, and the span lies in the quotation. -/
structure StandsIn (input : Bytes) (n : ℕ) (text : Bytes) (span : ℕ × ℕ) : Prop where
  line_pos : 1 ≤ n
  line_le : n ≤ (lines input).length
  text_eq : (lines input)[n - 1]?.map (stripOne '\r'.toUInt8) = some text
  start_le : span.1 ≤ span.2
  stop_le : span.2 ≤ text.length

/-- **An error underlines a part of a value**: the part that comes after `before` in it. -/
structure Underlines (e : ConfigError) (v : RawValue) (before part : Bytes) : Prop where
  line : e.line = v.line
  snippet : e.snippet = v.rawLine
  span : e.span = some (v.span.1 + before.length, v.span.1 + before.length + part.length)
  text : lower (underlined e.snippet
    (v.span.1 + before.length, v.span.1 + before.length + part.length)) = lower part

section Lines

variable {input : Bytes} (hlines : (lines input).length < 2 ^ 32)

include hlines

/-- The number and the text of a line fit the file, with any span in it. -/
lemma standsIn_of_mem {p : Bytes × ℕ} (hp : p ∈ (fileLines input).zipIdx) {span : ℕ × ℕ}
    (hle : span.1 ≤ span.2) (hlen : span.2 ≤ p.1.length) :
    StandsIn input (lineNo p.2) p.1 span := by
  have hget : (fileLines input)[p.2]? = some p.1 := List.mem_zipIdx_iff_getElem?.mp hp
  rw [fileLines, List.getElem?_map] at hget
  obtain ⟨line, hline, -⟩ := Option.map_eq_some_iff.mp hget
  obtain ⟨hlt, -⟩ := List.getElem?_eq_some_iff.mp hline
  have hno : lineNo p.2 = p.2 + 1 := by
    unfold lineNo
    omega
  refine ⟨by omega, by omega, ?_, hle, hlen⟩
  rw [hno, Nat.add_sub_cancel]
  exact hget

/-- The value of a line fits the file. -/
lemma standsIn_of_value {x : Scanned} (hx : x ∈ scannedLines input) {v : RawValue}
    (hv : x.value? = some v) : StandsIn input v.line v.rawLine v.span := by
  obtain ⟨p, hp, hline⟩ := List.mem_map.mp hx
  cases x with
  | blank => cases hv
  | bad e => cases hv
  | flag f w =>
    obtain rfl := Option.some.inj hv
    obtain ⟨hno, hraw, hle, hstop⟩ := scanLine_flag_value hline
    rw [hno, hraw]
    exact standsIn_of_mem hlines hp hle hstop.le
  | directive d w =>
    obtain rfl := Option.some.inj hv
    obtain ⟨hno, hlies⟩ := scanLine_directive hline
    obtain ⟨before, value, after, hslice, hspan, -⟩ := hlies.slice
    rw [hno, hlies.rawLine]
    refine standsIn_of_mem hlines hp (by simp [hspan]) ?_
    rw [hspan, hslice]
    simp

/-- **Every value of a file** fits it. -/
lemma value_standsIn {v : RawValue} (hv : v ∈ (parse input).cfg.values) :
    StandsIn input v.line v.rawLine v.span := by
  have hsources := parse_sources input
  simp only [RawConfig.values, List.mem_append] at hv
  rcases hv with hv | hv | hv
  · obtain ⟨d, hd⟩ := hsources.listen v hv
    exact standsIn_of_value hlines hd rfl
  · obtain ⟨g, hg, rfl⟩ := List.mem_map.mp hv
    obtain ⟨x, hx, hvalue⟩ := hsources.globals g hg
    exact standsIn_of_value hlines hx hvalue
  · obtain ⟨d, hd⟩ := hsources.zones v hv
    exact standsIn_of_value hlines hd rfl

end Lines

/-! ### Parts of a value -/

/-- The value of a directive is what its span underlines, but for its case. -/
lemma LiesIn.lower_underlined {raw : Bytes} {v : RawValue} (h : LiesIn raw v) :
    lower v.value = lower (underlined v.rawLine v.span) := by
  obtain ⟨before, value, after, hraw, hspan, hlower⟩ := h.slice
  rw [hlower, h.rawLine, hspan, hraw, underlined_append]

/-- **An error about a part of a value** underlines that part. -/
lemma LiesIn.underlines {raw : Bytes} {v : RawValue} (h : LiesIn raw v) {before part after : Bytes}
    (hvalue : v.value = before ++ (part ++ after)) (k : ConfigErrorKind) :
    Underlines (v.errorAt before.length part.length k) v before part := by
  obtain ⟨front, value, back, hraw, hspan, hlower⟩ := h.slice
  rw [hvalue, lower_append, lower_append, eq_comm, lower, List.map_eq_append_iff] at hlower
  obtain ⟨value₁, rest, rfl, hvalue₁, hrest⟩ := hlower
  obtain ⟨value₂, value₃, rfl, hvalue₂, -⟩ := List.map_eq_append_iff.mp hrest
  have hlen₁ : value₁.length = before.length := length_eq_of_lower_eq hvalue₁
  have hlen₂ : value₂.length = part.length := length_eq_of_lower_eq hvalue₂
  refine ⟨rfl, rfl, ?_, ?_⟩
  · -- the clamps of the offsets do nothing
    simp only [RawValue.errorAt, hspan, List.length_append, hlen₁, hlen₂, Option.some.injEq,
      Prod.mk.injEq]
    omega
  · have hcut : raw = (front ++ value₁) ++ (value₂ ++ (value₃ ++ back)) := by
      rw [hraw]
      simp
    have hoffset : v.span.1 + before.length = (front ++ value₁).length := by
      simp only [hspan, List.length_append, hlen₁]
    have hsnippet : (v.errorAt before.length part.length k).snippet = raw := h.rawLine
    rw [hsnippet, hoffset, ← hlen₂, hcut, underlined_append]
    exact hvalue₂

/-- An error about a whole value is not about a part of a network. -/
lemma ConfigErrorKind.IsWhole.not_isNetworkPart {k : ConfigErrorKind} (h : k.IsWhole) :
    ¬k.IsNetworkPart := by
  cases k <;> simp_all [IsWhole, IsNetworkPart, IsPrefixLen]

/-- The network of a block lies in a line. -/
lemma exists_liesIn {input : Bytes} {v : RawValue}
    (hv : v ∈ (parse input).cfg.zones.map RawZone.network) :
    v ∈ (parse input).cfg.values ∧ ∃ raw, LiesIn raw v := by
  obtain ⟨z, hz, rfl⟩ := List.mem_map.mp hv
  have hmem : z.network ∈ (parse input).cfg.zones.flatMap RawZone.values :=
    List.mem_flatMap.mpr ⟨z, hz, List.mem_cons_self⟩
  refine ⟨List.mem_append_right _ (List.mem_append_right _ hmem), ?_⟩
  obtain ⟨d, hd⟩ := (parse_sources input).zones _ hmem
  obtain ⟨p, -, hline⟩ := List.mem_map.mp hd
  exact ⟨p.1, (scanLine_directive hline).2⟩

/-- **What an error points at**: it fits the file; if it is about a part of a network, then it
underlines that part. -/
structure Points (input : Bytes) (e : ConfigError) : Prop where
  standsIn : ∃ span, e.span = some span ∧ StandsIn input e.line e.snippet span
  address : e.kind = .networkInvalidAddress → ∃ z ∈ (parse input).cfg.zones, ∃ addr mask,
    z.network.value = addr ++ '/'.toUInt8 :: mask ∧ '/'.toUInt8 ∉ addr ∧
    Underlines e z.network [] addr
  prefixLen : e.kind.IsPrefixLen → ∃ z ∈ (parse input).cfg.zones, ∃ addr mask,
    z.network.value = addr ++ '/'.toUInt8 :: mask ∧ '/'.toUInt8 ∉ addr ∧
    Underlines e z.network (addr ++ ['/'.toUInt8]) mask

section Errors

variable {input : Bytes} (hlines : (lines input).length < 2 ^ 32)

/-- An error that is not about a part of a network points if its span stands in the text. -/
lemma Points.of_not_isNetworkPart {e : ConfigError} (hkind : ¬e.kind.IsNetworkPart)
    (h : ∃ span, e.span = some span ∧ StandsIn input e.line e.snippet span) : Points input e where
  standsIn := h
  address hk := absurd (.inl hk) hkind
  prefixLen hk := absurd (.inr hk) hkind

include hlines

/-- An error that underlines a part of a value fits the file. -/
lemma Underlines.standsIn {v : RawValue} (hv : v ∈ (parse input).cfg.values) {e : ConfigError}
    {before part after : Bytes} (h : Underlines e v before part)
    (hvalue : v.value = before ++ (part ++ after)) {raw : Bytes} (hlies : LiesIn raw v) :
    ∃ span, e.span = some span ∧ StandsIn input e.line e.snippet span := by
  have hstands := value_standsIn hlines hv
  obtain ⟨front, value, back, -, hspan, hlower⟩ := hlies.slice
  have hlen : v.value.length = value.length := length_eq_of_lower_eq hlower
  have hstop := hstands.stop_le
  rw [hvalue, List.length_append, List.length_append] at hlen
  rw [hspan] at hstop
  refine ⟨_, h.span, ?_⟩
  rw [h.line, h.snippet, hspan]
  refine ⟨hstands.line_pos, hstands.line_le, hstands.text_eq, ?_, ?_⟩
  · exact Nat.le_add_right _ _
  · simp only
    omega

/-- **The parser's errors** point at their lines. -/
lemma points_of_parse {e : ConfigError} (he : e ∈ (parse input).errors) : Points input e := by
  rcases (parse_sources input).errors e he with hbad | ⟨x, hx, v, k, hv, hk, rfl⟩
  · obtain ⟨p, hp, hline⟩ := List.mem_map.mp hbad
    obtain ⟨hno, hsnippet, ⟨start, stop, hspan, hle, hstop⟩, hkind, -⟩ := scanLine_bad hline
    refine .of_not_isNetworkPart hkind ⟨(start, stop), hspan, ?_⟩
    rw [hno, hsnippet]
    exact standsIn_of_mem hlines hp hle hstop
  · exact .of_not_isNetworkPart hk.not_isNetworkPart ⟨v.span, rfl, standsIn_of_value hlines hx hv⟩

/-- **The validator's errors** point at values and parts of networks. -/
lemma points_of_compile {hk : Hickory} {e : ConfigError}
    (he : e ∈ (compile hk (parse input).cfg).2) : Points input e := by
  rcases compile_reports hk (isUtf8_of_mem_zones input) e he with
    ⟨v, hv, k, hwhole, rfl⟩ | ⟨v, hv, addr, mask, hvalue, hfirst, hreports⟩
  · exact .of_not_isNetworkPart hwhole.not_isNetworkPart
      ⟨v.span, rfl, value_standsIn hlines hv⟩
  · obtain ⟨hmem, raw, hlies⟩ := exists_liesIn hv
    obtain ⟨z, hz, rfl⟩ := List.mem_map.mp hv
    cases hreports with
    | address =>
      have hcut : z.network.value = [] ++ (addr ++ '/'.toUInt8 :: mask) := hvalue
      have hunder := hlies.underlines hcut .networkInvalidAddress
      refine ⟨hunder.standsIn hlines hmem hcut hlies, fun _ => ?_, fun hk => absurd hk id⟩
      exact ⟨z, hz, addr, mask, hvalue, hfirst, hunder⟩
    | prefixLen k hk =>
      have hcut : z.network.value = (addr ++ ['/'.toUInt8]) ++ (mask ++ []) := by
        rw [hvalue]
        simp
      have hunder := hlies.underlines hcut k
      rw [List.length_append, List.length_singleton] at hunder
      refine ⟨hunder.standsIn hlines hmem hcut hlies, ?_, fun _ => ?_⟩
      · rintro rfl
        exact absurd hk id
      · exact ⟨z, hz, addr, mask, hvalue, hfirst, hunder⟩

/-- **Diagnostics point at the offending text.** Every error of a rejected text names one of its
lines, quotes it and underlines a part of it; about an address of a network it underlines the part
before the first slash, about a prefix length the part after. The value of a directive is what its
span underlines, but for its case. -/
theorem diagnostics_point (hk : Hickory) :
    (∀ errors, Config.parse hk input = .error errors → ∀ e ∈ errors, Points input e) ∧
    ∀ x ∈ scannedLines input, ∀ d v, x = .directive d v →
      StandsIn input v.line v.rawLine v.span ∧
      lower v.value = lower (underlined v.rawLine v.span) := by
  constructor
  · intro errors h e he
    rw [errors_of_parse h, List.mem_append] at he
    rcases he with he | he
    · exact points_of_parse hlines he
    · exact points_of_compile hlines he
  · rintro x hx d v rfl
    obtain ⟨p, -, hline⟩ := List.mem_map.mp hx
    exact ⟨standsIn_of_value hlines hx rfl, (scanLine_directive hline).2.lower_underlined⟩

end Errors

/-- A bad address after a tab and two spaces, and a bad prefix length. -/
def caretInput : Bytes := ofString "# carets
\tNetwork  2001:DB8::Wat/64\r
network 2001:db8::/65
"

/-- The errors in it: `2001:DB8::Wat` and `65` are underlined. -/
def caretErrors : List ConfigError := [
  ⟨2, ofString "\tNetwork  2001:DB8::Wat/64", some (10, 23), .networkInvalidAddress⟩,
  ⟨3, ofString "network 2001:db8::/65", some (19, 21), .networkPrefixNotNibbleAligned 65⟩]

/-- Both errors of the file point. -/
theorem diagnostics_point_caretInput :
    Config.parse namelessHickory caretInput = .error caretErrors ∧
      ∀ e ∈ caretErrors, Points caretInput e := by
  have hparse : Config.parse namelessHickory caretInput = .error caretErrors := by decide +kernel
  have hlines : (lines caretInput).length < 2 ^ 32 := by decide +kernel
  exact ⟨hparse, (diagnostics_point hlines namelessHickory).1 caretErrors hparse⟩

end PanoptiDns
