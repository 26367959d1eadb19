import PanoptiDns.Lib.Columns
import PanoptiDns.StdNetCodec
import PanoptiDns.Config.Diagnostics

set_option relaxedAutoImplicit false
set_option autoImplicit false

/-!
# The report on a rejected file

What the operator is shown: the texts of `src/config/error.rs`, and under each the number and the
text of the line, and a line of carets. The pad before the carets is built from the bytes of the
line, so it lands under the offending text if that part of the line is ASCII, and to its right by
the bytes that go on with a character if it is not.

## Main definitions

* `ConfigErrorKind.message`, `ConfigErrorKind.hint` — the texts.
* `ConfigError.quotation`, `ConfigError.underline`, `ConfigError.fmt`, `fmtErrors` — the report.
* `CaretsUnder` — the carets of an error stand under a span of its line.

## Main results

* `caretsUnder_of_span` — they do, for every span in the line.
* `report_underlines` — every error of a rejected file is shown so, under the line it names.
-/

namespace PanoptiDns

open Bytes

/-! ## The texts -/

/-- A number in a text. -/
def decimal (n : ℕ) : Bytes := displayNat 10 n

/-- The headline message. -/
def ConfigErrorKind.message : ConfigErrorKind → Bytes
  | .notUtf8 => ofString "line is not valid UTF-8"
  | .unknownDirective keyword => ofString "unknown directive `" ++ keyword ++ ofString "`"
  | .missingValue keyword => ofString "`" ++ ofString keyword ++ ofString "` requires a value"
  | .directiveBeforeNetwork keyword =>
    ofString "`" ++ ofString keyword ++ ofString "` appears before any `network` directive"
  | .globalAfterNetwork keyword =>
    ofString "`" ++ ofString keyword ++
      ofString "` is a global setting and must appear before the first `network`"
  | .invalidNumber what _ => ofString "`" ++ ofString what ++ ofString "` is not a valid number"
  | .invalidDnsName what => ofString "`" ++ ofString what ++ ofString "` is not a valid DNS name"
  | .invalidChoice what _ => ofString "invalid value for `" ++ ofString what ++ ofString "`"
  | .missingCompanionDirective missing present =>
    ofString "`" ++ ofString present ++ ofString "` is set but `" ++ ofString missing ++
      ofString "` is missing; a SOA record needs both"
  | .duplicateDirective keyword firstLine =>
    ofString "duplicate `" ++ ofString keyword ++
      ofString "` for this network (first set on line " ++ decimal firstLine ++ ofString ")"
  | .missingResolvesTo => ofString "this `network` has no `resolves to` directive"
  | .networkMissingPrefixLen => ofString "network is missing a prefix length, e.g. `/64`"
  | .networkInvalidAddress => ofString "not a valid IPv6 address"
  | .networkPrefixLenNotANumber => ofString "prefix length is not a number"
  | .networkPrefixLenOutOfRange mask =>
    ofString "prefix length /" ++ decimal mask ++ ofString " is out of range (0-128)"
  | .networkPrefixNotNibbleAligned mask =>
    ofString "prefix length /" ++ decimal mask ++
      ofString " is not nibble-aligned (must be a multiple of 4)"
  | .networkHostBitsSet _ => ofString "network has bits set below its prefix length"
  | .networkPrefixTooShort mask =>
    ofString "prefix length /" ++ decimal mask ++
      ofString " would make this server authoritative for all of ip6.arpa"
  | .networkIsSingleAddress =>
    ofString "/128 is a single address, leaving no digits for %DIGITS%"
  | .duplicateNetwork firstLine =>
    ofString "network is already configured on line " ++ decimal firstLine
  | .placeholderMissing =>
    ofString "`resolves to` must contain %DIGITS% or %DIGITS-DASHED%"
  | .placeholderRepeated count =>
    ofString "`resolves to` contains %DIGITS%/%DIGITS-DASHED% " ++ decimal count ++
      ofString " times, expected exactly once"
  | .dashedDigitsNotNibbleMultipleOfFour hostNibbles =>
    ofString "%DIGITS-DASHED% needs a host part that is a multiple of 4 hex digits wide, but " ++
      ofString "this network's is " ++ decimal hostNibbles
  | .resolvesToInvalidName reason =>
    ofString "`resolves to` is not a valid DNS name: " ++ reason
  | .forwardNameTooLong reason =>
    ofString "the widest name this template can produce is invalid: " ++ reason
  | .duplicateForwardPattern firstLine =>
    ofString "this `resolves to` pattern is already used on line " ++ decimal firstLine
  | .invalidListenAddress => ofString "not a valid IP address or address:port"
  | .invalidUpstreamAddress => ofString "not a valid IP address"

/-- An optional actionable hint printed under the caret. -/
def ConfigErrorKind.hint : ConfigErrorKind → Option Bytes
  | .networkMissingPrefixLen => some (ofString
      "a `network` without a prefix length is what made AllKnowingDNS claim " ++
      ofString "the whole ip6.arpa namespace")
  | .networkPrefixNotNibbleAligned _ => some (ofString "expected /0, /4, /8, … /128")
  | .networkHostBitsSet suggestion =>
    some (ofString "did you mean `" ++ suggestion ++ ofString "`?")
  | .placeholderMissing => some (ofString "e.g. `resolves to ipv6-%DIGITS%.example.net`")
  | .dashedDigitsNotNibbleMultipleOfFour _ =>
    some (ofString "prefix length must leave a multiple of 4 hex digits, e.g. /48, /96")
  | .invalidListenAddress =>
    some (ofString "e.g. `listen 2001:db8::1`, `listen 0.0.0.0`, `listen [::]:5353`")
  | .invalidNumber _ allowed => some (ofString "expected " ++ ofString allowed)
  | .invalidChoice _ allowed => some (ofString "expected " ++ ofString allowed)
  | .invalidDnsName _ => some (ofString "e.g. `ns1.example.net.` (a trailing dot is optional)")
  | .globalAfterNetwork _ => some (ofString
      "indentation is decorative in this format, so globals are recognised by position")
  | _ => none

/-! ## The layout -/

namespace ConfigError

variable (e : ConfigError)

/-- As many spaces as the number of the line has digits. -/
def gutter : Bytes := List.replicate (decimal e.line).length ' '.toUInt8

/-- The bar between the gutter and the text. -/
def bar : Bytes := ofString " | "

/-- The line of the file, with its number. -/
def quotation : Bytes := decimal e.line ++ bar ++ e.snippet

/-- The pad and the carets. Tabs in the source would misalign a naive caret, so they are mirrored
into the pad. -/
def carets : Bytes × Bytes :=
  match e.span with
  | some (start, stop) =>
    (mirror (e.snippet.take start), List.replicate (max (stop - start) 1) '^'.toUInt8)
  | none => ([], List.replicate (max e.snippet.length 1) '^'.toUInt8)

/-- The line of carets, up to the hint. -/
def underline : Bytes := e.gutter ++ bar ++ (e.carets.1 ++ e.carets.2)

/-- What is shown for one error of the file at `path`. -/
def fmt (path : Bytes) : Bytes :=
  let newline := ofString "\n"
  ofString "error: " ++ e.kind.message ++ newline ++
  e.gutter ++ ofString "--> " ++ path ++ ofString ":" ++ decimal e.line ++ newline ++
  e.gutter ++ ofString " |" ++ newline ++
  e.quotation ++ newline ++
  match e.kind.hint with
  | some hint => e.underline ++ ofString " " ++ hint ++ newline
  | none => e.underline ++ newline

end ConfigError

/-- The body of the loop of `ConfigErrors::fmt`: an error with its index, after an empty line
unless it is the first. -/
def fmtNext (path : Bytes) (p : ConfigError × ℕ) : Bytes :=
  (if p.2 > 0 then ofString "\n" else []) ++ p.1.fmt path

/-- `ConfigErrors::fmt`: all problems found in one file, rendered together. `path` is how the path
of the file is displayed, if one is attached. -/
def fmtErrors (path : Option Bytes) (errors : List ConfigError) : Bytes :=
  let plural := if errors.length = 1 then "error" else "errors"
  errors.zipIdx.flatMap (fmtNext (path.getD (ofString "<config>"))) ++
    ofString "\naborting due to " ++ decimal errors.length ++ ofString " configuration " ++
    ofString plural

/-! ## Where the carets are -/

namespace ConfigError

variable {e : ConfigError} {span : ℕ × ℕ}

/-- How much stands before the text of the line. -/
def margin (e : ConfigError) : ℕ := (e.gutter ++ bar).length

/-- **The carets stand under a span** of the line, in columns of any tab width: there is one for
each byte of the span, and at least one; where the line is ASCII up to a byte of the span, and the
span has no tab before it, the caret of that byte is in its column. In a line without tabs before
the span they are too far right by the continuation bytes before it, and never too far left. -/
structure CaretsUnder (e : ConfigError) (span : ℕ × ℕ) : Prop where
  carets : e.underline.drop (e.margin + span.1) =
    List.replicate (max (span.2 - span.1) 1) '^'.toUInt8
  pad : '^'.toUInt8 ∉ e.underline.take (e.margin + span.1)
  under : ∀ width i, i ≤ span.2 - span.1 → (∀ b ∈ e.snippet.take (span.1 + i), b < 0x80) →
    '\t'.toUInt8 ∉ (underlined e.snippet span).take i →
    column width 0 (e.underline.take (e.margin + span.1 + i)) =
      column width 0 (e.quotation.take (e.margin + span.1 + i))
  shift : ∀ width, '\t'.toUInt8 ∉ e.snippet.take span.1 →
    column width 0 (e.underline.take (e.margin + span.1)) =
      column width 0 (e.quotation.take (e.margin + span.1)) +
        (e.snippet.take span.1).countP isContinuation
  right : ∀ width, column width 0 (e.quotation.take (e.margin + span.1)) ≤
    column width 0 (e.underline.take (e.margin + span.1))

/-- The gutter is as wide as the number. -/
lemma margin_eq (e : ConfigError) : e.margin = (decimal e.line ++ bar).length := by
  rw [margin, gutter, List.length_append, List.length_append, List.length_replicate]

/-- A byte of a number is an ASCII digit. -/
lemma plain_of_mem_decimal {n : ℕ} {b : UInt8} (h : b ∈ decimal n) :
    b ≠ '\t'.toUInt8 ∧ isContinuation b = false := by
  obtain ⟨d, hd, rfl⟩ := exists_of_mem_displayNat (by decide) h
  interval_cases d <;> decide

/-- Both lines are the margin wide before the text. -/
lemma column_decimal_bar (e : ConfigError) (width : ℕ) :
    column width 0 (decimal e.line ++ bar) = e.margin ∧
      column width 0 (e.gutter ++ bar) = e.margin := by
  have hall : bar.all (fun b => b != '\t'.toUInt8 && !isContinuation b) = true := by decide
  have hbar : ∀ b ∈ bar, b ≠ '\t'.toUInt8 ∧ isContinuation b = false := by
    intro b hb
    simpa using List.all_eq_true.mp hall b hb
  constructor
  · rw [column_eq_add, Nat.zero_add, margin_eq]
    intro b hb
    rcases List.mem_append.mp hb with hb | hb
    · exact plain_of_mem_decimal hb
    · exact hbar b hb
  · rw [column_eq_add, Nat.zero_add, margin]
    intro b hb
    rcases List.mem_append.mp hb with hb | hb
    · obtain rfl := List.eq_of_mem_replicate hb
      decide
    · exact hbar b hb

/-- The front of the quotation: the number of the line, the bar and the front of the line. -/
lemma quotation_take (n : ℕ) :
    e.quotation.take (e.margin + n) = decimal e.line ++ bar ++ e.snippet.take n := by
  rw [quotation, margin_eq, List.take_length_add_append]

/-- The pad is as long as what it stands under. -/
lemma length_pad (h : span.1 ≤ e.snippet.length) :
    (mirror (e.snippet.take span.1)).length = span.1 := by
  rw [length_mirror, List.length_take, min_eq_left h]

section Span

variable (hspan : e.span = some span) (hlen : span.2 ≤ e.snippet.length) (hle : span.1 ≤ span.2)

include hspan

/-- The underline: the gutter, the bar, the mirror of what is before the span, and the carets. -/
lemma underline_eq : e.underline = e.gutter ++ bar ++ (mirror (e.snippet.take span.1) ++
    List.replicate (max (span.2 - span.1) 1) '^'.toUInt8) := by
  rw [underline, carets, hspan]

include hlen hle

/-- The front of the underline, up to a caret. -/
lemma underline_take {i : ℕ} (hi : i ≤ span.2 - span.1) :
    e.underline.take (e.margin + span.1 + i) =
      e.gutter ++ bar ++ (mirror (e.snippet.take span.1) ++ List.replicate i '^'.toUInt8) := by
  have hpad := length_pad (hle.trans hlen)
  rw [underline_eq hspan, add_assoc, margin, List.take_length_add_append]
  generalize mirror (e.snippet.take span.1) = pad at hpad ⊢
  rw [← hpad, List.take_length_add_append, List.take_replicate, min_eq_left (by omega)]

/-- Before the span, the line and its pad start from the margin. -/
lemma column_before_span (width : ℕ) :
    column width 0 (e.underline.take (e.margin + span.1)) =
        column width e.margin (mirror (e.snippet.take span.1)) ∧
      column width 0 (e.quotation.take (e.margin + span.1)) =
        column width e.margin (e.snippet.take span.1) := by
  obtain ⟨hnumber, hgutter⟩ := e.column_decimal_bar width
  have htake := underline_take hspan hlen hle (Nat.zero_le _)
  rw [Nat.add_zero, List.replicate_zero, List.append_nil] at htake
  constructor
  · rw [htake, column_append, hgutter]
  · rw [quotation_take, column_append, hnumber]

/-- **The carets stand under the span.** -/
theorem caretsUnder_of_span : e.CaretsUnder span where
  carets := by
    rw [underline_eq hspan, ← List.append_assoc, List.drop_left']
    rw [List.length_append, length_pad (hle.trans hlen)]
    rfl
  pad hmem := by
    have htake := underline_take hspan hlen hle (Nat.zero_le _)
    rw [Nat.add_zero] at htake
    rw [htake, List.replicate_zero, List.append_nil, List.mem_append, List.mem_append] at hmem
    rcases hmem with (hmem | hmem) | hmem
    · exact absurd (List.eq_of_mem_replicate hmem) (by decide)
    · exact absurd hmem (by decide)
    · obtain ⟨b, -, hb⟩ := List.mem_map.mp hmem
      split at hb
      · exact absurd hb (by decide)
      · exact absurd hb (by decide)
  under width i hi hascii htab := by
    have hcut : e.snippet.take (span.1 + i) =
        e.snippet.take span.1 ++ (underlined e.snippet span).take i := by
      rw [underlined, List.take_add, List.drop_take, List.take_take, min_eq_left hi]
    rw [hcut] at hascii
    obtain ⟨hbefore, hpart⟩ := List.forall_mem_append.mp hascii
    have htext : ∀ col, column width col ((underlined e.snippet span).take i) = col + i := by
      intro col
      rw [column_eq_add fun b hb => ⟨fun heq => htab (heq ▸ hb), isContinuation_ascii (hpart b hb)⟩,
        List.length_take, underlined, List.length_drop, List.length_take, min_eq_left hlen,
        min_eq_left hi]
    have hcarets : ∀ col, column width col (List.replicate i '^'.toUInt8) = col + i := by
      intro col
      rw [column_eq_add, List.length_replicate]
      intro b hb
      obtain rfl := List.eq_of_mem_replicate hb
      decide
    obtain ⟨hnumber, hgutter⟩ := e.column_decimal_bar width
    rw [underline_take hspan hlen hle hi, add_assoc, quotation_take, hcut,
      column_append _ (_ ++ bar), hgutter, column_append _ (_ ++ bar), hnumber, column_append,
      column_append, hcarets, htext, column_mirror_of_ascii hbefore]
  shift width htab := by
    obtain ⟨hpad, htext⟩ := column_before_span hspan hlen hle width
    rw [hpad, htext, column_mirror_of_noTab htab]
  right width := by
    obtain ⟨hpad, htext⟩ := column_before_span hspan hlen hle width
    rw [hpad, htext]
    exact column_le_column_mirror _ _

end Span

/-- **What is shown for an error**: a headline, the line, the carets and perhaps a hint. -/
lemma exists_fmt_eq (e : ConfigError) (path : Bytes) : ∃ before after, e.fmt path =
    ofString "error: " ++ e.kind.message ++ (10 :: before) ++
      (10 :: (e.quotation ++ (10 :: (e.underline ++ (after ++ [10]))))) := by
  refine ⟨e.gutter ++ ofString "--> " ++ path ++ ofString ":" ++ decimal e.line ++ ofString "\n" ++
    e.gutter ++ ofString " |", (e.kind.hint.map (ofString " " ++ ·)).getD [], ?_⟩
  have hnewline : ofString "\n" = [10] := by decide
  unfold fmt
  cases e.kind.hint with
  | none => simp [hnewline]
  | some hint => simp [hnewline]

end ConfigError

/-- Every error is shown in the report. -/
lemma exists_fmtErrors_eq (path : Option Bytes) {errors : List ConfigError} {e : ConfigError}
    (he : e ∈ errors) : ∃ before after,
      fmtErrors path errors = before ++ e.fmt (path.getD (ofString "<config>")) ++ after := by
  obtain ⟨i, hi⟩ := List.mem_iff_getElem?.mp he
  have hmem : (e, i) ∈ errors.zipIdx := List.mem_zipIdx_iff_getElem?.mpr hi
  obtain ⟨front, back, hcut⟩ := List.append_of_mem hmem
  simp only [fmtErrors, hcut, List.flatMap_append, List.flatMap_cons, fmtNext, List.append_assoc]
  rw [← List.append_assoc]
  exact ⟨_, _, rfl⟩

/-- **The report shows every error under the line it is about.** For every error of a rejected text
it has the headline, the line of the text that the error names, with its number, and under it the
carets, which stand under the span of the error. -/
theorem report_underlines (hk : Hickory) {input : Bytes} (hlines : (lines input).length < 2 ^ 32)
    {errors : List ConfigError} (h : Config.parse hk input = .error errors) (path : Option Bytes)
    {e : ConfigError} (he : e ∈ errors) :
    (∃ before header after, fmtErrors path errors =
      before ++ (ofString "error: " ++ e.kind.message ++ (10 :: header) ++
        (10 :: (e.quotation ++ (10 :: (e.underline ++ after)))))) ∧
    ∃ span, e.span = some span ∧ StandsIn input e.line e.snippet span ∧ e.CaretsUnder span := by
  constructor
  · obtain ⟨before, after, hreport⟩ := exists_fmtErrors_eq path he
    obtain ⟨header, hint, hfmt⟩ := e.exists_fmt_eq (path.getD (ofString "<config>"))
    refine ⟨before, header, hint ++ [10] ++ after, ?_⟩
    rw [hreport, hfmt]
    simp only [List.append_assoc, List.cons_append]
  · rw [errors_of_parse h, List.mem_append] at he
    have hpoints : Points input e := by
      rcases he with he | he
      · exact points_of_parse hlines he
      · exact points_of_compile hlines he
    obtain ⟨span, hspan, hstands⟩ := hpoints.standsIn
    exact ⟨span, hspan, hstands, ConfigError.caretsUnder_of_span hspan hstands.stop_le
      hstands.start_le⟩

/-- A bad prefix length after a tab. -/
def tabbedInput : Bytes := ofString "\tnetwork 2001:db8::/65\n"

/-- The error in it. -/
def tabbedError : ConfigError :=
  ⟨1, ofString "\tnetwork 2001:db8::/65", some (20, 22), .networkPrefixNotNibbleAligned 65⟩

example : fmtErrors (some (ofString "panoptidns.conf")) [tabbedError] = ofString
    "error: prefix length /65 is not nibble-aligned (must be a multiple of 4)
 --> panoptidns.conf:1
  |
1 | \tnetwork 2001:db8::/65
  | \t                   ^^ expected /0, /4, /8, … /128

aborting due to 1 configuration error" := by
  decide +kernel

/-- The carets are under the value, though there is a tab before it. -/
theorem report_underlines_tabbedInput :
    Config.parse namelessHickory tabbedInput = .error [tabbedError] ∧
      (∃ before header after, fmtErrors none [tabbedError] =
        before ++ (ofString "error: " ++ tabbedError.kind.message ++ (10 :: header) ++
          (10 :: (tabbedError.quotation ++ (10 :: (tabbedError.underline ++ after)))))) ∧
      ∃ span, tabbedError.span = some span ∧
        StandsIn tabbedInput tabbedError.line tabbedError.snippet span ∧
        tabbedError.CaretsUnder span := by
  have hparse : Config.parse namelessHickory tabbedInput = .error [tabbedError] := by
    decide +kernel
  have hlines : (lines tabbedInput).length < 2 ^ 32 := by decide +kernel
  exact ⟨hparse, report_underlines namelessHickory hlines hparse none List.mem_cons_self⟩

end PanoptiDns
