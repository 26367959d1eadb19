import PanoptiDns.Config.Unreachable
import PanoptiDns.Lib.Registry

set_option relaxedAutoImplicit false
set_option autoImplicit false

/-!
# Duplicate patterns

Two zones whose templates match the same names shadow one another, so a `resolves to` value that
was seen before is an error. What is looked up is the value as text, in lowercase; what matches is
the list of compiled labels. The two differ by the trailing dot, which the compiler drops and the
lookup does not. And what is looked up is only there if the block it is in was accepted.

## Main definitions

* `FwdLabel.folded`, `FwdTemplate.folded` — what matching sees of a template.
* `RawZone.entry` — what duplicate detection is about in a block.
* `ReportedDuplicate` — a block is reported as a duplicate, and the file rejected for it.

## Main results

* `folded_eq_iff` — templates fold to the same labels iff their texts do, less a trailing dot.
* `pairwise_folded_iff` — when no two zones of an accepted file have one matching template.
* `reportedDuplicate_iff` — when a block is reported.
* `duplicates_detected_iff` — when every repeated template is.
-/

namespace PanoptiDns

open Bytes

/-- What matching sees of a label: its text in lowercase, or the lowercase text around the
placeholder and the placeholder's kind. -/
def FwdLabel.folded : FwdLabel → Bytes ⊕ (Bytes × Bytes × Bool)
  | .literal _ lower => .inl lower
  | .digits _ preLower _ postLower dashed => .inr (preLower, postLower, dashed)

/-- What matching sees of a template. -/
def FwdTemplate.folded (t : FwdTemplate) : List (Bytes ⊕ (Bytes × Bytes × Bool)) :=
  t.labels.map FwdLabel.folded

/-! ## From the labels to the text -/

/-- The label a folded label folds from, written in lowercase. -/
def lowerText : Bytes ⊕ (Bytes × Bytes × Bool) → Bytes
  | .inl low => low
  | .inr (preLower, postLower, dashed) => preLower ++ placeholderOf dashed ++ postLower

/-- **The folded labels give the text**, in lowercase and less a trailing dot. -/
lemma Pattern.lower_text {p : Pattern} {text : Bytes} (h : p.WrittenAs text) :
    lower (stripOne '.'.toUInt8 text) =
      ['.'.toUInt8].intercalate (p.template.folded.map lowerText) := by
  obtain ⟨ph, hph, htext⟩ := h
  have hlit : ∀ ls : List Bytes,
      (ls.map FwdLabel.lit).map (lowerText ∘ FwdLabel.folded) = ls.map lower := by
    intro ls
    simp [FwdLabel.lit, FwdLabel.folded, lowerText, Function.comp_def]
  rw [htext, lower_intercalate ((lowerByte_eq_dot_iff _).mpr rfl), FwdTemplate.folded, List.map_map,
    Pattern.template, List.map_append, List.map_append, List.map_cons, List.map_cons, hlit, hlit]
  simp [FwdLabel.around, FwdLabel.folded, lowerText, hph]

/-! ## From the text to the labels -/

/-- Segments that differ by case compile to labels that fold alike. -/
lemma compileSegment_folded {v₁ v₂ : RawValue} {s₁ s₂ : Bytes} {l₁ l₂ : FwdLabel}
    (h₁ : compileSegment v₁ s₁ = .ok l₁) (h₂ : compileSegment v₂ s₂ = .ok l₂)
    (hs : lower s₁ = lower s₂) : l₁.folded = l₂.folded := by
  unfold compileSegment at h₁ h₂
  simp only [hs] at h₁ h₂
  split at h₁
  · rename_i hhit
    simp only [hhit] at h₂
    obtain rfl := Except.ok.inj h₁
    obtain rfl := Except.ok.inj h₂
    rfl
  · rename_i at' ph dashed hhit
    simp only [hhit] at h₂
    split at h₁
    · cases h₁
    rename_i pre₁ rest₁ hpre₁
    split at h₁
    · cases h₁
    rename_i ph₁ post₁ hpost₁
    split at h₂
    · cases h₂
    rename_i pre₂ rest₂ hpre₂
    split at h₂
    · cases h₂
    rename_i ph₂ post₂ hpost₂
    obtain rfl := Except.ok.inj h₁
    obtain rfl := Except.ok.inj h₂
    -- both are split at the same places
    obtain ⟨rfl, hat₁⟩ := eq_of_strSplitAtChecked hpre₁
    obtain ⟨rfl, hat₂⟩ := eq_of_strSplitAtChecked hpre₂
    obtain ⟨rfl, hlen₁⟩ := eq_of_strSplitAtChecked hpost₁
    obtain ⟨rfl, hlen₂⟩ := eq_of_strSplitAtChecked hpost₂
    rw [lower_append, lower_append, lower_append, lower_append] at hs
    obtain ⟨hpre, hrest⟩ := List.append_inj hs (by simp [hat₁, hat₂])
    obtain ⟨-, hpost⟩ := List.append_inj hrest (by simp [hlen₁, hlen₂])
    simp [FwdLabel.folded, hpre, hpost]

/-- A segment that is not empty, and the label it compiles to. -/
def SegmentLabel (v : RawValue) (s : Bytes) (l : FwdLabel) : Prop :=
  s ≠ [] ∧ compileSegment v s = .ok l

/-- **The loop** compiles the segments one by one. -/
lemma templateLoop_eq_ok {v : RawValue} {segs : List Bytes} {idx : ℕ} {labels out : List FwdLabel}
    {at' at'' : Option ℕ} {dashed dashed' : Bool}
    (h : templateLoop v segs idx labels at' dashed = .ok (out, at'', dashed')) :
    ∃ ls, List.Forall₂ (SegmentLabel v) segs ls ∧ out = labels ++ ls := by
  induction segs generalizing idx labels at' dashed with
  | nil =>
    simp only [templateLoop, Except.ok.injEq, Prod.mk.injEq] at h
    exact ⟨[], .nil, by simp [h.1]⟩
  | cons s segs ih =>
    rw [templateLoop] at h
    split at h
    · cases h
    · rename_i hne
      have hs : s ≠ [] := by simpa using hne
      split at h
      · cases h
      all_goals
        rename_i hseg
        obtain ⟨ls, hall, hout⟩ := ih h
        exact ⟨_ :: ls, .cons ⟨hs, hseg⟩ hall, by simp [hout]⟩

/-- The labels of an accepted template are those of the segments of its text. -/
lemma compileTemplate_segments {hk : Hickory} {v : RawValue} {n : ℕ} {t : FwdTemplate}
    (h : compileTemplate hk v n = .ok t) :
    List.Forall₂ (SegmentLabel v) ((stripOne '.'.toUInt8 v.value).splitOn '.'.toUInt8)
      t.labels := by
  unfold compileTemplate at h
  simp only at h
  split at h
  · cases h
  split at h
  · cases h
  split at h
  · cases h
  · cases h
  rename_i labels at' dashed hloop
  obtain ⟨ls, hall, hout⟩ := templateLoop_eq_ok hloop
  split at h
  · cases h
  split at h
  · cases h
  obtain rfl := Except.ok.inj h
  rw [List.nil_append] at hout
  exact hout ▸ hall

/-- Segments that differ by case compile to labels that fold alike, one by one. -/
lemma folded_of_segments {v₁ v₂ : RawValue} {segs₁ segs₂ : List Bytes} {ls₁ ls₂ : List FwdLabel}
    (h₁ : List.Forall₂ (SegmentLabel v₁) segs₁ ls₁) (h₂ : List.Forall₂ (SegmentLabel v₂) segs₂ ls₂)
    (hsegs : segs₁.map lower = segs₂.map lower) :
    ls₁.map FwdLabel.folded = ls₂.map FwdLabel.folded := by
  induction h₁ generalizing segs₂ ls₂ with
  | nil =>
    obtain rfl : segs₂ = [] := by simpa using hsegs.symm
    cases h₂
    rfl
  | cons hl _ ih =>
    cases h₂ with
    | nil => simp at hsegs
    | cons hl' hrest =>
      rw [List.map_cons, List.map_cons, List.cons.injEq] at hsegs
      rw [List.map_cons, List.map_cons, compileSegment_folded hl.2 hl'.2 hsegs.1, ih hrest hsegs.2]

section Templates

variable {hk₁ hk₂ : Hickory} {v₁ v₂ : RawValue} {n₁ n₂ : ℕ} {t₁ t₂ : FwdTemplate}
  (h₁ : compileTemplate hk₁ v₁ n₁ = .ok t₁) (h₂ : compileTemplate hk₂ v₂ n₂ = .ok t₂)

include h₁

/-- The text of an accepted template does not end in two dots. -/
lemma getLast?_stripOne_ne_dot :
    (stripOne '.'.toUInt8 v₁.value).getLast? ≠ some '.'.toUInt8 := by
  intro hlast
  have hsplit := List.dropLast_append_getLast? _ hlast
  have hempty : [] ∈ (stripOne '.'.toUInt8 v₁.value).splitOn '.'.toUInt8 := by
    rw [← hsplit, splitOn_append_sep]
    simp
  obtain ⟨l, -, hne, -⟩ := exists_of_forall₂_right (compileTemplate_segments h₁).flip hempty
  exact hne rfl

/-- A dot after a text is the dot that is dropped. -/
lemma lower_stripOne_of_dot {s : Bytes} (hdot : lower v₁.value = lower s ++ ['.'.toUInt8]) :
    lower (stripOne '.'.toUInt8 v₁.value) = lower (stripOne '.'.toUInt8 s) := by
  have hstrip : lower (stripOne '.'.toUInt8 v₁.value) = lower s := by
    rw [lower_stripOne lowerByte_eq_dot_iff, hdot]
    simp [stripOne, stripSuffix]
  rcases stripOne_cases '.'.toUInt8 s with hs | hs
  · rw [hstrip, ← hs]
  · -- a second dot would leave an empty segment
    exfalso
    apply getLast?_stripOne_ne_dot h₁
    have hlast : (lower (stripOne '.'.toUInt8 v₁.value)).getLast? = some '.'.toUInt8 := by
      rw [hstrip, hs, lower_append]
      simp [(lowerByte_eq_dot_iff _).mpr rfl]
    rw [lower, List.getLast?_map, Option.map_eq_some_iff] at hlast
    obtain ⟨b, hb, hdot⟩ := hlast
    rw [hb, (lowerByte_eq_dot_iff b).mp hdot]

include h₂

/-- **Templates fold to the same labels** iff their texts do, less a trailing dot. -/
lemma folded_eq_iff : t₁.folded = t₂.folded ↔
    lower (stripOne '.'.toUInt8 v₁.value) = lower (stripOne '.'.toUInt8 v₂.value) := by
  constructor
  · intro h
    obtain ⟨p₁, rfl, hw₁, -⟩ := compileTemplate_pattern h₁
    obtain ⟨p₂, rfl, hw₂, -⟩ := compileTemplate_pattern h₂
    rw [Pattern.lower_text hw₁, Pattern.lower_text hw₂, h]
  · intro h
    apply folded_of_segments (compileTemplate_segments h₁) (compileTemplate_segments h₂)
    rw [← splitOn_lower lowerByte_eq_dot_iff, h, splitOn_lower lowerByte_eq_dot_iff]

/-- **Texts that differ** fold to the same labels iff one is the other with a dot after it, up to
case. -/
lemma folded_eq_iff_of_lower_ne (hne : lower v₁.value ≠ lower v₂.value) : t₁.folded = t₂.folded ↔
    lower v₁.value = lower v₂.value ++ ['.'.toUInt8] ∨
      lower v₂.value = lower v₁.value ++ ['.'.toUInt8] := by
  have hdot : ∀ s : Bytes, lower (s ++ ['.'.toUInt8]) = lower s ++ ['.'.toUInt8] := by
    intro s
    rw [lower_append, lower_cons, (lowerByte_eq_dot_iff _).mpr rfl, lower_nil]
  rw [folded_eq_iff h₁ h₂]
  constructor
  · intro h
    rcases stripOne_cases '.'.toUInt8 v₁.value with hs₁ | hs₁
    · rcases stripOne_cases '.'.toUInt8 v₂.value with hs₂ | hs₂
      · rw [← hs₁, ← hs₂] at h
        exact absurd h hne
      · right
        rw [hs₂, hdot, ← h, ← hs₁]
    · rcases stripOne_cases '.'.toUInt8 v₂.value with hs₂ | hs₂
      · left
        rw [hs₁, hdot, h, ← hs₂]
      · rw [hs₁, hs₂, hdot, hdot, h] at hne
        exact absurd rfl hne
  · rintro (h | h)
    · exact lower_stripOne_of_dot h₁ h
    · exact (lower_stripOne_of_dot h₂ h).symm

end Templates

/-! ## Accepted files -/

/-- The value a zone's template was compiled from. -/
lemma exists_compileTemplate {hk : Hickory} {input : Bytes} {c : Config}
    (h : Config.parse hk input = .ok c) {z : Zone} (hz : z ∈ c.zones) :
    ∃ v : RawValue, v.value = z.resolvesTo ∧ compileTemplate hk v z.hostNibbles = .ok z.fwd := by
  obtain ⟨-, -, -, zs, hall, -, rfl⟩ := parse_eq_ok_iff.mp h
  obtain ⟨w, hw, rfl⟩ := List.mem_map.mp ((sortByMask_perm _).mem_iff.mp hz)
  obtain ⟨raw, -, hraw⟩ := exists_of_forall₂_right hall hw
  obtain ⟨v, -, hval, htmpl⟩ := hraw.template
  exact ⟨v, hval, htmpl⟩

/-- **No two templates the same** in an accepted file iff no two values are the same but for a dot
after one of them, up to case.

**Proof sketch.** An accepted file has no two values that are the same up to case, so that
`folded_eq_iff_of_lower_ne` speaks of every pair. -/
lemma pairwise_folded_iff {hk : Hickory} {input : Bytes} {c : Config}
    (h : Config.parse hk input = .ok c) :
    (c.zones.Pairwise fun z w => z.fwd.folded ≠ w.fwd.folded) ↔
      c.zones.Pairwise fun z w => lower z.resolvesTo ≠ lower w.resolvesTo ++ ['.'.toUInt8] ∧
        lower w.resolvesTo ≠ lower z.resolvesTo ++ ['.'.toUInt8] := by
  have hpair : ∀ z ∈ c.zones, ∀ w ∈ c.zones, z.Apart w →
      (z.fwd.folded ≠ w.fwd.folded ↔ lower z.resolvesTo ≠ lower w.resolvesTo ++ ['.'.toUInt8] ∧
        lower w.resolvesTo ≠ lower z.resolvesTo ++ ['.'.toUInt8]) := by
    intro z hz w hw hapart
    obtain ⟨v₁, hv₁, h₁⟩ := exists_compileTemplate h hz
    obtain ⟨v₂, hv₂, h₂⟩ := exists_compileTemplate h hw
    have hne := hapart.2
    rw [← hv₁, ← hv₂] at hne ⊢
    rw [ne_eq, folded_eq_iff_of_lower_ne h₁ h₂ hne, not_or]
  have hall := List.Pairwise.and (parse_wf h).apart
    (List.pairwise_of_forall_mem_list fun z hz w hw => (⟨hz, hw⟩ : z ∈ c.zones ∧ w ∈ c.zones))
  constructor
  · intro hfold
    refine (hall.and hfold).imp fun {z w} hzw => ?_
    exact (hpair z hzw.1.2.1 w hzw.1.2.2 hzw.1.1).mp hzw.2
  · intro htext
    refine (hall.and htext).imp fun {z w} hzw => ?_
    exact (hpair z hzw.1.2.1 w hzw.1.2.2 hzw.1.1).mpr hzw.2

/-! ## The blocks of a file -/

/-- What duplicate detection is about in a block: its network, its pattern, and what the pattern
matches. -/
abbrev PatternEntry := Registry.Entry (U128 × ℕ) Bytes (List (Bytes ⊕ (Bytes × Bytes × Bool)))

instance : DecidableEq PatternEntry :=
  @Registry.instDecidableEqEntry _ _ _ inferInstance inferInstance inferInstance

/-- **The entry of a block** whose network and template compile by themselves. It is sound if the
upstream is an address. -/
def RawZone.entry (hk : Hickory) (raw : RawZone) : Option PatternEntry := do
  let network ← (compileNetwork raw.network).toOption
  let resolvesTo ← raw.resolvesTo
  let fwd ← (compileTemplate hk resolvesTo ((128 - network.2) / 4)).toOption
  return {
    place := network
    text := lower resolvesTo.value
    meaning := fwd.folded
    sound := (compileUpstream raw.upstream).isOk }

/-- The maps of duplicate detection when the loop of `compile` is past some blocks. -/
def seenAfter (hk : Hickory) (raws : List RawZone) (seen : Seen) : Seen :=
  raws.foldl (fun seen raw =>
    match compileZone hk raw seen with
    | .ok (_, seen) => seen
    | .error _ => seen) seen

/-- **The block `w` is reported** after the blocks `pre` of the file: `compile_zone` gives a
`DuplicateForwardPattern` for its value, and the file is rejected with that error. -/
def ReportedDuplicate (hk : Hickory) (input : Bytes) (pre : List RawZone) (w : RawZone) : Prop :=
  ∃ v line errors, w.resolvesTo = some v ∧
    compileZone hk w (seenAfter hk pre {}) = .error (v.error (.duplicateForwardPattern line)) ∧
    Config.parse hk input = .error errors ∧ v.error (.duplicateForwardPattern line) ∈ errors

/-- **What `compile_zone` does** with a block that stands for an entry: four outcomes, by what was
seen before. -/
inductive EntryResult (seen : Seen) (raw : RawZone) (v : RawValue) (e : PatternEntry) :
    Except ConfigError (Zone × Seen) → Prop
  | network (line : ℕ) (hseen : seen.networks.lookup e.place = some line) :
      EntryResult seen raw v e (.error (raw.network.error (.duplicateNetwork line)))
  | pattern (line : ℕ) (hfree : seen.networks.lookup e.place = none)
      (hseen : seen.patterns.lookup e.text = some line) :
      EntryResult seen raw v e (.error (v.error (.duplicateForwardPattern line)))
  | upstream (u : RawValue) (hfree : seen.networks.lookup e.place = none)
      (hnew : seen.patterns.lookup e.text = none) (hsound : e.sound = false) :
      EntryResult seen raw v e (.error (u.error .invalidUpstreamAddress))
  | registered (z : Zone) (hfree : seen.networks.lookup e.place = none)
      (hnew : seen.patterns.lookup e.text = none) (hsound : e.sound = true) :
      EntryResult seen raw v e (.ok (z, {
        networks := (e.place, raw.network.line) :: seen.networks
        patterns := (e.text, v.line) :: seen.patterns }))

section Block

variable {hk : Hickory} {raw : RawZone} {e : PatternEntry}

/-- What an entry says of its block. -/
lemma RawZone.entry_eq_some_iff : raw.entry hk = some e ↔
    ∃ v t, compileNetwork raw.network = .ok e.place ∧ raw.resolvesTo = some v ∧
      compileTemplate hk v ((128 - e.place.2) / 4) = .ok t ∧ e.text = lower v.value ∧
      e.meaning = t.folded ∧ e.sound = (compileUpstream raw.upstream).isOk := by
  have hok : ∀ {α : Type} (x : Except ConfigError α) (a : α), x.toOption = some a ↔ x = .ok a := by
    intro α x a
    cases x <;> simp [Except.toOption]
  simp only [RawZone.entry, Option.bind_eq_bind, Option.bind_eq_some_iff, hok, Option.pure_def,
    Option.some.injEq]
  constructor
  · rintro ⟨network, hnet, v, hv, t, ht, rfl⟩
    exact ⟨v, t, hnet, hv, ht, rfl, rfl, rfl⟩
  · rintro ⟨v, t, hnet, hv, ht, htext, hmeaning, hsound⟩
    refine ⟨e.place, hnet, v, hv, t, ht, ?_⟩
    rw [← htext, ← hmeaning, ← hsound]

/-- **One text, one meaning.** -/
lemma meaning_eq_of_text_eq {raw' : RawZone} {f : PatternEntry} (he : raw.entry hk = some e)
    (hf : raw'.entry hk = some f) (htext : e.text = f.text) : e.meaning = f.meaning := by
  obtain ⟨v, t, -, -, ht, hv, hmeaning, -⟩ := RawZone.entry_eq_some_iff.mp he
  obtain ⟨v', t', -, -, ht', hv', hmeaning', -⟩ := RawZone.entry_eq_some_iff.mp hf
  rw [hmeaning, hmeaning', folded_eq_iff ht ht', lower_stripOne lowerByte_eq_dot_iff,
    lower_stripOne lowerByte_eq_dot_iff, ← hv, ← hv', htext]

/-- A block that stands for an entry has one of the four outcomes. -/
lemma compileZone_entry (h : raw.entry hk = some e) (seen : Seen) :
    ∃ v, raw.resolvesTo = some v ∧ EntryResult seen raw v e (compileZone hk raw seen) := by
  obtain ⟨v, t, hnet, hv, ht, htext, -, hsound⟩ := RawZone.entry_eq_some_iff.mp h
  refine ⟨v, hv, ?_⟩
  unfold compileZone
  rw [hnet]
  simp only [hv, ht, Prod.mk.eta, ← htext]
  cases hfree : seen.networks.lookup e.place with
  | some line => exact .network line hfree
  | none =>
    cases hnew : seen.patterns.lookup e.text with
    | some line => exact .pattern line hfree hnew
    | none =>
      cases hup : compileUpstream raw.upstream with
      | error e' =>
        obtain ⟨u, -, rfl⟩ := compileUpstream_eq_error hup
        rw [hup] at hsound
        exact .upstream u hfree hnew hsound
      | ok upstream =>
        rw [hup] at hsound
        obtain ⟨zone, hzone⟩ := exists_netmaskToPtrName hnet
        obtain ⟨apex, hapex⟩ := exists_parent ht
        simp only [hzone, hapex]
        exact .registered _ hfree hnew hsound

/-- An error about a value is of the kind it is made with. -/
@[simp] lemma kind_error (v : RawValue) (k : ConfigErrorKind) : (v.error k).kind = k := rfl

/-- So is one about a part of it. -/
@[simp] lemma kind_errorAt (v : RawValue) (offset len : ℕ) (k : ConfigErrorKind) :
    (v.errorAt offset len k).kind = k := rfl

/-- A segment is only ever reported as no name. -/
lemma kind_compileSegment {v : RawValue} {segment : Bytes} {err : ConfigError}
    (h : compileSegment v segment = .error err) (line : ℕ) :
    err.kind ≠ .duplicateForwardPattern line := by
  unfold compileSegment at h
  simp only at h
  split at h
  · cases h
  · split at h
    · simp [← Except.error.inj h]
    · split at h
      · simp [← Except.error.inj h]
      · cases h

/-- So are the segments of a template. -/
lemma kind_templateLoop {v : RawValue} {segs : List Bytes} {idx : ℕ} {labels : List FwdLabel}
    {at' : Option ℕ} {dashed : Bool} {err : ConfigError}
    (h : templateLoop v segs idx labels at' dashed = .error err) (line : ℕ) :
    err.kind ≠ .duplicateForwardPattern line := by
  induction segs generalizing idx labels at' dashed with
  | nil => cases h
  | cons s segs ih =>
    rw [templateLoop] at h
    split at h
    · simp [← Except.error.inj h]
    · split at h
      · rename_i hseg
        exact kind_compileSegment (Except.error.inj h ▸ hseg) line
      · exact ih h
      · exact ih h

/-- **A template by itself** is not reported as a duplicate. -/
lemma kind_compileTemplate {v : RawValue} {n : ℕ} {err : ConfigError}
    (h : compileTemplate hk v n = .error err) (line : ℕ) :
    err.kind ≠ .duplicateForwardPattern line := by
  unfold compileTemplate at h
  simp only at h
  split at h
  · simp [← Except.error.inj h]
  split at h
  · simp [← Except.error.inj h]
  split at h
  · rename_i hloop
    exact kind_templateLoop (Except.error.inj h ▸ hloop) line
  · simp [← Except.error.inj h]
  · split at h
    · simp [← Except.error.inj h]
    · split at h
      · simp [← Except.error.inj h]
      · cases h

/-- **Nor is a network.** -/
lemma kind_compileNetwork {v : RawValue} {err : ConfigError} (h : compileNetwork v = .error err)
    (line : ℕ) : err.kind ≠ .duplicateForwardPattern line := by
  unfold compileNetwork at h
  split at h
  · simp [← Except.error.inj h]
  split at h
  · simp [← Except.error.inj h]
  simp only at h
  split at h
  · simp [← Except.error.inj h]
  split at h
  · simp [← Except.error.inj h]
  split at h
  · simp [← Except.error.inj h]
  split at h
  · simp [← Except.error.inj h]
  split at h
  · simp [← Except.error.inj h]
  split at h
  · simp [← Except.error.inj h]
  · cases h

/-- **A block without an entry** is an error, of another kind. -/
lemma compileZone_of_entry_none (h : raw.entry hk = none) (seen : Seen) :
    ∃ err, compileZone hk raw seen = .error err ∧
      ∀ line, err.kind ≠ .duplicateForwardPattern line := by
  unfold compileZone
  cases hnet : compileNetwork raw.network with
  | error err => exact ⟨err, rfl, kind_compileNetwork hnet⟩
  | ok network =>
    simp only
    split
    · exact ⟨_, rfl, by simp⟩
    · split
      · exact ⟨_, rfl, by simp⟩
      · rename_i v hv
        cases ht : compileTemplate hk v ((128 - network.2) / 4) with
        | error err => exact ⟨err, rfl, kind_compileTemplate ht⟩
        | ok t =>
          have he := (RawZone.entry_eq_some_iff
            (e := ⟨network, lower v.value, t.folded, (compileUpstream raw.upstream).isOk⟩)).mpr
            ⟨v, t, hnet, hv, ht, rfl, rfl, rfl⟩
          rw [h] at he
          cases he

end Block

/-! ## The loop over the blocks -/

/-- The maps have the keys of these entries. -/
structure Seen.Knows (seen : Seen) (taken : List PatternEntry) : Prop where
  networks : seen.networks.map Prod.fst = taken.map Registry.Entry.place
  patterns : seen.patterns.map Prod.fst = taken.map Registry.Entry.text

section Loop

variable {hk : Hickory} {seen : Seen} {taken : List PatternEntry} (h : seen.Knows taken)

include h

/-- A network is new iff none of the taken blocks has it. -/
lemma Seen.Knows.lookup_networks (k : U128 × ℕ) :
    seen.networks.lookup k = none ↔ ∀ d ∈ taken, d.place ≠ k := by
  rw [lookup_eq_none_iff_notMem, h.networks]
  simp

/-- A text is new iff none of them has it. -/
lemma Seen.Knows.lookup_patterns (t : Bytes) :
    seen.patterns.lookup t = none ↔ ∀ d ∈ taken, d.text ≠ t := by
  rw [lookup_eq_none_iff_notMem, h.patterns]
  simp

/-- **One more block** registers its entry, or leaves the maps as they are. -/
lemma Seen.Knows.seenAfter_one (raw : RawZone) :
    (seenAfter hk [raw] seen).Knows (Registry.register (RawZone.entry hk) taken raw) := by
  unfold seenAfter Registry.register
  rw [List.foldl_cons, List.foldl_nil]
  cases he : raw.entry hk with
  | none =>
    obtain ⟨err, hzone, -⟩ := compileZone_of_entry_none he seen
    rw [hzone]
    exact h
  | some e =>
    obtain ⟨v, -, hresult⟩ := compileZone_entry he seen
    have hkeys := h.lookup_networks e.place
    have htexts := h.lookup_patterns e.text
    simp only
    generalize compileZone hk raw seen = result at hresult
    cases hresult with
    | network line hseen =>
      rw [if_neg]
      · exact h
      · simp only [Bool.and_eq_true, List.all_eq_true, decide_eq_true_eq]
        rintro ⟨-, hall⟩
        rw [hkeys.mpr fun d hd => (hall d hd).1] at hseen
        cases hseen
    | pattern line hfree hseen =>
      rw [if_neg]
      · exact h
      · simp only [Bool.and_eq_true, List.all_eq_true, decide_eq_true_eq]
        rintro ⟨-, hall⟩
        rw [htexts.mpr fun d hd => (hall d hd).2] at hseen
        cases hseen
    | upstream u hfree hnew hsound =>
      rw [if_neg (by simp [hsound])]
      exact h
    | registered z hfree hnew hsound =>
      rw [if_pos]
      · exact ⟨congrArg (e.place :: ·) h.networks, congrArg (e.text :: ·) h.patterns⟩
      · simp only [hsound, Bool.true_and, List.all_eq_true, Bool.and_eq_true, decide_eq_true_eq]
        exact fun d hd => ⟨hkeys.mp hfree d hd, htexts.mp hnew d hd⟩

/-- **A block is reported** as a duplicate pattern iff its entry repeats a registered one. -/
lemma Seen.Knows.duplicate_iff (raw : RawZone) :
    (∃ v line, raw.resolvesTo = some v ∧
      compileZone hk raw seen = .error (v.error (.duplicateForwardPattern line))) ↔
      ∃ e, raw.entry hk = some e ∧ Registry.Repeats taken e := by
  cases he : raw.entry hk with
  | none =>
    obtain ⟨err, hzone, hkind⟩ := compileZone_of_entry_none he seen
    simp only [hzone, reduceCtorEq, false_and, exists_false, iff_false]
    rintro ⟨v, line, -, herr⟩
    exact hkind line (congrArg ConfigError.kind (Except.error.inj herr))
  | some e =>
    obtain ⟨v, hv, hresult⟩ := compileZone_entry he seen
    have hkeys := h.lookup_networks e.place
    have htexts := h.lookup_patterns e.text
    have hknown : (∃ d ∈ taken, d.text = e.text) ↔ ¬seen.patterns.lookup e.text = none := by
      rw [htexts]
      simp
    constructor
    · rintro ⟨v', line, hv', hzone⟩
      obtain rfl := Option.some.inj (hv.symm.trans hv')
      rw [hzone] at hresult
      refine ⟨e, rfl, ?_⟩
      generalize hrep : v.error (.duplicateForwardPattern line) = err at hresult
      cases hresult with
      | network line' hseen =>
        exact absurd (congrArg ConfigError.kind hrep) (by simp)
      | pattern line' hfree hseen =>
        exact ⟨hkeys.mp hfree, hknown.mpr (by simp [hseen])⟩
      | upstream u hfree hnew hsound =>
        exact absurd (congrArg ConfigError.kind hrep) (by simp)
    · rintro ⟨f, hf, hfree, hrep⟩
      obtain rfl := Option.some.inj hf
      have hnew := hkeys.mpr hfree
      have hseen := hknown.mp hrep
      generalize hr : compileZone hk raw seen = result at hresult
      cases hresult with
      | network line hline => rw [hnew] at hline; cases hline
      | pattern line hfree' hline => exact ⟨v, line, hv, rfl⟩
      | upstream u hfree' hnone hsound => exact absurd hnone hseen
      | registered z hfree' hnone hsound => exact absurd hnone hseen

end Loop

/-- **The maps after some blocks** have the keys of the entries registered in them. -/
lemma knows_seenAfter (hk : Hickory) (raws : List RawZone) :
    (seenAfter hk raws {}).Knows (Registry.registered (RawZone.entry hk) raws) := by
  have hrun : ∀ (raws : List RawZone) (seen : Seen) (taken : List PatternEntry),
      seen.Knows taken → (seenAfter hk raws seen).Knows
        (raws.foldl (Registry.register (RawZone.entry hk)) taken) := by
    intro raws
    induction raws with
    | nil => exact fun seen taken h => h
    | cons raw raws ih => exact fun seen taken h => ih _ _ (h.seenAfter_one raw)
  exact hrun raws {} [] ⟨rfl, rfl⟩

/-- The error of a block is among the errors of the file. -/
lemma mem_compileZones_of_error {hk : Hickory} {ttl : ℕ} {pre post : List RawZone} {w : RawZone}
    {seen : Seen} {err : ConfigError} (h : compileZone hk w (seenAfter hk pre seen) = .error err) :
    err ∈ (compileZones hk ttl (pre ++ w :: post) seen).2 := by
  induction pre generalizing seen with
  | nil =>
    rw [List.nil_append, compileZones, show compileZone hk w seen = .error err from h]
    exact List.mem_cons_self
  | cons raw pre ih =>
    rw [List.cons_append, compileZones]
    cases hzone : compileZone hk raw seen with
    | ok result =>
      exact ih (by simpa [seenAfter, hzone] using h)
    | error err' =>
      exact List.mem_cons_of_mem _ (ih (by simpa [seenAfter, hzone] using h))

/-- **When `DuplicateForwardPattern` is reported** for a block: its entry repeats one registered
before it. -/
lemma reportedDuplicate_iff {hk : Hickory} {input : Bytes} {pre post : List RawZone} {w : RawZone}
    (hsplit : (parse input).cfg.zones = pre ++ w :: post) :
    ReportedDuplicate hk input pre w ↔
      ∃ e, w.entry hk = some e ∧
        Registry.Repeats (Registry.registered (RawZone.entry hk) pre) e := by
  rw [← (knows_seenAfter hk pre).duplicate_iff w]
  constructor
  · rintro ⟨v, line, -, hv, hzone, -⟩
    exact ⟨v, line, hv, hzone⟩
  · rintro ⟨v, line, hv, hzone⟩
    have hmem : v.error (.duplicateForwardPattern line) ∈
        (parse input).errors ++ (compile hk (parse input).cfg).2 := by
      unfold compile
      rw [hsplit]
      simp only [List.mem_append]
      exact .inr (.inr (mem_compileZones_of_error hzone))
    refine ⟨v, line, _, hv, hzone, ?_, hmem⟩
    unfold Config.parse
    simp only
    rw [if_neg]
    rw [List.isEmpty_iff]
    exact List.ne_nil_of_mem hmem

/-- **When duplicates are detected.** No two zones of an accepted file have one matching template
iff no two values are the same but for a dot. A block of any file is reported as a duplicate iff its
entry repeats a registered one. And every block whose template is that of an earlier one is
reported, iff the file is plain: the first block of the template is sound, the value is its value up
to case, and neither network is that of a leading block before.

**Proof sketch.** The maps of the compiler are the registry of the entries, and values that are the
same up to case have one template. -/
theorem duplicates_detected_iff (hk : Hickory) (input : Bytes) :
    (∀ c, Config.parse hk input = .ok c →
      ((c.zones.Pairwise fun z w => z.fwd.folded ≠ w.fwd.folded) ↔
        c.zones.Pairwise fun z w => lower z.resolvesTo ≠ lower w.resolvesTo ++ ['.'.toUInt8] ∧
          lower w.resolvesTo ≠ lower z.resolvesTo ++ ['.'.toUInt8])) ∧
    (∀ pre w post, (parse input).cfg.zones = pre ++ w :: post →
      (ReportedDuplicate hk input pre w ↔ ∃ e, w.entry hk = some e ∧
        Registry.Repeats (Registry.registered (RawZone.entry hk) pre) e)) ∧
    ((∀ pre b mid w post e f, (parse input).cfg.zones = pre ++ b :: (mid ++ w :: post) →
      b.entry hk = some e → w.entry hk = some f → e.meaning = f.meaning →
        ReportedDuplicate hk input (pre ++ b :: mid) w) ↔
      Registry.Plain (RawZone.entry hk) (parse input).cfg.zones) := by
  refine ⟨fun c h => pairwise_folded_iff h, fun pre w post => reportedDuplicate_iff, ?_⟩
  rw [← Registry.forall_repeats_iff fun i _ j _ e f he hf => meaning_eq_of_text_eq he hf]
  constructor
  · intro hall pre b mid w post e f hsplit he hf hmean
    have hsplit' : (parse input).cfg.zones = (pre ++ b :: mid) ++ w :: post := by simp [hsplit]
    obtain ⟨f', hf', hrep⟩ := (reportedDuplicate_iff hsplit').mp
      (hall pre b mid w post e f hsplit he hf hmean)
    exact Option.some.inj (hf.symm.trans hf') ▸ hrep
  · intro hall pre b mid w post e f hsplit he hf hmean
    have hsplit' : (parse input).cfg.zones = (pre ++ b :: mid) ++ w :: post := by simp [hsplit]
    exact (reportedDuplicate_iff hsplit').mpr ⟨f, hf, hall pre b mid w post e f hsplit he hf hmean⟩

/-- One pattern twice, the second time in other letters. -/
def repeatedInput : Bytes := ofString "network 2001:db8:1::/64
    resolves to %DIGITS%.example.net
network 2001:db8:2::/64
    resolves to %digits%.Example.NET
"

/-- One pattern twice, the second time with a trailing dot. -/
def dottedInput : Bytes := ofString "network 2001:db8:1::/64
    resolves to %DIGITS%.example.net
network 2001:db8:2::/64
    resolves to %DIGITS%.example.net.
"

/-- One pattern twice, the first time with an upstream that is not an address. -/
def unsoundInput : Bytes := ofString "network 2001:db8:1::/64
    resolves to %DIGITS%.example.net
    with upstream nowhere
network 2001:db8:2::/64
    resolves to %DIGITS%.example.net
"

/-- The folded labels of both values, in each of the inputs above. -/
def exampleNetFolded : List (Bytes ⊕ (Bytes × Bytes × Bool)) :=
  [.inr ([], [], false), .inl (ofString "example"), .inl (ofString "net")]

/-- The entry of a `/64` with one of these values. -/
def exampleNetEntry (pfx : U128) : PatternEntry :=
  ⟨(pfx, 64), ofString "%digits%.example.net", exampleNetFolded, true⟩

/-- The sample has no duplicates, and a template that is repeated as it was is reported. -/
theorem duplicates_detected_repeatedInput :
    ((parsed sampleInput).zones.length = 2 ∧
      (parsed sampleInput).zones.Pairwise fun z w => z.fwd.folded ≠ w.fwd.folded) ∧
    ∃ b w, (parse repeatedInput).cfg.zones = [b, w] ∧
      ReportedDuplicate namelessHickory repeatedInput [b] w ∧
      Registry.Plain (RawZone.entry namelessHickory) (parse repeatedInput).cfg.zones := by
  obtain ⟨hpair, -, -⟩ := duplicates_detected_iff namelessHickory sampleInput
  obtain ⟨-, hreported, hplain⟩ := duplicates_detected_iff namelessHickory repeatedInput
  refine ⟨⟨by decide +kernel, (hpair _ parse_sampleInput).mpr (by decide +kernel)⟩, ?_⟩
  obtain ⟨b, w, hzones⟩ := List.length_eq_two.mp
    (show (parse repeatedInput).cfg.zones.length = 2 by decide +kernel)
  have hlast : ((parse repeatedInput).cfg.zones.drop 1).map (RawZone.entry namelessHickory) =
      [some (exampleNetEntry 0x20010db8000200000000000000000000)] := by decide +kernel
  have hfirst : Registry.registered (RawZone.entry namelessHickory)
      ((parse repeatedInput).cfg.zones.take 1) =
        [exampleNetEntry 0x20010db8000100000000000000000000] := by decide +kernel
  simp only [hzones, List.drop_succ_cons, List.drop_zero, List.map_cons, List.map_nil,
    List.cons.injEq, and_true] at hlast
  simp only [hzones, List.take_succ_cons, List.take_zero] at hfirst
  have hrep : ReportedDuplicate namelessHickory repeatedInput [b] w := by
    refine (hreported [b] w [] hzones).mpr ⟨_, hlast, ?_⟩
    rw [hfirst]
    exact ⟨by decide, by decide⟩
  refine ⟨b, w, hzones, hrep, hplain.mp ?_⟩
  intro pre b' mid w' post e f hsplit _ _ _
  rw [hzones] at hsplit
  have hlength := congrArg List.length hsplit
  simp only [List.length_append, List.length_cons, List.length_nil] at hlength
  obtain rfl : pre = [] := List.eq_nil_of_length_eq_zero (by omega)
  obtain rfl : mid = [] := List.eq_nil_of_length_eq_zero (by omega)
  obtain ⟨rfl, hrest⟩ := List.cons.inj hsplit
  obtain ⟨rfl, -⟩ := List.cons.inj hrest
  exact hrep

/-- A template repeated with a dot at its end is accepted; one repeated after a block with another
error is not reported. -/
theorem duplicates_undetected :
    (Config.parse namelessHickory dottedInput = .ok (parsed dottedInput) ∧
      (parsed dottedInput).zones.map (fun z => z.fwd.folded) =
        [exampleNetFolded, exampleNetFolded]) ∧
    ((parse unsoundInput).cfg.zones.filterMap fun raw =>
        (raw.entry namelessHickory).map Registry.Entry.meaning) =
        [exampleNetFolded, exampleNetFolded] ∧
      Config.parse namelessHickory unsoundInput = .error [
        ⟨3, ofString "    with upstream nowhere", some (18, 25), .invalidUpstreamAddress⟩] := by
  refine ⟨⟨?_, ?_⟩, ?_, ?_⟩
  · decide +kernel
  · decide +kernel
  · decide +kernel
  · decide +kernel

end PanoptiDns
