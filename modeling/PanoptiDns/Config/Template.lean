import PanoptiDns.NibbleCodec
import PanoptiDns.Config.Compile

set_option relaxedAutoImplicit false
set_option autoImplicit false

/-!
# Forward-name templates

What a `resolves to` line means once it is accepted: a `Pattern`, that is labels before the
placeholder's, the text around the placeholder, and labels after. The validator counts the
placeholders in the whole line and then splits it into labels; that the two agree is what makes
an accepted template a pattern.

## Main definitions

* `Pattern`, `Pattern.template`, `Pattern.labels` — a pattern, the template the program keeps for
  it, and the labels it renders to.
* `Pattern.WrittenAs` — the pattern is written as the given text.

## Main results

* `compileTemplate_pattern` — an accepted template is that of the pattern it is written as.
* `Pattern.validLabels_labels` — if one rendering fits the limits of DNS then all do.
-/

namespace PanoptiDns

open Bytes

/-- A literal label of a template. -/
def FwdLabel.lit (s : Bytes) : FwdLabel := .literal s (lower s)

/-- The label of the placeholder. -/
def FwdLabel.around (pre post : Bytes) (dashed : Bool) : FwdLabel :=
  .digits pre (lower pre) post (lower post) dashed

/-- The lowercase text of a placeholder. -/
def placeholderOf (dashed : Bool) : Bytes := if dashed then placeholderDashed else placeholder

/-- A forward-name pattern. -/
structure Pattern where
  before : List Bytes
  pre : Bytes
  post : Bytes
  dashed : Bool
  after : List Bytes

namespace Pattern

/-- The template the program keeps for a pattern. -/
def template (p : Pattern) : FwdTemplate where
  labels := p.before.map .lit ++ .around p.pre p.post p.dashed :: p.after.map .lit
  digitsAt := p.before.length

/-- The digits of an address as the placeholder shows them. -/
def grouped (p : Pattern) (digits : Bytes) : Bytes :=
  if p.dashed then dashJoin (digits.length / 4) digits else digits

/-- The labels of a rendered pattern. -/
def labels (p : Pattern) (digits : Bytes) : List Bytes :=
  p.before ++ (p.pre ++ p.grouped digits ++ p.post) :: p.after

/-- The pattern is written as `text`: its labels with a placeholder put back, in whatever case,
and perhaps a trailing dot. -/
def WrittenAs (p : Pattern) (text : Bytes) : Prop :=
  ∃ ph, lower ph = placeholderOf p.dashed ∧
    stripOne '.'.toUInt8 text =
      ['.'.toUInt8].intercalate (p.before ++ (p.pre ++ ph ++ p.post) :: p.after)

end Pattern

/-! ## Placeholders in segments -/

/-- The number of placeholders found in a text. -/
def hits (s : Bytes) : ℕ :=
  matchCount placeholder 0 (lower s) + matchCount placeholderDashed 0 (lower s)

/-- The dot is not the lowercase of another byte. -/
lemma lowerByte_eq_dot_iff (b : UInt8) : lowerByte b = '.'.toUInt8 ↔ b = '.'.toUInt8 :=
  lowerByte_eq_iff (by decide) (by decide) b

/-- Placeholders are counted segment by segment. -/
lemma hits_eq_sum (s : Bytes) : hits s = ((s.splitOn '.'.toUInt8).map hits).sum := by
  have hcount : ∀ pat : Bytes, '.'.toUInt8 ∉ pat → pat ≠ [] →
      matchCount pat 0 (lower s) =
        ((s.splitOn '.'.toUInt8).map fun t => matchCount pat 0 (lower t)).sum := by
    intro pat hdot hne
    rw [matchCount_splitOn hdot hne, splitOn_lower lowerByte_eq_dot_iff, List.map_map]
    rfl
  unfold hits
  rw [hcount _ (by decide) (by decide), hcount _ (by decide) (by decide), List.sum_map_add]

/-- A trailing dot holds no placeholder. -/
lemma hits_stripOne (s : Bytes) : hits (stripOne '.'.toUInt8 s) = hits s := by
  rcases stripOne_cases '.'.toUInt8 s with h | h
  · rw [← h]
  · generalize stripOne '.'.toUInt8 s = t at h
    subst h
    have hcount : ∀ pat : Bytes, '.'.toUInt8 ∉ pat → pat ≠ [] →
        matchCount pat 0 (lower (t ++ ['.'.toUInt8])) = matchCount pat 0 (lower t) := by
      intro pat hdot hne
      rw [lower_append, lower_cons, (lowerByte_eq_dot_iff _).mpr rfl, lower_nil,
        matchCount_append_cons hdot hne _ _ _ (by omega)]
      simp [matchCount]
    unfold hits
    rw [hcount _ (by decide) (by decide), hcount _ (by decide) (by decide)]

/-- A placeholder found is a placeholder counted. -/
lemma hits_pos_of_find {s : Bytes} {n : ℕ} {dashed : Bool}
    (h : find (placeholderOf dashed) (lower s) = some n) : 0 < hits s := by
  have hne : placeholderOf dashed ≠ [] := by cases dashed <;> decide
  have := (find_isSome_iff hne (lower s)).mp (by simp [h])
  unfold hits
  cases dashed with
  | true =>
    rw [placeholderOf, if_pos rfl] at this
    omega
  | false =>
    rw [placeholderOf, if_neg (by decide)] at this
    omega

/-- Splitting at a placeholder found, and again at its end, leaves the placeholder in the middle,
in whatever case it was written. -/
lemma eq_append_of_find {s : Bytes} {n : ℕ} {dashed : Bool}
    (hfind : find (placeholderOf dashed) (lower s) = some n) {pre rest ph post : Bytes}
    (h₁ : strSplitAtChecked s n = some (pre, rest))
    (h₂ : strSplitAtChecked rest (placeholderOf dashed).length = some (ph, post)) :
    s = pre ++ ph ++ post ∧ lower ph = placeholderOf dashed := by
  obtain ⟨rfl, hpre⟩ := eq_of_strSplitAtChecked h₁
  obtain ⟨rfl, hph⟩ := eq_of_strSplitAtChecked h₂
  refine ⟨by simp, ?_⟩
  obtain ⟨t, u, htu, ht⟩ := find_eq_some hfind
  rw [lower_append, lower_append, List.append_assoc] at htu
  obtain ⟨-, htail⟩ := List.append_inj htu (by simp [hpre, ht])
  exact (List.append_inj htail (by simp [hph])).1

/-- **A segment** compiles to a literal label if it has no placeholder, and otherwise to a label
around one of its placeholders. -/
lemma compileSegment_eq_ok {v : RawValue} {s : Bytes} {l : FwdLabel}
    (h : compileSegment v s = .ok l) :
    (hits s = 0 ∧ l = .lit s) ∨
      (0 < hits s ∧ ∃ pre ph post dashed, s = pre ++ ph ++ post ∧
        lower ph = placeholderOf dashed ∧ l = .around pre post dashed) := by
  unfold compileSegment at h
  cases hd : find placeholderDashed (lower s) with
  | some n =>
    simp only [hd, Option.map_some, Option.orElse_some] at h
    split at h
    · simp at h
    · rename_i pre rest hpre
      split at h
      · simp at h
      · rename_i ph post hpost
        right
        obtain ⟨hs, hph⟩ := @eq_append_of_find s n true hd _ _ _ _ hpre hpost
        exact ⟨@hits_pos_of_find s n true hd, pre, ph, post, true, hs, hph, (Except.ok.inj h).symm⟩
  | none =>
    cases hp : find placeholder (lower s) with
    | some n =>
      simp only [hd, hp, Option.map_some, Option.map_none, Option.orElse_none] at h
      split at h
      · simp at h
      · rename_i pre rest hpre
        split at h
        · simp at h
        · rename_i ph post hpost
          right
          obtain ⟨hs, hph⟩ := @eq_append_of_find s n false hp _ _ _ _ hpre hpost
          exact ⟨@hits_pos_of_find s n false hp, pre, ph, post, false, hs, hph,
            (Except.ok.inj h).symm⟩
    | none =>
      simp only [hd, hp, Option.map_none, Option.orElse_none] at h
      left
      refine ⟨?_, (Except.ok.inj h).symm⟩
      have h₁ := (find_isSome_iff (by decide : placeholderDashed ≠ []) (lower s)).not
      have h₂ := (find_isSome_iff (by decide : placeholder ≠ []) (lower s)).not
      simp only [hd, hp, Option.isSome_none, Bool.false_eq_true, not_false_eq_true, true_iff]
        at h₁ h₂
      unfold hits
      omega

/-! ## The loop over the segments -/

/-- Without a placeholder left, the loop appends literal labels. -/
lemma templateLoop_literals {v : RawValue} {segs : List Bytes} {idx : ℕ}
    {labels out : List FwdLabel} {at' at'' : Option ℕ} {dashed dashed' : Bool}
    (hhits : (segs.map hits).sum = 0)
    (h : templateLoop v segs idx labels at' dashed = .ok (out, at'', dashed')) :
    out = labels ++ segs.map .lit ∧ at'' = at' ∧ dashed' = dashed ∧ ∀ s ∈ segs, s ≠ [] := by
  induction segs generalizing idx labels with
  | nil =>
    simp only [templateLoop, Except.ok.injEq, Prod.mk.injEq] at h
    obtain ⟨rfl, rfl, rfl⟩ := h
    simp
  | cons s segs ih =>
    rw [List.map_cons, List.sum_cons] at hhits
    rw [templateLoop] at h
    split at h
    · simp at h
    · rename_i hne
      have hlit : ∀ l, compileSegment v s = .ok l → l = .lit s := by
        intro l hl
        rcases compileSegment_eq_ok hl with ⟨-, hl⟩ | ⟨hpos, -⟩
        · exact hl
        · omega
      split at h
      · simp at h
      · rename_i hseg
        cases hlit _ hseg
      · rename_i hseg
        obtain ⟨rfl, rfl⟩ := FwdLabel.literal.inj (hlit _ hseg)
        obtain ⟨rfl, h₁, h₂, hall⟩ := ih (by omega) h
        refine ⟨by simp [FwdLabel.lit], h₁, h₂, ?_⟩
        intro t ht
        rcases List.mem_cons.mp ht with rfl | ht
        · simpa using hne
        · exact hall t ht

/-- **The loop with one placeholder left** ends with a label around it.

**Proof sketch.** Induction on the segments. The one with the placeholder is the head, and the
rest are literal, or it is further on, and the head is literal. -/
lemma templateLoop_pattern {v : RawValue} {segs : List Bytes} {idx : ℕ} {labels out : List FwdLabel}
    {at' at'' : Option ℕ} {dashed dashed' : Bool} (hhits : (segs.map hits).sum = 1)
    (h : templateLoop v segs idx labels at' dashed = .ok (out, at'', dashed')) :
    ∃ p : Pattern, ∃ ph, lower ph = placeholderOf p.dashed ∧
      segs = p.before ++ (p.pre ++ ph ++ p.post) :: p.after ∧
      out = labels ++ p.template.labels ∧ at'' = some (idx + p.before.length) ∧
      dashed' = p.dashed ∧ ∀ s ∈ p.before ++ p.after, s ≠ [] := by
  induction segs generalizing idx labels at' dashed with
  | nil => simp at hhits
  | cons s segs ih =>
    rw [List.map_cons, List.sum_cons] at hhits
    rw [templateLoop] at h
    split at h
    · simp at h
    · rename_i hne
      split at h
      · simp at h
      · -- the head has the placeholder
        rename_i hseg
        rcases compileSegment_eq_ok hseg with ⟨-, hl⟩ | ⟨hpos, pre, ph, post, d, hs, hph, hl⟩
        · cases hl
        · obtain ⟨hout, hat, hdashed, hall⟩ := templateLoop_literals (by omega) h
          obtain ⟨rfl, rfl, rfl, rfl, rfl⟩ := FwdLabel.digits.inj hl
          refine ⟨⟨[], _, _, _, segs⟩, ph, hph, congrArg (· :: segs) hs, ?_, by simp [hat], hdashed,
            by simpa using hall⟩
          simp [hout, Pattern.template, FwdLabel.around]
      · -- the head is literal
        rename_i hseg
        rcases compileSegment_eq_ok hseg with ⟨hzero, hl⟩ | ⟨-, pre, ph, post, d, -, -, hl⟩
        · obtain ⟨hv, hlow⟩ := FwdLabel.literal.inj hl
          obtain ⟨p, ph, hph, hsegs, hout, hat, hdashed, hall⟩ := ih (by omega) h
          refine ⟨{ p with before := s :: p.before }, ph, hph, by simp [hsegs], ?_, ?_, hdashed, ?_⟩
          · simp [hout, hv, hlow, Pattern.template, FwdLabel.lit]
          · rw [hat, List.length_cons]
            congr 1
            omega
          · intro t ht
            rcases List.mem_cons.mp ht with rfl | ht
            · simpa using hne
            · exact hall t ht
        · cases hl

/-! ## Rendering -/

namespace Pattern

variable (p : Pattern)

/-- A template has a label for each part before and after the placeholder, and its own. -/
@[simp] lemma labelCount_template :
    p.template.labelCount = p.before.length + 1 + p.after.length := by
  simp [template, FwdTemplate.labelCount]
  omega

/-- The apex of a pattern is what follows the placeholder's label. -/
lemma parent_template : p.template.parent = Name.fromLabels p.after := by
  have hjoined : (p.after.map FwdLabel.lit).map FwdLabel.joined = p.after := by
    simp [Function.comp_def, FwdLabel.lit, FwdLabel.joined]
  have hdrop : p.template.labels.drop (p.template.digitsAt + 1) = p.after.map FwdLabel.lit := by
    rw [template, List.drop_append]
    simp
  rw [FwdTemplate.parent, hdrop, hjoined]

/-- **Rendering** ASCII digits puts them in their place. -/
lemma render_template {digits : Bytes} (hascii : ∀ b ∈ digits, b < 0x80)
    (hdashed : p.dashed = true → digits.length % 4 = 0) :
    p.template.render digits = Name.fromLabels (p.labels digits) := by
  have hlit : ∀ ls : List Bytes, (ls.map FwdLabel.lit).map (FwdLabel.render digits) = ls := by
    intro ls
    simp [Function.comp_def, FwdLabel.lit, FwdLabel.render]
  have hdigits : FwdLabel.render digits (.around p.pre p.post p.dashed) =
      p.pre ++ p.grouped digits ++ p.post := by
    unfold FwdLabel.around FwdLabel.render grouped
    cases hd : p.dashed with
    | false => simp
    | true =>
      have := hdashed hd
      simp only [if_true]
      rw [dashGroup_eq (g := digits.length / 4) (by omega) hascii]
  rw [FwdTemplate.render, template, List.map_append, List.map_cons, hlit, hlit, hdigits, labels]

/-- The length of the digits shown depends on their number only. -/
lemma length_grouped {d e : Bytes} (hlen : d.length = e.length)
    (hdashed : p.dashed = true → d.length % 4 = 0) :
    (p.grouped d).length = (p.grouped e).length := by
  unfold grouped
  split
  · rename_i hd
    have := hdashed hd
    rw [length_dashJoin (by omega), length_dashJoin (by omega), hlen]
  · exact hlen

/-- The lengths of the labels depend on the number of digits only. -/
lemma lengths_labels {d e : Bytes} (hlen : d.length = e.length)
    (hdashed : p.dashed = true → d.length % 4 = 0) :
    (p.labels d).map List.length = (p.labels e).map List.length := by
  simp [labels, p.length_grouped hlen hdashed]

/-- **One rendering fits iff all do.** -/
lemma validLabels_labels {d e : Bytes} (hlen : d.length = e.length)
    (hdashed : p.dashed = true → d.length % 4 = 0) :
    ValidLabels (p.labels d) ↔ ValidLabels (p.labels e) :=
  validLabels_of_lengths (p.lengths_labels hlen hdashed)

/-- So have the names it spells. -/
@[simp] lemma length_labels (d : Bytes) :
    (p.labels d).length = p.before.length + 1 + p.after.length := by
  simp [labels]
  omega

/-- The case-folded labels of a rendering. -/
lemma map_lower_labels (d : Bytes) :
    (p.labels d).map lower = p.before.map lower ++
      (lower p.pre ++ p.grouped (lower d) ++ lower p.post) :: p.after.map lower := by
  have hgrouped : lower (p.grouped d) = p.grouped (lower d) := by
    unfold grouped
    split
    · rw [lower_dashJoin, length_lower]
    · rfl
  simp [labels, hgrouped]

end Pattern

/-- **An accepted template** is that of a pattern written as the value, with no empty label, with
digits in whole groups if dashed, and with a rendering that fits the limits of DNS. -/
lemma compileTemplate_pattern {hk : Hickory} {v : RawValue} {n : ℕ} {t : FwdTemplate}
    (h : compileTemplate hk v n = .ok t) :
    ∃ p : Pattern, t = p.template ∧ p.WrittenAs v.value ∧ (∀ s ∈ p.before ++ p.after, s ≠ []) ∧
      (p.dashed = true → n % 4 = 0) ∧
      (p.template.render (List.replicate (min n addrNibbles) 'f'.toUInt8)).isOk = true := by
  unfold compileTemplate at h
  simp only at h
  split at h
  · simp at h
  split at h
  · simp at h
  rename_i hone
  have hsum : (((stripOne '.'.toUInt8 v.value).splitOn '.'.toUInt8).map hits).sum = 1 := by
    rw [← hits_eq_sum, hits_stripOne]
    simpa [hits] using hone
  split at h
  · simp at h
  · simp at h
  · rename_i labels at' dashed hloop
    obtain ⟨p, ph, hph, hsegs, hlabels, hat, hdashed, hall⟩ := templateLoop_pattern hsum hloop
    have htemplate : (⟨labels, at'⟩ : FwdTemplate) = p.template := by
      have hlab : labels = p.template.labels := by simpa using hlabels
      have hpos : at' = p.before.length := by simpa using hat
      rw [hlab, hpos]
      rfl
    split at h
    · simp at h
    · rename_i hmod
      rw [htemplate] at h
      split at h
      · simp at h
      · rename_i name hrender
        refine ⟨p, (Except.ok.inj h).symm, ⟨ph, hph, ?_⟩, hall, ?_, ?_⟩
        · rw [← hsegs]
          exact (List.intercalate_splitOn _).symm
        · intro hd
          simpa [hdashed, hd] using hmod
        · rw [hrender]
          rfl

end PanoptiDns
