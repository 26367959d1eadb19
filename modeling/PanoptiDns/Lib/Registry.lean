import Mathlib.Data.List.Induction
import Mathlib.Tactic.Common

set_option relaxedAutoImplicit false
set_option autoImplicit false

/-!
# First come, first registered

Items are read in order. Some of them stand for an entry, with a place, a text and a meaning. An
entry is registered if nothing else is wrong with it and neither its place nor its text is taken;
it is reported as a repetition if its place is free but its text is known. The report is meant to
find entries of one meaning, and texts are only a proxy for that: two texts can mean the same, and
an entry that was not registered is not known.

## Main definitions

* `Registry.Entry`, `Registry.registered` — the entries, and those that get registered.
* `Registry.Repeats` — the reported entries.
* `Registry.Leads` — the first sound entry of a meaning.
* `Registry.Plain` — the lists in which every repeated meaning is a repeated text in a free place.

## Main results

* `Registry.mem_registered_iff` — what is registered, while repeated meanings have known texts.
* `Registry.forall_repeats_iff` — every repeated meaning is reported iff the list is plain.
-/

namespace Registry

variable {ι κ τ φ : Type}

/-- **An entry**: it takes a place and a text, it has a meaning, and it may be unsound for a reason
of its own. -/
structure Entry (κ τ φ : Type) where
  place : κ
  text : τ
  meaning : φ
  sound : Bool
  deriving DecidableEq

/-- **A reported entry**: its place is free, but its text is known. -/
structure Repeats (taken : List (Entry κ τ φ)) (e : Entry κ τ φ) : Prop where
  free : ∀ d ∈ taken, d.place ≠ e.place
  known : ∃ d ∈ taken, d.text = e.text

section Reading

variable [DecidableEq κ] [DecidableEq τ] (entry : ι → Option (Entry κ τ φ))

/-- The registered entries after one more item. -/
def register (taken : List (Entry κ τ φ)) (i : ι) : List (Entry κ τ φ) :=
  match entry i with
  | none => taken
  | some e =>
    if e.sound && taken.all fun d => d.place ≠ e.place && d.text ≠ e.text then e :: taken else taken

/-- **The registered entries** of a list of items. -/
def registered (l : List ι) : List (Entry κ τ φ) := l.foldl (register entry) []

end Reading

section Meaning

variable (entry : ι → Option (Entry κ τ φ))

/-- An item stands for an entry of this meaning. -/
def Means (m : φ) (i : ι) : Prop := ∃ d, entry i = some d ∧ d.meaning = m

/-- **A leading entry**: sound, and the first of its meaning. -/
structure Leads (pre : List ι) (e : Entry κ τ φ) : Prop where
  sound : e.sound = true
  first : ∀ i ∈ pre, ¬Means entry e.meaning i

/-- A leading entry of the list has this place. -/
def Claimed (l : List ι) (p : κ) : Prop :=
  ∃ pre i post e, l = pre ++ i :: post ∧ entry i = some e ∧ Leads entry pre e ∧ e.place = p

/-- **A plain list**: of two entries of one meaning, the first of them all is sound, the later one
has its text, and both places are free of the leading entries before. -/
def Plain (l : List ι) : Prop :=
  ∀ pre i mid j post e f, l = pre ++ i :: (mid ++ j :: post) → entry i = some e →
    entry j = some f → e.meaning = f.meaning → (∀ h ∈ pre, ¬Means entry e.meaning h) →
      e.sound = true ∧ e.text = f.text ∧ ¬Claimed entry pre e.place ∧
        ¬Claimed entry (pre ++ i :: mid) f.place

/-- A leading entry whose place no leading entry before it has. -/
def Settled (l : List ι) (e : Entry κ τ φ) : Prop :=
  ∃ pre i post, l = pre ++ i :: post ∧ entry i = some e ∧ Leads entry pre e ∧
    ¬Claimed entry pre e.place

variable {entry}

/-- **The first** of the items with a property is at one position of the list. -/
lemma eq_of_first {P : ι → Prop} {pre pre' post post' : List ι} {i i' : ι}
    (h : pre ++ i :: post = pre' ++ i' :: post') (hi : P i) (hi' : P i')
    (hpre : ∀ x ∈ pre, ¬P x) (hpre' : ∀ x ∈ pre', ¬P x) : pre = pre' ∧ i = i' := by
  rcases List.append_eq_append_iff.mp h with ⟨mid, rfl, hmid⟩ | ⟨mid, rfl, hmid⟩
  · cases mid with
    | nil => exact ⟨by simp, (List.cons.inj hmid).1⟩
    | cons x mid =>
      obtain ⟨rfl, -⟩ := List.cons.inj hmid
      exact absurd hi (hpre' i (by simp))
  · cases mid with
    | nil => exact ⟨by simp, (List.cons.inj hmid).1.symm⟩
    | cons x mid =>
      obtain ⟨rfl, -⟩ := List.cons.inj hmid
      exact absurd hi' (hpre i' (by simp))

/-- A list that has a meaning has a first item of it. -/
lemma exists_first {m : φ} {l : List ι} (h : ∃ i ∈ l, Means entry m i) :
    ∃ pre i post e, l = pre ++ i :: post ∧ entry i = some e ∧ e.meaning = m ∧
      ∀ x ∈ pre, ¬Means entry m x := by
  induction l with
  | nil => simp at h
  | cons x l ih =>
    by_cases hx : Means entry m x
    · obtain ⟨d, hd, hm⟩ := hx
      exact ⟨[], x, l, d, rfl, hd, hm, by simp⟩
    · obtain ⟨i, hi, hmeans⟩ := h
      have hrest : i ∈ l := (List.mem_cons.mp hi).resolve_left fun heq => hx (heq ▸ hmeans)
      obtain ⟨pre, j, post, e, rfl, hj, hm, hfirst⟩ := ih ⟨i, hrest, hmeans⟩
      exact ⟨x :: pre, j, post, e, rfl, hj, hm, List.forall_mem_cons.mpr ⟨hx, hfirst⟩⟩

/-- The leading entries of a longer list. -/
lemma settled_concat {l : List ι} {a : ι} {e : Entry κ τ φ} :
    Settled entry (l ++ [a]) e ↔
      Settled entry l e ∨ (entry a = some e ∧ Leads entry l e ∧ ¬Claimed entry l e.place) := by
  constructor
  · rintro ⟨pre, i, post, hsplit, hi, hleads, hfree⟩
    rcases List.eq_nil_or_concat post with rfl | ⟨post, b, rfl⟩
    · obtain ⟨rfl, hlast⟩ := List.append_inj' hsplit rfl
      obtain ⟨rfl, -⟩ := List.cons.inj hlast
      exact .inr ⟨hi, hleads, hfree⟩
    · have hsplit' : l ++ [a] = (pre ++ i :: post) ++ [b] := by simp [hsplit]
      obtain ⟨rfl, -⟩ := List.append_inj' hsplit' rfl
      exact .inl ⟨pre, i, post, rfl, hi, hleads, hfree⟩
  · rintro (⟨pre, i, post, rfl, h⟩ | h)
    · exact ⟨pre, i, post ++ [a], by simp, h⟩
    · exact ⟨l, a, [], rfl, h⟩

/-- **A claimed place is settled**: the first to claim it has it.

**Proof sketch.** Induction on the length: either no leading entry before claims the place, or the
part of the list before is a shorter one that claims it. -/
lemma exists_settled_of_claimed {l : List ι} {p : κ} (h : Claimed entry l p) :
    ∃ e, Settled entry l e ∧ e.place = p := by
  induction hn : l.length using Nat.strongRecOn generalizing l with
  | ind n ih =>
    obtain ⟨pre, i, post, e, rfl, hi, hleads, rfl⟩ := h
    by_cases hclaimed : Claimed entry pre e.place
    · obtain ⟨d, ⟨pre', j, post', rfl, hd⟩, hplace⟩ :=
        ih pre.length (by simp [← hn]) hclaimed rfl
      exact ⟨d, ⟨pre', j, post' ++ i :: post, by simp, hd⟩, hplace⟩
    · exact ⟨e, ⟨pre, i, post, rfl, hi, hleads, hclaimed⟩, rfl⟩

/-- **A place is claimed** iff an entry is settled there. -/
lemma claimed_iff {l : List ι} {p : κ} :
    Claimed entry l p ↔ ∃ e, Settled entry l e ∧ e.place = p := by
  constructor
  · exact exists_settled_of_claimed
  · rintro ⟨e, ⟨pre, i, post, rfl, hi, hleads, -⟩, rfl⟩
    exact ⟨pre, i, post, e, rfl, hi, hleads, rfl⟩

end Meaning

/-! ## What is registered -/

section Registered

variable [DecidableEq κ] [DecidableEq τ] {entry : ι → Option (Entry κ τ φ)}

/-- An item registers its entry, if that is sound and its place and text are free. -/
lemma mem_register_iff {taken : List (Entry κ τ φ)} {i : ι} {e : Entry κ τ φ} :
    e ∈ register entry taken i ↔ e ∈ taken ∨ (entry i = some e ∧ e.sound = true ∧
      (∀ d ∈ taken, d.place ≠ e.place) ∧ ∀ d ∈ taken, d.text ≠ e.text) := by
  unfold register
  cases hi : entry i with
  | none => simp
  | some a =>
    simp only [Bool.and_eq_true, List.all_eq_true, decide_eq_true_eq, Option.some.injEq]
    split
    · rename_i h
      rw [List.mem_cons]
      constructor
      · rintro (rfl | he)
        · exact .inr ⟨rfl, h.1, fun d hd => (h.2 d hd).1, fun d hd => (h.2 d hd).2⟩
        · exact .inl he
      · rintro (he | ⟨rfl, -⟩)
        · exact .inr he
        · exact .inl rfl
    · rename_i h
      constructor
      · exact .inl
      · rintro (he | ⟨rfl, hsound, hplace, htext⟩)
        · exact he
        · exact absurd ⟨hsound, fun d hd => ⟨hplace d hd, htext d hd⟩⟩ h

variable {l : List ι}
  (htext : ∀ i ∈ l, ∀ j ∈ l, ∀ e f, entry i = some e → entry j = some f → e.text = f.text →
    e.meaning = f.meaning)

include htext

/-- **What is registered**, as long as an entry of a repeated meaning has a known text: the leading
entries, each in the place it is the first to claim.

**Proof sketch.** Induction on the items read. A further entry that leads is registered iff its
place is not claimed; its text is new, since texts have one meaning. One that does not lead is
either unsound or has a known text. -/
lemma mem_registered_iff
    (hknown : ∀ pre a post e, l = pre ++ a :: post →
      (∀ d, d ∈ registered entry pre ↔ Settled entry pre d) → entry a = some e →
        (∃ h ∈ pre, Means entry e.meaning h) → ∃ d ∈ registered entry pre, d.text = e.text)
    {pre post : List ι} (hsplit : l = pre ++ post) (e : Entry κ τ φ) :
    e ∈ registered entry pre ↔ Settled entry pre e := by
  induction pre using List.reverseRecOn generalizing post e with
  | nil => simp [registered, Settled]
  | append_singleton pre a ih =>
    rw [List.append_assoc, List.singleton_append] at hsplit
    have hpre := ih hsplit
    have hfold : registered entry (pre ++ [a]) = register entry (registered entry pre) a := by
      simp [registered]
    rw [hfold, mem_register_iff, settled_concat, hpre]
    refine or_congr Iff.rfl (and_congr_right fun ha => ?_)
    have hplace : (∀ d ∈ registered entry pre, d.place ≠ e.place) ↔
        ¬Claimed entry pre e.place := by
      rw [claimed_iff]
      simp only [hpre, not_exists, not_and]
    rw [hplace]
    constructor
    · rintro ⟨hsound, hfree, hnew⟩
      refine ⟨⟨hsound, fun h hh hmeans => ?_⟩, hfree⟩
      obtain ⟨d, hd, heq⟩ := hknown pre a post e hsplit hpre ha ⟨h, hh, hmeans⟩
      exact hnew d hd heq
    · rintro ⟨hleads, hfree⟩
      refine ⟨hleads.sound, hfree, fun d hd heq => ?_⟩
      obtain ⟨pre', h, post', rfl, hh, -, -⟩ := (hpre d).mp hd
      exact hleads.first h (by simp)
        ⟨d, hh, htext h (by simp [hsplit]) a (by simp [hsplit]) d e hh ha heq⟩

/-- **Every repeated meaning is reported** iff the list is plain. -/
theorem forall_repeats_iff :
    (∀ pre i mid j post e f, l = pre ++ i :: (mid ++ j :: post) → entry i = some e →
      entry j = some f → e.meaning = f.meaning →
        Repeats (registered entry (pre ++ i :: mid)) f) ↔ Plain entry l := by
  constructor
  · intro hall pre i mid j post e f hsplit hi hj hmean hfirst
    have hsplit' : l = (pre ++ i :: mid) ++ j :: post := by simp [hsplit]
    -- an entry of a repeated meaning is reported, so that its text is known
    have hreg := mem_registered_iff htext (fun pre a post e hsplit _ ha ⟨h, hh, d, hd, hdm⟩ => by
      obtain ⟨before, after, rfl⟩ := List.append_of_mem hh
      exact (hall before h after a post d e (by simp [hsplit]) hd ha hdm).known) hsplit'
    obtain ⟨hfree, d, hd, htexts⟩ := hall pre i mid j post e f hsplit hi hj hmean
    obtain ⟨pre', h, post', hsplit'', hh, hleads, hclaimed⟩ := (hreg d).mp hd
    have hmem : h ∈ l := by
      rw [hsplit', hsplit'']
      simp
    have hdm : d.meaning = f.meaning := htext h hmem j (by simp [hsplit]) d f hh hj htexts
    have hdfirst := hleads.first
    rw [hdm, ← hmean] at hdfirst
    -- so the known text is that of the first one
    obtain ⟨rfl, rfl⟩ := eq_of_first (P := Means entry e.meaning) hsplit'' ⟨e, hi, rfl⟩
      ⟨d, hh, hdm.trans hmean.symm⟩ hfirst hdfirst
    obtain rfl := Option.some.inj (hi.symm.trans hh)
    refine ⟨hleads.sound, htexts, hclaimed, ?_⟩
    rw [claimed_iff]
    rintro ⟨d, hd, hplace⟩
    exact hfree d ((hreg d).mpr hd) hplace
  · intro hplain pre i mid j post e f hsplit hi hj hmean
    have hsplit' : l = (pre ++ i :: mid) ++ j :: post := by simp [hsplit]
    -- the first entry of a repeated meaning is settled, under the text of the others
    have hlead : ∀ pre a post f, l = pre ++ a :: post → entry a = some f →
        (∃ h ∈ pre, Means entry f.meaning h) → ¬Claimed entry pre f.place ∧
          ∃ e, Settled entry pre e ∧ e.text = f.text := by
      intro pre a post f hsplit ha hrep
      obtain ⟨before, i, after, e, rfl, hi, hmean, hfirst⟩ := exists_first hrep
      rw [← hmean] at hfirst
      obtain ⟨hsound, htexts, hfree, hfree'⟩ :=
        hplain before i after a post e f (by simp [hsplit]) hi ha hmean hfirst
      exact ⟨hfree', e, ⟨before, i, after, rfl, hi, ⟨hsound, hfirst⟩, hfree⟩, htexts⟩
    have hreg := mem_registered_iff htext (fun pre a post e hsplit hpre ha hrep => by
      obtain ⟨-, d, hd, heq⟩ := hlead pre a post e hsplit ha hrep
      exact ⟨d, (hpre d).mpr hd, heq⟩) hsplit'
    obtain ⟨hfree, d, hd, htexts⟩ := hlead (pre ++ i :: mid) j post f hsplit' hj
      ⟨i, by simp, e, hi, hmean⟩
    refine ⟨fun d hd hplace => hfree ?_, d, (hreg d).mpr hd, htexts⟩
    exact claimed_iff.mpr ⟨d, (hreg d).mp hd, hplace⟩

end Registered

end Registry
