import PanoptiDns.Lib.ByteString

set_option relaxedAutoImplicit false
set_option autoImplicit false

/-!
# Cutting and folding UTF-8

Where a valid UTF-8 text can be cut so that both parts are valid, and that ASCII case folding does
not affect validity.

## Main results

* `Bytes.isUtf8_append` — a cut before a byte that starts a character.
* `Bytes.isUtf8_append_cons` — a cut after an ASCII byte.
* `Bytes.strSplitAtChecked_append` — a checked split before a valid text succeeds.
* `Bytes.isUtf8_lower` — lowercasing.
-/

namespace Bytes

/-- The second byte of a longer character is a continuation byte. -/
lemma isContinuation_of_isUtf8 {a b : UInt8} {s : Bytes} (ha : ¬ a < 0x80)
    (h : isUtf8 (a :: b :: s) = true) : isContinuation b = true := by
  have hbyte : ∀ lo hi : UInt8, 0x80 ≤ lo → hi ≤ 0xBF → lo ≤ b → b ≤ hi →
      isContinuation b = true := by
    intro lo hi hlo hhi hlob hbhi
    simp [isContinuation, UInt8.le_trans hlo hlob, UInt8.le_trans hbhi hhi]
  rw [isUtf8.eq_def] at h
  simp only [ha, if_false] at h
  split at h
  · exact (Bool.and_eq_true _ _ ▸ h).1
  · split at h
    · cases h
    · split at h
      · rename_i hlead
        simp only [Bool.or_eq_true, Bool.and_eq_true, beq_iff_eq, decide_eq_true_eq] at hlead
        rcases hlead with ((⟨⟨-, hlo⟩, hhi⟩ | ⟨-, hb⟩) | ⟨⟨-, hlo⟩, hhi⟩) | ⟨-, hb⟩
        · exact hbyte _ _ (by decide) (by decide) hlo hhi
        · exact hb
        · exact hbyte _ _ (by decide) (by decide) hlo hhi
        · exact hb
      · split at h
        · cases h
        · simp only [Bool.or_eq_true, Bool.and_eq_true, beq_iff_eq, decide_eq_true_eq] at h
          rcases h.1.1.1 with (⟨⟨-, hlo⟩, hhi⟩ | ⟨-, hb⟩) | ⟨⟨-, hlo⟩, hhi⟩
          · exact hbyte _ _ (by decide) (by decide) hlo hhi
          · exact hb
          · exact hbyte _ _ (by decide) (by decide) hlo hhi

/-- **A cut before a byte that starts a character** cuts between characters. -/
lemma isUtf8_append {s t : Bytes} (h : isUtf8 (s ++ t) = true)
    (ht : ∀ b ∈ t.head?, isContinuation b = false) : isUtf8 s = true ∧ isUtf8 t = true := by
  have hcut : ∀ b t', t = b :: t' → ¬ isContinuation b = true := by
    rintro b t' rfl
    simp [ht b rfl]
  fun_induction isUtf8 s with
  | case1 => exact ⟨rfl, h⟩
  | case2 a s ha ih =>
    rw [List.cons_append, isUtf8.eq_def] at h
    simp only [ha, if_true] at h
    exact ih h
  | case3 a ha =>
    cases t with
    | nil => simp [isUtf8, ha] at h
    | cons b t => exact absurd (isContinuation_of_isUtf8 ha h) (hcut b t rfl)
  | case4 a ha b s hlead ih =>
    rw [List.cons_append, isUtf8.eq_def] at h
    simp only [ha, if_false, List.cons_append, hlead, if_true, Bool.and_eq_true] at h
    obtain ⟨hb, hs⟩ := h
    simp [hb, ih hs]
  | case5 a ha b hlead =>
    cases t with
    | nil => simp [isUtf8, ha, hlead] at h
    | cons c t =>
      have hc := hcut c t rfl
      rw [List.cons_append, isUtf8.eq_def] at h
      simp only [ha, if_false, List.cons_append, hlead, Bool.false_eq_true, List.nil_append] at h
      split at h
      · simp [hc] at h
      · split at h
        · cases h
        · simp [hc] at h
  | case6 a ha b hlead c s hlead3 ih =>
    rw [List.cons_append, isUtf8.eq_def] at h
    simp only [ha, if_false, List.cons_append, hlead, Bool.false_eq_true, hlead3, if_true,
      Bool.and_eq_true] at h
    obtain ⟨hc, hs⟩ := h
    simp [hc, ih hs]
  | case7 a ha b hlead c hlead3 =>
    rw [List.cons_append, isUtf8.eq_def] at h
    simp only [ha, if_false, List.cons_append, hlead, hlead3, Bool.false_eq_true,
      List.nil_append] at h
    cases t with
    | nil => cases h
    | cons d t => simp [hcut d t rfl] at h
  | case8 a ha b hlead c hlead3 d s ih =>
    rw [List.cons_append, isUtf8.eq_def] at h
    simp only [ha, if_false, List.cons_append, hlead, hlead3, Bool.false_eq_true,
      Bool.and_eq_true] at h
    obtain ⟨hbcd, hs⟩ := h
    obtain ⟨hutf8, hrest⟩ := ih hs
    refine ⟨?_, hrest⟩
    simp only [Bool.and_eq_true]
    exact ⟨hbcd, hutf8⟩

/-- An ASCII byte is no continuation byte. -/
lemma isContinuation_ascii {b : UInt8} (hb : b < 0x80) : isContinuation b = false := by
  unfold isContinuation
  grind

/-- An ASCII byte is a character of its own. -/
lemma isUtf8_cons_ascii {a : UInt8} (ha : a < 0x80) (s : Bytes) : isUtf8 (a :: s) = isUtf8 s := by
  rw [isUtf8.eq_def]
  simp only [ha, if_true]

/-- **A cut after an ASCII byte** cuts between characters. -/
lemma isUtf8_append_cons {s t : Bytes} {a : UInt8} (ha : a < 0x80)
    (h : isUtf8 (s ++ a :: t) = true) : isUtf8 s = true ∧ isUtf8 t = true := by
  have hstart : ∀ b ∈ (a :: t).head?, isContinuation b = false := by
    rintro b hb
    obtain rfl := Option.some.inj hb
    exact isContinuation_ascii ha
  obtain ⟨hs, hrest⟩ := isUtf8_append h hstart
  exact ⟨hs, by rwa [isUtf8_cons_ascii ha] at hrest⟩

/-- ASCII text in front does not matter. -/
lemma isUtf8_ascii_append {s : Bytes} (hs : ∀ b ∈ s, b < 0x80) (t : Bytes) :
    isUtf8 (s ++ t) = isUtf8 t := by
  induction s with
  | nil => rfl
  | cons a s ih =>
    rw [List.cons_append, isUtf8_cons_ascii (hs a (by simp)), ih fun b hb => hs b (by simp [hb])]

/-- A valid text does not start inside a character. -/
lemma head_of_isUtf8 {s : Bytes} (h : isUtf8 s = true) :
    ∀ b ∈ s.head?, isContinuation b = false := by
  intro b hb
  rw [← Bool.not_eq_true]
  intro hcont
  obtain ⟨s, rfl⟩ := List.head?_eq_some_iff.mp hb
  rw [isUtf8.eq_def] at h
  -- a continuation byte is none of the bytes that start a character
  obtain ⟨h80, hC2, hE1, hF1, hE0, hED, hEE, hEF, hF0, hF4⟩ : ¬b < 0x80 ∧ ¬0xC2 ≤ b ∧ ¬0xE1 ≤ b ∧
      ¬0xF1 ≤ b ∧ (b == 0xE0) = false ∧ (b == 0xED) = false ∧ (b == 0xEE) = false ∧
      (b == 0xEF) = false ∧ (b == 0xF0) = false ∧ (b == 0xF4) = false := by
    unfold isContinuation at hcont
    grind
  simp only [h80, hC2, hE1, hF1, hE0, hED, hEE, hEF, hF0, hF4, if_false, decide_false,
    Bool.false_and, Bool.or_false, Bool.false_eq_true] at h
  split at h
  · cases h
  · split at h
    · cases h
    · split at h
      · cases h
      · cases h

/-- **A checked split before a valid text** succeeds. -/
lemma strSplitAtChecked_append (s : Bytes) {t : Bytes} (ht : isUtf8 t = true) :
    strSplitAtChecked (s ++ t) s.length = some (s, t) := by
  have hboundary : isCharBoundary (s ++ t) s.length = true := by
    unfold isCharBoundary
    cases t with
    | nil => simp
    | cons b t => simp [head_of_isUtf8 ht b rfl]
  rw [strSplitAtChecked, if_pos hboundary]
  exact splitAtChecked_eq_some.mpr ⟨rfl, rfl⟩

section Case

variable (b : UInt8) {c : UInt8} (hc : 0x80 ≤ c)

include hc in
/-- A bound beyond ASCII is not crossed from below. -/
lemma le_lowerByte : c ≤ lowerByte b ↔ c ≤ b := by
  unfold lowerByte
  split_ifs with hb
  · simp only [UInt8.le_iff_toNat_le, UInt8.toNat_add] at hc hb ⊢
    have h32 : (32 : UInt8).toNat = 32 := rfl
    have h65 : (65 : UInt8).toNat = 65 := rfl
    have h90 : (90 : UInt8).toNat = 90 := rfl
    have h128 : (0x80 : UInt8).toNat = 128 := rfl
    omega
  · rfl

include hc in
/-- A bound beyond ASCII is not crossed from above. -/
lemma lowerByte_le : lowerByte b ≤ c ↔ b ≤ c := by
  unfold lowerByte
  split_ifs with hb
  · simp only [UInt8.le_iff_toNat_le, UInt8.toNat_add] at hc hb ⊢
    have h32 : (32 : UInt8).toNat = 32 := rfl
    have h65 : (65 : UInt8).toNat = 65 := rfl
    have h90 : (90 : UInt8).toNat = 90 := rfl
    have h128 : (0x80 : UInt8).toNat = 128 := rfl
    omega
  · rfl

/-- The fold keeps ASCII apart from the rest. -/
lemma lowerByte_ascii : lowerByte b < 0x80 ↔ b < 0x80 := by
  rw [← UInt8.not_le, ← UInt8.not_le, le_lowerByte b (by decide)]

end Case

/-- The fold leaves a byte alone that is not ASCII. -/
lemma lowerByte_of_not_ascii {a : UInt8} (ha : ¬ a < 0x80) : lowerByte a = a := by
  have hle : (0x80 : UInt8) ≤ a := UInt8.not_lt.mp ha
  rw [lowerByte, if_neg]
  rintro ⟨-, h90⟩
  exact absurd (UInt8.le_trans hle h90) (by decide)

/-- Continuation bytes stay what they are. -/
@[simp] lemma isContinuation_lowerByte (b : UInt8) :
    isContinuation (lowerByte b) = isContinuation b := by
  simp only [isContinuation, le_lowerByte b (c := 0x80) (by decide),
    lowerByte_le b (c := 0xBF) (by decide)]

/-- Lowercasing a text does not touch its longer characters. -/
@[simp] lemma isUtf8_lower (s : Bytes) : isUtf8 (lower s) = isUtf8 s := by
  have hle : ∀ b : UInt8, (0xA0 ≤ lowerByte b ↔ 0xA0 ≤ b) ∧ (0x80 ≤ lowerByte b ↔ 0x80 ≤ b) ∧
      (0x90 ≤ lowerByte b ↔ 0x90 ≤ b) ∧ (lowerByte b ≤ 0xBF ↔ b ≤ 0xBF) ∧
      (lowerByte b ≤ 0x9F ↔ b ≤ 0x9F) ∧ (lowerByte b ≤ 0x8F ↔ b ≤ 0x8F) := fun b =>
    ⟨le_lowerByte b (by decide), le_lowerByte b (by decide), le_lowerByte b (by decide),
      lowerByte_le b (by decide), lowerByte_le b (by decide), lowerByte_le b (by decide)⟩
  fun_induction isUtf8 s with
  | case1 => rfl
  | case2 a s ha ih =>
    rw [lower_cons, isUtf8_cons_ascii ((lowerByte_ascii a).mpr ha), ih]
  | case3 a ha =>
    simp [isUtf8, lowerByte_of_not_ascii ha, ha]
  | case4 a ha b s hlead ih =>
    rw [lower_cons, lower_cons, isUtf8.eq_def]
    simp only [lowerByte_of_not_ascii ha, ha, if_false, hlead, if_true, isContinuation_lowerByte,
      ih]
  | case5 a ha b hlead =>
    simp [isUtf8, lowerByte_of_not_ascii ha, ha, hlead]
  | case6 a ha b hlead c s hlead3 ih =>
    rw [lower_cons, lower_cons, lower_cons, isUtf8.eq_def]
    simp only [lowerByte_of_not_ascii ha, ha, if_false, hlead, Bool.false_eq_true, hle,
      isContinuation_lowerByte, hlead3, if_true, ih]
  | case7 a ha b hlead c hlead3 =>
    rw [lower_cons, lower_cons, lower_cons, isUtf8.eq_def]
    simp only [lowerByte_of_not_ascii ha, ha, if_false, hlead, Bool.false_eq_true, hle,
      isContinuation_lowerByte, hlead3, lower_nil]
  | case8 a ha b hlead c hlead3 d s ih =>
    rw [lower_cons, lower_cons, lower_cons, lower_cons, isUtf8.eq_def]
    simp only [lowerByte_of_not_ascii ha, ha, if_false, hlead, Bool.false_eq_true, hle,
      isContinuation_lowerByte, hlead3, ih]

end Bytes
