import PanoptiDns.Lib.Utf8

set_option relaxedAutoImplicit false
set_option autoImplicit false

/-!
# Columns of a text

Where a terminal is after a line of UTF-8: a tab goes to the next multiple of the tab width, the
bytes of a character after its first go nowhere, and everything else goes one column on. A pad
that mirrors the tabs of a text and has a space for every other byte is as wide as the text, but
for the characters of several bytes.

## Main definitions

* `Bytes.column` — the column after a text.
* `Bytes.mirror` — the pad for a text.

## Main results

* `Bytes.column_mirror_of_ascii` — the pad is as wide as an ASCII text.
* `Bytes.column_mirror_of_noTab` — without tabs, it is wider by the continuation bytes.
* `Bytes.column_le_column_mirror` — it is never narrower.
-/

namespace Bytes

/-- The column after a byte, with tab stops `width` apart. -/
def advanceColumn (width col : ℕ) (b : UInt8) : ℕ :=
  if b = '\t'.toUInt8 then (col / width + 1) * width
  else if isContinuation b then col
  else col + 1

/-- The column after a text that starts at column `col`. -/
def column (width col : ℕ) (s : Bytes) : ℕ := s.foldl (advanceColumn width) col

/-- A pad for a text: its tabs, and a space for every other byte. -/
def mirror (s : Bytes) : Bytes :=
  s.map fun b => if b = '\t'.toUInt8 then '\t'.toUInt8 else ' '.toUInt8

variable {width : ℕ}

/-- No text, no advance. -/
@[simp]
lemma column_nil (col : ℕ) : column width col [] = col := rfl

/-- The column advances byte by byte. -/
@[simp]
lemma column_cons (col : ℕ) (b : UInt8) (s : Bytes) :
    column width col (b :: s) = column width (advanceColumn width col b) s := rfl

/-- The column after a text and another. -/
@[simp]
lemma column_append (col : ℕ) (s t : Bytes) :
    column width col (s ++ t) = column width (column width col s) t := List.foldl_append

/-- A mirrored text has as many bytes. -/
@[simp]
lemma length_mirror (s : Bytes) : (mirror s).length = s.length := List.length_map ..

/-- A concatenation is mirrored part by part. -/
@[simp]
lemma mirror_append (s t : Bytes) : mirror (s ++ t) = mirror s ++ mirror t := List.map_append

/-- Further right stays further right, or falls on the same tab stop. -/
lemma advanceColumn_mono {col col' : ℕ} (h : col ≤ col') (b : UInt8) :
    advanceColumn width col b ≤ advanceColumn width col' b := by
  unfold advanceColumn
  split
  · exact Nat.mul_le_mul_right _ (Nat.succ_le_succ (Nat.div_le_div_right h))
  · split
    · exact h
    · exact Nat.succ_le_succ h

/-- A text without tabs and without bytes that continue a character is as wide as it is long. -/
lemma column_eq_add {s : Bytes} (hs : ∀ b ∈ s, b ≠ '\t'.toUInt8 ∧ isContinuation b = false)
    (col : ℕ) : column width col s = col + s.length := by
  induction s generalizing col with
  | nil => rfl
  | cons b s ih =>
    obtain ⟨⟨htab, hcont⟩, hs⟩ := List.forall_mem_cons.mp hs
    have hstep : advanceColumn width col b = col + 1 := by
      rw [advanceColumn, if_neg htab, hcont, if_neg Bool.false_ne_true]
    rw [column_cons, hstep, ih hs, List.length_cons, Nat.add_right_comm]
    rfl

/-- The pad for a byte goes where the byte goes, unless the byte continues a character. -/
lemma advanceColumn_mirror (col : ℕ) (b : UInt8) :
    column width col (mirror [b]) =
      if isContinuation b then col + 1 else advanceColumn width col b := by
  have htab : isContinuation '\t'.toUInt8 = false := isContinuation_ascii (by decide)
  have hspace : advanceColumn width col ' '.toUInt8 = col + 1 := by
    rw [advanceColumn, if_neg (by decide), if_neg (by decide)]
  by_cases hb : b = '\t'.toUInt8
  · simp [mirror, hb, htab]
  · rw [mirror, List.map_singleton, if_neg hb, column_cons, column_nil, hspace, advanceColumn,
      if_neg hb]
    split
    · rfl
    · rfl

/-- The column after a mirrored byte and the mirror of the rest. -/
lemma column_mirror_cons (col : ℕ) (b : UInt8) (s : Bytes) :
    column width col (mirror (b :: s)) =
      column width (column width col (mirror [b])) (mirror s) := by
  rw [← List.singleton_append, mirror_append, column_append]

/-- A text goes at least as far from further right. -/
lemma column_mono {col col' : ℕ} (h : col ≤ col') (s : Bytes) :
    column width col s ≤ column width col' s := by
  induction s generalizing col col' with
  | nil => exact h
  | cons b s ih => exact ih (advanceColumn_mono h b)

/-- **The pad is as wide as the text** if no byte of it continues a character. -/
lemma column_mirror_of_ascii {s : Bytes} (hs : ∀ b ∈ s, b < 0x80) (col : ℕ) :
    column width col (mirror s) = column width col s := by
  induction s generalizing col with
  | nil => rfl
  | cons b s ih =>
    obtain ⟨hb, hs⟩ := List.forall_mem_cons.mp hs
    rw [column_mirror_cons, advanceColumn_mirror, isContinuation_ascii hb, ih hs]
    rfl

/-- A byte that is no tab advances by the same width from everywhere. -/
lemma advanceColumn_add (col n : ℕ) {b : UInt8} (hb : b ≠ '\t'.toUInt8) :
    advanceColumn width (col + n) b = advanceColumn width col b + n := by
  simp only [advanceColumn, if_neg hb]
  split
  · rfl
  · exact Nat.add_right_comm col n 1

/-- Without tabs, a text is as wide from everywhere. -/
lemma column_add {s : Bytes} (hs : '\t'.toUInt8 ∉ s) (col n : ℕ) :
    column width (col + n) s = column width col s + n := by
  induction s generalizing col with
  | nil => rfl
  | cons b s ih =>
    obtain ⟨hb, hs⟩ := not_or.mp (mt List.mem_cons.mpr hs)
    rw [column_cons, advanceColumn_add col n (Ne.symm hb), ih hs, column_cons]

/-- **Without tabs, the pad is wider** than the text by its continuation bytes. -/
lemma column_mirror_of_noTab {s : Bytes} (hs : '\t'.toUInt8 ∉ s) (col : ℕ) :
    column width col (mirror s) = column width col s + s.countP isContinuation := by
  induction s generalizing col with
  | nil => rfl
  | cons b s ih =>
    obtain ⟨hb, hs⟩ := not_or.mp (mt List.mem_cons.mpr hs)
    rw [column_mirror_cons, advanceColumn_mirror, column_cons]
    cases hcont : isContinuation b with
    | false => rw [if_neg (by decide), ih hs, List.countP_cons_of_neg (by simp [hcont])]
    | true =>
      have hstay : advanceColumn width col b = col := by simp [advanceColumn, Ne.symm hb, hcont]
      rw [if_pos rfl, ih hs, column_add hs, hstay, List.countP_cons_of_pos hcont, add_assoc,
        add_comm 1]

/-- **The pad is never narrower** than the text. -/
lemma column_le_column_mirror (col : ℕ) (s : Bytes) :
    column width col s ≤ column width col (mirror s) := by
  induction s generalizing col with
  | nil => exact le_rfl
  | cons b s ih =>
    have hbyte : advanceColumn width col b ≤ column width col (mirror [b]) := by
      rw [advanceColumn_mirror]
      split
      · rename_i hcont
        have hb : b ≠ '\t'.toUInt8 := by
          rintro rfl
          exact absurd hcont (by decide)
        simp [advanceColumn, hb, hcont]
      · exact le_rfl
    rw [column_mirror_cons, column_cons]
    exact (column_mono hbyte s).trans (ih _)

end Bytes
