import Mathlib.Data.List.DropRight
import Millennium.Lib.Utf8

/-!
# Lines and columns

Positions in a text as source maps have them. Lines are counted from zero and end with a line
feed. A column is a number of UTF-16 code units.
-/

namespace Millennium.LineColumn

open Utf8 List

structure Position where
  line : Nat
  column : Nat
  deriving DecidableEq, Repr

def lines (text : List Char) : Nat := text.count '\n'

def lastLine (text : List Char) : List Char := text.rtakeWhile (· != '\n')

def columns (text : List Char) : Nat := (utf16 (lastLine text)).length

/-- The position is that of a code unit of the `i`th character. -/
def Designates (text : List Char) (pos : Position) (i : Nat) : Prop :=
  ∃ c k, text[i]? = some c ∧ k < (unitsOfChar c).length ∧
    pos = ⟨lines (text.take i), columns (text.take i) + k⟩

section
variable {a b : List Char}

lemma lines_append (a b : List Char) : lines (a ++ b) = lines a + lines b := count_append

lemma lines_eq_zero_iff : lines a = 0 ↔ '\n' ∉ a := count_eq_zero

lemma lastLine_of_getLast (h : a.getLast? = some '\n') : lastLine a = [] := by
  obtain ⟨before, rfl⟩ := getLast?_eq_some_iff.mp h
  exact rtakeWhile_concat_neg _ _ _ (by decide)

lemma lastLine_append_of_not_mem (a : List Char) (h : '\n' ∉ b) :
    lastLine (a ++ b) = lastLine a ++ b := by
  induction b using List.reverseRecOn with
  | nil => rw [append_nil, append_nil]
  | append_singleton b c ih =>
    rw [mem_append, not_or, mem_singleton] at h
    have hc : (c != '\n') = true := bne_iff_ne.mpr (Ne.symm h.2)
    rw [← append_assoc, ← append_assoc, ← ih h.1]
    exact rtakeWhile_concat_pos _ _ c hc

lemma lastLine_append_of_mem (a : List Char) (h : '\n' ∈ b) : lastLine (a ++ b) = lastLine b := by
  induction b using List.reverseRecOn with
  | nil => exact absurd h not_mem_nil
  | append_singleton b c ih =>
    rw [← append_assoc]
    by_cases hc : c = '\n'
    · have hstop : ¬ (c != '\n') = true := by simp [hc]
      exact (rtakeWhile_concat_neg _ _ c hstop).trans
        (rtakeWhile_concat_neg _ _ c hstop).symm
    · have hmem : '\n' ∈ b := by
        rcases mem_append.mp h with hb | hlast
        · exact hb
        · exact absurd (mem_singleton.mp hlast).symm hc
      have hgo : (c != '\n') = true := bne_iff_ne.mpr hc
      rw [lastLine, lastLine, rtakeWhile_concat_pos _ _ c hgo, rtakeWhile_concat_pos _ _ c hgo]
      exact congrArg (· ++ [c]) (ih hmem)

lemma columns_append_of_not_mem (a : List Char) (h : '\n' ∉ b) :
    columns (a ++ b) = columns a + (utf16 b).length := by
  rw [columns, lastLine_append_of_not_mem a h, utf16, flatMap_append, length_append]
  rfl

lemma columns_append_of_mem (a : List Char) (h : '\n' ∈ b) : columns (a ++ b) = columns b := by
  rw [columns, lastLine_append_of_mem a h, columns]

end

lemma length_unitsOfChar (c : Char) : (unitsOfChar c).length = 1 ∨ (unitsOfChar c).length = 2 := by
  rw [unitsOfChar]
  split_ifs
  · exact Or.inl rfl
  · exact Or.inr rfl

lemma length_le_encode (text : List Char) : text.length ≤ (encode text).length := by
  induction text with
  | nil => exact Nat.le_refl 0
  | cons c rest ih =>
    have hpos : 0 < (String.utf8EncodeChar c).length :=
      length_pos_iff.mpr String.utf8EncodeChar_ne_nil
    rw [encode_cons, length_append, length_cons]
    omega

lemma lines_le (text : List Char) : lines text ≤ (encode text).length :=
  count_le_length.trans (length_le_encode text)

lemma columns_le_lastLine (text : List Char) : columns text ≤ (encode (lastLine text)).length :=
  length_utf16_le _

lemma encode_lastLine_le (text : List Char) :
    (encode (lastLine text)).length ≤ (encode text).length := by
  obtain ⟨before, hbefore⟩ : lastLine text <:+ text := rtakeWhile_suffix _ _
  have hlen := congrArg (fun s => (encode s).length) hbefore
  simp only [encode_append, length_append] at hlen
  omega

lemma Designates.lt {text : List Char} {pos : Position} {i : Nat} (h : Designates text pos i) :
    pos.line < (encode text).length ∧ pos.column < (encode text).length := by
  obtain ⟨c, k, hc, hk, rfl⟩ := h
  have hsplit : text = text.take i ++ [c] ++ text.drop (i + 1) := by
    rw [append_assoc, singleton_append, ← (List.getElem?_eq_some_iff.mp hc).2,
      getElem_cons_drop, take_append_drop]
  have hlen := congrArg (fun s => (encode s).length) hsplit
  simp only [encode_append, length_append] at hlen
  have hunits : (unitsOfChar c).length ≤ (encode [c]).length := by
    simpa [utf16] using length_utf16_le [c]
  have hlines := lines_le (text.take i)
  have hcolumns := (columns_le_lastLine (text.take i)).trans (encode_lastLine_le _)
  dsimp only
  omega

lemma designates_middle_iff {before part after : List Char} {pos : Position} {i : Nat}
    (hi : i < part.length) :
    Designates (before ++ part ++ after) pos (before.length + i) ↔
    ∃ c k, part[i]? = some c ∧ k < (unitsOfChar c).length ∧
    pos = ⟨lines before + lines (part.take i), columns (before ++ part.take i) + k⟩ := by
  have hget : (before ++ part ++ after)[before.length + i]? = part[i]? := by
    rw [append_assoc, getElem?_append_right (Nat.le_add_right _ _),
      Nat.add_sub_cancel_left, getElem?_append_left hi]
  have htake : (before ++ part ++ after).take (before.length + i) = before ++ part.take i := by
    rw [append_assoc, take_length_add_append, take_append_of_le_length hi.le]
  rw [Designates, hget, htake, lines_append]

end Millennium.LineColumn
