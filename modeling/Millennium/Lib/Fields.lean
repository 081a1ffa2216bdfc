import Mathlib.Data.List.Basic

/-!
# Texts cut at a separator

A list is cut in the parts of two pieces exactly if the pieces have the separator between them, so
that the last parts of a list tell how it ends.
-/

namespace Millennium.Fields

open List

variable {α : Type*} [BEq α] [LawfulBEq α] {sep : α}

lemma splitOn_injective : Function.Injective fun a : List α => a.splitOn sep := by
  intro a b h
  calc
    a = [sep].intercalate (a.splitOn sep) := (intercalate_splitOn sep).symm
    _ = [sep].intercalate (b.splitOn sep) := congrArg _ h
    _ = b := intercalate_splitOn sep

omit [BEq α] [LawfulBEq α] in
lemma intercalate_append {parts parts' : List (List α)} (h : parts ≠ []) (h' : parts' ≠ []) :
    [sep].intercalate (parts ++ parts') =
    [sep].intercalate parts ++ sep :: [sep].intercalate parts' := by
  induction parts with
  | nil => contradiction
  | cons part rest ih =>
    cases rest with
    | nil =>
      obtain ⟨part', rest', rfl⟩ := exists_cons_of_ne_nil h'
      simp [intercalate_cons_cons]
    | cons next rest =>
      have hrest := ih (cons_ne_nil next rest)
      rw [cons_append] at hrest
      rw [cons_append, cons_append, intercalate_cons_cons,
        intercalate_cons_cons, hrest, ← append_assoc]

lemma splitOn_suffix_iff {a b : List α} :
    b.splitOn sep <:+ a.splitOn sep ↔ a = b ∨ ∃ front, a = front ++ sep :: b := by
  constructor
  · rintro ⟨before, hbefore⟩
    by_cases hnil : before = []
    · rw [hnil] at hbefore
      exact Or.inl (splitOn_injective hbefore).symm
    · refine Or.inr ⟨[sep].intercalate before, ?_⟩
      calc
        a = [sep].intercalate (a.splitOn sep) := (intercalate_splitOn sep).symm
        _ = [sep].intercalate (before ++ b.splitOn sep) := by rw [hbefore]
        _ = [sep].intercalate before ++ sep :: b := by
          rw [intercalate_append hnil (splitOn_ne_nil sep b), intercalate_splitOn]
  · rintro (rfl | ⟨front, rfl⟩)
    · exact suffix_refl _
    · rw [splitOn_append_cons_self]
      exact suffix_append _ _

lemma sep_not_mem_of_mem_splitOn {a part : List α} (h : part ∈ a.splitOn sep) : sep ∉ part := by
  induction a generalizing part with
  | nil =>
    rw [splitOn_nil, mem_singleton] at h
    simp [h]
  | cons x rest ih =>
    rw [splitOn_cons_eq_if_modifyHead] at h
    split_ifs at h with hx
    · rcases mem_cons.mp h with rfl | h
      · simp
      · exact ih h
    · obtain ⟨first, others, hsplit⟩ := exists_cons_of_ne_nil (splitOn_ne_nil sep rest)
      rw [hsplit] at h
      rw [hsplit] at ih
      rcases mem_cons.mp h with rfl | h
      · have hne : sep ≠ x := fun heq => hx (beq_iff_eq.mpr heq.symm)
        exact not_mem_cons_of_ne_of_not_mem hne (ih mem_cons_self)
      · exact ih (mem_cons_of_mem _ h)

/-- What is before the first separator and what is after it. -/
def cutAt (sep : α) (a : List α) : Option (List α × List α) :=
  (a.idxOf? sep).map fun i => (a.take i, a.drop (i + 1))

lemma cutAt_eq_none_iff {a : List α} : cutAt sep a = none ↔ sep ∉ a := by
  rw [cutAt, Option.map_eq_none_iff, idxOf?_eq_none_iff]

lemma cutAt_append_cons {before after : List α} (h : sep ∉ before) :
    cutAt sep (before ++ sep :: after) = some (before, after) := by
  have hindex : (before ++ sep :: after).idxOf? sep = some before.length := by
    rw [idxOf?_eq_some_iff]
    refine ⟨by simp, by simp, fun j hj heq => h ?_⟩
    rw [← heq, getElem_append_left hj]
    exact getElem_mem hj
  simp [cutAt, hindex]

lemma cutAt_eq_some_iff {a before after : List α} :
    cutAt sep a = some (before, after) ↔ a = before ++ sep :: after ∧ sep ∉ before := by
  constructor
  · intro h
    have hmem : sep ∈ a := by
      by_contra hnot
      rw [cutAt_eq_none_iff.mpr hnot] at h
      cases h
    obtain ⟨front, back, rfl, hfront⟩ := eq_append_cons_of_mem hmem
    rw [cutAt_append_cons hfront] at h
    obtain ⟨rfl, rfl⟩ := Prod.mk.inj (Option.some.inj h)
    exact ⟨rfl, hfront⟩
  · rintro ⟨rfl, h⟩
    exact cutAt_append_cons h

end Millennium.Fields
