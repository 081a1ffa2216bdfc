import Mathlib.Data.List.Lex
import Mathlib.Data.Prod.Lex
import Mathlib.Data.Sum.Order

/-!
# Three-way comparisons

A comparison gives a number: the first value is less than the second, the same or greater.
Comparisons go one after another as lexicographic orders are made.
-/

namespace Millennium.ThreeWay

variable {α β : Type*} [LinearOrder α] [LinearOrder β]

def threeWay (a b : α) : Int := if a = b then 0 else if a < b then -1 else 1

@[simp] lemma threeWay_self (a : α) : threeWay a a = 0 := if_pos rfl

lemma threeWay_eq_zero_iff {a b : α} : threeWay a b = 0 ↔ a = b := by
  unfold threeWay
  split
  next h => simp [h]
  next h => split <;> simp [h]

lemma threeWay_of_lt {a b : α} (h : a < b) : threeWay a b = -1 := by
  rw [threeWay, if_neg h.ne, if_pos h]

lemma threeWay_of_gt {a b : α} (h : b < a) : threeWay a b = 1 := by
  rw [threeWay, if_neg h.ne', if_neg h.not_gt]

lemma threeWay_nonpos_iff {a b : α} : threeWay a b ≤ 0 ↔ a ≤ b := by
  obtain h | rfl | h := lt_trichotomy a b
  · simp [threeWay_of_lt h, h.le]
  · simp
  · simp [threeWay_of_gt h, h]

lemma threeWay_swap (a b : α) : threeWay b a = -threeWay a b := by
  obtain h | rfl | h := lt_trichotomy a b
  · rw [threeWay_of_lt h, threeWay_of_gt h, Int.neg_neg]
  · simp
  · rw [threeWay_of_lt h, threeWay_of_gt h]

lemma threeWay_image {f : α → β} (hf : StrictMono f) (a b : α) :
    threeWay (f a) (f b) = threeWay a b := by
  obtain h | rfl | h := lt_trichotomy a b
  · rw [threeWay_of_lt h, threeWay_of_lt (hf h)]
  · simp
  · rw [threeWay_of_gt h, threeWay_of_gt (hf h)]

lemma threeWay_pair (a a' : α) (b b' : β) : threeWay (toLex (a, b)) (toLex (a', b')) =
      if threeWay a a' = 0 then threeWay b b' else threeWay a a' := by
  obtain h | rfl | h := lt_trichotomy a a'
  · rw [threeWay_of_lt h, threeWay_of_lt (Prod.Lex.toLex_lt_toLex.mpr (Or.inl h))]
    rfl
  · rw [threeWay_self]
    have hmono : StrictMono fun b : β => toLex (a, b) := by
      intro b b' hb
      exact Prod.Lex.toLex_lt_toLex.mpr (Or.inr ⟨rfl, hb⟩)
    exact threeWay_image hmono b b'
  · rw [threeWay_of_gt h, threeWay_of_gt (Prod.Lex.toLex_lt_toLex.mpr (Or.inl h))]
    rfl

lemma threeWay_cons (a a' : α) (l l' : List α) : threeWay (a :: l) (a' :: l') =
      if threeWay a a' = 0 then threeWay l l' else threeWay a a' := by
  obtain h | rfl | h := lt_trichotomy a a'
  · rw [threeWay_of_lt h, threeWay_of_lt (List.cons_lt_cons_iff.mpr (Or.inl h))]
    rfl
  · rw [threeWay_self]
    have hmono : StrictMono (List.cons a) := by
      intro l l' hl
      exact List.cons_lt_cons_iff.mpr (Or.inr ⟨rfl, hl⟩)
    exact threeWay_image hmono l l'
  · rw [threeWay_of_gt h, threeWay_of_gt (List.cons_lt_cons_iff.mpr (Or.inl h))]
    rfl

end Millennium.ThreeWay
