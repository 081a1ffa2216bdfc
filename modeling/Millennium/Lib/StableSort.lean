import Mathlib.Data.List.Sort

/-!
# Stable sorting by a key

A stable sort keeps the entries of each key in their order. Two lists with the same
entries of each key are therefore sorted alike, however the keys are interleaved.
-/

namespace Millennium.StableSort

open List

variable {α κ : Type*} [LinearOrder κ] {key : α → κ}

lemma eq_of_sorted {l₁ l₂ : List α} (h₁ : l₁.Pairwise (key · ≤ key ·))
    (h₂ : l₂.Pairwise (key · ≤ key ·))
    (h : ∀ k, l₁.filter (key · = k) = l₂.filter (key · = k)) : l₁ = l₂ := by
  have hmem (x : α) : x ∈ l₁ ↔ x ∈ l₂ := by simpa using congrArg (x ∈ ·) (h (key x))
  induction l₁ generalizing l₂ with
  | nil => exact (eq_nil_iff_forall_not_mem.mpr fun x hx => by simp [← hmem] at hx).symm
  | cons x rest ih =>
    cases l₂ with
    | nil => simpa using hmem x
    | cons y rest' =>
      rw [pairwise_cons] at h₁ h₂
      have hxy : key x ≤ key y := by
        rcases mem_cons.mp ((hmem y).mpr mem_cons_self) with rfl | hy
        · rfl
        · exact h₁.1 y hy
      have hyx : key y ≤ key x := by
        rcases mem_cons.mp ((hmem x).mp mem_cons_self) with rfl | hx
        · rfl
        · exact h₂.1 x hx
      have hkey := le_antisymm hxy hyx
      -- the first entries of the common least key agree
      have hhead := h (key x)
      rw [filter_cons_of_pos (by simp), filter_cons_of_pos (by simp [hkey])] at hhead
      obtain ⟨rfl, -⟩ := List.cons.inj hhead
      have hrest (k : κ) : rest.filter (key · = k) = rest'.filter (key · = k) := by
        have hk := h k
        by_cases hx : key x = k
        · simpa [hx] using hk
        · simpa [hx] using hk
      refine congrArg (x :: ·) (ih h₁.2 h₂.2 hrest fun z => ?_)
      simpa using congrArg (z ∈ ·) (hrest (key z))

section
variable {le : α → α → Bool} (hle : ∀ a b, le a b = true ↔ key a ≤ key b)
include hle

lemma le_trans_of_key (a b c : α) (hab : le a b = true) (hbc : le b c = true) : le a c = true :=
  (hle a c).mpr (((hle a b).mp hab).trans ((hle b c).mp hbc))

lemma le_total_of_key (a b : α) : (le a b || le b a) = true := by
  rw [Bool.or_eq_true, hle, hle]
  exact le_total _ _

lemma filter_mergeSort (l : List α) (k : κ) :
    (l.mergeSort le).filter (key · = k) = l.filter (key · = k) := by
  have hequal : (l.filter (key · = k)).Pairwise fun a b => le a b = true :=
    pairwise_of_forall_mem_list fun a ha b hb => by
      have hka := of_decide_eq_true (mem_filter.mp ha).2
      have hkb := of_decide_eq_true (mem_filter.mp hb).2
      exact (hle a b).mpr (hka.trans hkb.symm).le
  have hsub := (sublist_mergeSort (le_trans_of_key hle) (le_total_of_key hle) hequal
    filter_sublist).filter (key · = k)
  simp only [filter_filter, Bool.and_self] at hsub
  exact (hsub.eq_of_length ((mergeSort_perm l _).filter _).length_eq.symm).symm

lemma mergeSort_congr {l₁ l₂ : List α} (h : ∀ k, l₁.filter (key · = k) = l₂.filter (key · = k)) :
    l₁.mergeSort le = l₂.mergeSort le := by
  have hsorted (l : List α) : (l.mergeSort le).Pairwise (key · ≤ key ·) :=
    (pairwise_mergeSort (le_trans_of_key hle) (le_total_of_key hle) l).imp
      fun {a b} => (hle a b).mp
  exact eq_of_sorted (hsorted l₁) (hsorted l₂) fun k => by
    rw [filter_mergeSort hle, filter_mergeSort hle, h k]

end

lemma filter_flatMap_perm {blocks blocks' : List (κ × List α)} (hperm : blocks.Perm blocks')
    (hnodup : (blocks.map Prod.fst).Nodup)
    (howned : ∀ block ∈ blocks, ∀ a ∈ block.2, key a = block.1) (k : κ) :
    (blocks.flatMap Prod.snd).filter (key · = k) =
    (blocks'.flatMap Prod.snd).filter (key · = k) := by
  have hblock {bs : List (κ × List α)} (hbs : ∀ block ∈ bs, ∀ a ∈ block.2, key a = block.1) :
      (bs.flatMap Prod.snd).filter (key · = k) = (bs.filter (·.1 = k)).flatMap Prod.snd := by
    induction bs with
    | nil => rfl
    | cons block rest ih =>
      have hfirst : block.2.filter (key · = k) = block.2.filter fun _ => block.1 = k :=
        filter_congr fun a ha => by rw [hbs block mem_cons_self a ha]
      rw [flatMap_cons, filter_append, hfirst, ih fun b hb => hbs b (mem_cons_of_mem _ hb)]
      by_cases hk : block.1 = k
      · simp [hk]
      · simp [hk]
  have hdistinct : blocks.Pairwise (·.1 ≠ ·.1) := pairwise_map.mp hnodup
  have hkept := List.Perm.eq_of_pairwise (fun a b ha hb hab _ => absurd
    ((of_decide_eq_true (mem_filter.mp ha).2).trans
      (of_decide_eq_true (mem_filter.mp hb).2).symm) hab)
    (hdistinct.filter (·.1 = k)) ((hdistinct.perm hperm Ne.symm).filter (·.1 = k))
    (hperm.filter _)
  rw [hblock howned, hblock fun b hb => howned b (hperm.mem_iff.mpr hb), hkept]

end Millennium.StableSort
