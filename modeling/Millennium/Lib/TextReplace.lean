import Mathlib.Data.List.Infix

/-!
# Replacing one text by another

All occurrences of a pattern, or the first one. The elements of a text have a character each, and
the replacement looks at the characters only.
-/

namespace Millennium.TextReplace

open List

variable {α β : Type*} (f : α → Char) (pat : List Char) (val : List α)

/-- The leftmost occurrences are replaced. `skip` is what is left of the last one. -/
def replaceFrom : Nat → List α → List α
  | _, [] => []
  | skip + 1, _ :: rest => replaceFrom skip rest
  | 0, c :: rest =>
    if pat.isPrefixOf ((c :: rest).map f) then val ++ replaceFrom (pat.length - 1) rest
    else c :: replaceFrom 0 rest

/-- Replace every occurrence of a text that is not empty. -/
def replace (s : List α) : List α := replaceFrom f pat val 0 s

def splitFirst : List α → Option (List α × List α)
  | [] => none
  | c :: rest =>
    if pat.isPrefixOf ((c :: rest).map f) then some ([], (c :: rest).drop pat.length)
    else (splitFirst rest).map fun halves => (c :: halves.1, halves.2)

@[simp] lemma replace_nil : replace f pat val [] = [] := by simp [replace, replaceFrom]

section
variable (g : β → Char) (h : α → β) (s : List α)
include g h s

lemma map_replaceFrom (skip : Nat) : (replaceFrom (g ∘ h) pat val skip s).map h =
    replaceFrom g pat (val.map h) skip (s.map h) := by
  induction s generalizing skip with
  | nil => cases skip <;> simp [replaceFrom]
  | cons c rest ih =>
    cases skip with
    | succ skip => simpa [replaceFrom] using ih skip
    | zero =>
      have hmap : (c :: rest).map (g ∘ h) = (h c :: rest.map h).map g := by simp
      simp only [replaceFrom, map_cons, hmap]
      split_ifs with hpat
      · simp [ih]
      · simp [ih]

lemma map_replace : (replace (g ∘ h) pat val s).map h = replace g pat (val.map h) (s.map h) :=
  map_replaceFrom pat val g h s 0

lemma map_splitFirst :
    (splitFirst (g ∘ h) pat s).map (fun halves => (halves.1.map h, halves.2.map h)) =
    splitFirst g pat (s.map h) := by
  induction s with
  | nil => rfl
  | cons c rest ih =>
    have hmap : (c :: rest).map (g ∘ h) = (h c :: rest.map h).map g := by simp
    simp only [splitFirst, map_cons, hmap]
    split_ifs with hpat
    · simp [map_drop]
    · rw [← ih]
      cases splitFirst (g ∘ h) pat rest <;> simp

end

/-- No occurrence of the pattern begins in the first text and ends in the second. -/
def Apart (a b : List Char) : Prop :=
  ∀ i, 0 < i → i < pat.length → pat.take i <:+ a → ¬ pat.drop i <+: b

variable {pat}

variable {a b : List Char} {c : Char} {s : List α}

lemma Apart.of_suffix {a' : List Char} (h : Apart pat a b) (ha : a' <:+ a) : Apart pat a' b :=
  fun i hpos hlt htake => h i hpos hlt (htake.trans ha)

lemma apart_of_last (h : ∀ c ∈ a.getLast?, c ∉ pat) : Apart pat a b := by
  intro i hpos hlt htake _
  have hne : pat.take i ≠ [] := by
    intro hnil
    have := congrArg List.length hnil
    simp only [length_take, length_nil] at this
    omega
  obtain ⟨front, rfl⟩ := htake
  refine h ((pat.take i).getLast hne) ?_ (mem_of_mem_take (getLast_mem hne))
  simp [getLast?_eq_some_getLast hne]

lemma apart_of_next (h : ∀ i < pat.length, 0 < i → pat.take i <:+ a → pat[i]? ≠ some c) :
    Apart pat a (c :: b) := by
  intro i hpos hlt htake hdrop
  refine h i hlt hpos htake ?_
  rw [drop_eq_getElem_cons hlt, cons_prefix_cons] at hdrop
  rw [getElem?_eq_getElem hlt, hdrop.1]

lemma apart_of_first_not_mem {tail : List Char} (h : c ∉ a) : Apart (c :: tail) a b := by
  intro i hpos _ htake _
  obtain ⟨i, rfl⟩ : ∃ j, i = j + 1 := ⟨i - 1, by omega⟩
  exact h (htake.mem (by simp))

lemma apart_of_next_not_mem (h : c ∉ pat) : Apart pat a (c :: b) :=
  apart_of_next fun _ _ _ _ hget => h (mem_of_getElem? hget)

lemma apart_of_end_not_mem (hend : pat.getLast? = some c) (h : c ∉ b) : Apart pat a b := by
  intro i _ hlt _ hdrop
  refine h (hdrop.mem (mem_of_getLast? ?_))
  rw [getLast?_drop, if_neg (by omega), hend]

lemma Apart.isPrefix_append_iff (h : Apart pat a b) (ha : a ≠ []) : pat <+: a ++ b ↔ pat <+: a := by
  constructor
  · intro hpat
    by_contra hnot
    have hlt : a.length < pat.length := by
      by_contra hle
      exact hnot (prefix_of_prefix_length_le hpat (prefix_append a b) (by omega))
    obtain ⟨tail, rfl⟩ : a <+: pat :=
      prefix_of_prefix_length_le (prefix_append a b) hpat (by omega)
    have hdrop : tail <+: b := by simpa [prefix_append_right_inj] using hpat
    refine h a.length (length_pos_iff.mpr ha) hlt ?_ ?_
    · simp
    · simpa using hdrop
  · exact fun hpat => hpat.trans (prefix_append a b)

lemma Apart.isInfix_append_iff (h : Apart pat a b) : pat <:+: a ++ b ↔ pat <:+: a ∨ pat <:+: b := by
  induction a with
  | nil =>
    simp only [infix_nil]
    exact ⟨Or.inr, fun hor => hor.elim (fun hnil => hnil ▸ nil_infix) id⟩
  | cons c rest ih =>
    rw [cons_append, infix_cons_iff, infix_cons_iff, ← cons_append,
      h.isPrefix_append_iff (by simp), ih (h.of_suffix (suffix_cons c rest)), or_assoc]

section
variable {escape : Char → List Char}

lemma isPrefix_of_flatMap (hescape : ∀ c, escape c = [c] ∨ escape c ≠ [] ∧ ∀ d ∈ escape c, d ∉ pat)
    {part : List Char} (hpart : part ⊆ pat) {s : List Char} (h : part <+: s.flatMap escape) :
    part <+: s := by
  induction part generalizing s with
  | nil => exact nil_prefix
  | cons p part ih =>
    have hp : p ∈ pat := hpart (by simp)
    cases s with
    | nil => simp at h
    | cons c =>
      rw [flatMap_cons] at h
      rcases hescape c with hc | ⟨hne, hout⟩
      · rw [hc, singleton_append, cons_prefix_cons] at h
        rw [cons_prefix_cons]
        exact ⟨h.1, ih (fun x hx => hpart (mem_cons_of_mem p hx)) h.2⟩
      · obtain ⟨d, tail, hd⟩ := exists_cons_of_ne_nil hne
        rw [hd, cons_append, cons_prefix_cons] at h
        exact (hout p (by rw [hd, h.1]; simp) hp).elim

lemma isInfix_flatMap_iff (hne : pat ≠ [])
    (hescape : ∀ c, escape c = [c] ∨ (escape c ≠ [] ∧ ∀ d ∈ escape c, d ∉ pat) ∧ c ∉ pat)
    (s : List Char) : pat <:+: s.flatMap escape ↔ pat <:+: s := by
  constructor
  · intro h
    induction s with
    | nil => simpa using h
    | cons c rest ih =>
      rw [infix_cons_iff]
      rw [flatMap_cons] at h
      rcases hescape c with hc | ⟨⟨_, hout⟩, _⟩
      · rw [hc, singleton_append, infix_cons_iff] at h
        refine h.imp (fun hp => ?_) ih
        refine isPrefix_of_flatMap (fun c => (hescape c).imp_right And.left) (List.Subset.refl pat) ?_
        rwa [flatMap_cons, hc]
      · have hapart : Apart pat (escape c) (rest.flatMap escape) :=
          apart_of_last fun d hd => hout d (mem_of_getLast? hd)
        refine Or.inr (ih ((hapart.isInfix_append_iff.mp h).resolve_left fun hin => ?_))
        obtain ⟨p, hp⟩ := exists_mem_of_ne_nil pat hne
        exact hout p (hin.mem hp) hp
  · rintro ⟨before, after, rfl⟩
    have hpat : pat.flatMap escape = pat := by
      calc pat.flatMap escape = pat.flatMap (fun c => [c]) :=
            flatMap_congr fun c hc => (hescape c).resolve_right fun hout => hout.2 hc
        _ = pat := flatMap_singleton' pat
    exact ⟨before.flatMap escape, after.flatMap escape, by simp [hpat]⟩

end

lemma isPrefixOf_cons_append {c : α} {rest b : List α}
    (h : Apart pat ((c :: rest).map f) (b.map f)) :
    pat.isPrefixOf ((c :: (rest ++ b)).map f) = pat.isPrefixOf ((c :: rest).map f) := by
  rw [Bool.eq_iff_iff, isPrefixOf_iff_prefix, isPrefixOf_iff_prefix, ← cons_append, map_append]
  exact h.isPrefix_append_iff (by simp)

lemma replaceFrom_append {a b : List α} {skip : Nat} (hskip : skip ≤ a.length)
    (h : Apart pat (a.map f) (b.map f)) :
    replaceFrom f pat val skip (a ++ b) =
    replaceFrom f pat val skip a ++ replaceFrom f pat val 0 b := by
  induction a generalizing skip with
  | nil =>
    obtain rfl : skip = 0 := by simpa using hskip
    simp [replaceFrom]
  | cons c rest ih =>
    have hrest : Apart pat (rest.map f) (b.map f) := h.of_suffix (by simp)
    cases skip with
    | succ =>
      simpa [replaceFrom] using ih (by simpa using hskip) hrest
    | zero =>
      simp only [cons_append, replaceFrom, isPrefixOf_cons_append f h]
      by_cases hpat : pat.isPrefixOf ((c :: rest).map f) = true
      · have hlen := (List.isPrefixOf_iff_prefix.mp hpat).length_le
        simp only [length_cons, length_map] at hlen
        rw [if_pos hpat, if_pos hpat, ih (by omega) hrest, append_assoc]
      · rw [if_neg hpat, if_neg hpat, ih (Nat.zero_le _) hrest, cons_append]

lemma replace_append {a b : List α} (h : Apart pat (a.map f) (b.map f)) :
    replace f pat val (a ++ b) = replace f pat val a ++ replace f pat val b :=
  replaceFrom_append f val (Nat.zero_le _) h

lemma replace_of_not_mem (h : ¬ pat <:+: s.map f) : replace f pat val s = s := by
  unfold replace
  induction s with
  | nil => simp [replaceFrom]
  | cons c rest ih =>
    have hpat : ¬ pat.isPrefixOf ((c :: rest).map f) = true := fun hpat =>
      h (List.isPrefixOf_iff_prefix.mp hpat).isInfix
    have hrest : ¬ pat <:+: rest.map f := fun hin => h (infix_cons hin)
    simp only [replaceFrom, if_neg hpat, ih hrest]

lemma replaceFrom_of_length_le {skip : Nat} (h : s.length ≤ skip) :
    replaceFrom f pat val skip s = [] := by
  induction s generalizing skip with
  | nil => simp [replaceFrom]
  | cons c rest ih =>
    obtain ⟨skip, rfl⟩ : ∃ k, skip = k + 1 := ⟨skip - 1, by simp at h; omega⟩
    simpa [replaceFrom] using ih (by simpa using h)

lemma replace_self (h : s.map f = pat) (hne : pat ≠ []) : replace f pat val s = val := by
  cases s with
  | nil => exact (hne (by simpa using h.symm)).elim
  | cons c rest =>
    have hpat : pat.isPrefixOf ((c :: rest).map f) = true := by
      rw [List.isPrefixOf_iff_prefix, h]
    have hlen := congrArg List.length h
    simp only [length_cons, length_map] at hlen
    simp only [replace, replaceFrom, if_pos hpat]
    rw [replaceFrom_of_length_le f val (by omega), append_nil]

section
variable {val} {p : α → Bool}

lemma countP_replaceFrom_le (hval : val.countP p = 0) (s : List α) (skip : Nat) :
    (replaceFrom f pat val skip s).countP p ≤ s.countP p := by
  induction s generalizing skip with
  | nil => simp [replaceFrom]
  | cons c rest ih =>
    have hcons : rest.countP p ≤ (c :: rest).countP p := by simp [countP_cons]
    cases skip with
    | succ skip => exact (ih skip).trans hcons
    | zero =>
      simp only [replaceFrom]
      split_ifs
      · rw [countP_append, hval, Nat.zero_add]
        exact (ih _).trans hcons
      · simp only [countP_cons]
        exact Nat.add_le_add_right (ih 0) _

lemma countP_replace_le (hval : val.countP p = 0) (s : List α) :
    (replace f pat val s).countP p ≤ s.countP p :=
  countP_replaceFrom_le f hval s 0

lemma countP_replace_lt (hval : val.countP p = 0) {s : List α} (hall : ∀ x ∈ s, p x = true)
    (h : pat <:+: s.map f) (hne : pat ≠ []) :
    (replace f pat val s).countP p < s.countP p := by
  unfold replace
  induction s with
  | nil => exact (hne (by simpa using h)).elim
  | cons c rest ih =>
    have hc : p c = true := hall c (by simp)
    have hrest : ∀ x ∈ rest, p x = true := fun x hx => hall x (mem_cons_of_mem c hx)
    simp only [replaceFrom]
    by_cases hpat : pat.isPrefixOf ((c :: rest).map f) = true
    · rw [if_pos hpat, countP_append, hval]
      have hle : (replaceFrom f pat val (pat.length - 1) rest).countP p ≤ rest.countP p :=
        countP_replaceFrom_le f hval rest _
      simp only [countP_cons, hc, if_true]
      omega
    · rw [if_neg hpat]
      have hin : pat <:+: rest.map f := by
        rw [map_cons, infix_cons_iff] at h
        exact h.resolve_left fun hp => hpat (List.isPrefixOf_iff_prefix.mpr hp)
      simp only [countP_cons, hc]
      exact Nat.add_lt_add_right (ih hrest hin) 1

end

lemma splitFirst_of_not_mem (h : ¬ pat <:+: s.map f) :
    splitFirst f pat s = none := by
  induction s with
  | nil => rfl
  | cons c rest ih =>
    have hpat : ¬ pat.isPrefixOf ((c :: rest).map f) = true := fun hpat =>
      h (List.isPrefixOf_iff_prefix.mp hpat).isInfix
    have hrest : ¬ pat <:+: rest.map f := fun hin => h (infix_cons hin)
    simp only [splitFirst, if_neg hpat, ih hrest, Option.map_none]

lemma splitFirst_self (h : s.map f = pat) (hne : pat ≠ []) :
    splitFirst f pat s = some ([], []) := by
  cases s with
  | nil => exact (hne (by simpa using h.symm)).elim
  | cons c rest =>
    have hpat : pat.isPrefixOf ((c :: rest).map f) = true := by
      rw [List.isPrefixOf_iff_prefix, h]
    have hlen : (c :: rest).length ≤ pat.length := by rw [← h, length_map]
    simp only [splitFirst, if_pos hpat, drop_eq_nil_of_le hlen]

lemma splitFirst_spec {before after : List α} (h : splitFirst f pat s = some (before, after)) :
    ∃ found, found.map f = pat ∧ s = before ++ found ++ after := by
  induction s generalizing before after with
  | nil => simp [splitFirst] at h
  | cons c rest ih =>
    simp only [splitFirst] at h
    by_cases hpat : pat.isPrefixOf ((c :: rest).map f) = true
    · rw [if_pos hpat] at h
      obtain ⟨rfl, rfl⟩ := Prod.mk.inj (Option.some.inj h)
      refine ⟨(c :: rest).take pat.length, ?_, by simp⟩
      rw [map_take]
      exact (prefix_iff_eq_take.mp (List.isPrefixOf_iff_prefix.mp hpat)).symm
    · rw [if_neg hpat] at h
      obtain ⟨⟨b, a⟩, hsplit, heq⟩ := Option.map_eq_some_iff.mp h
      obtain ⟨rfl, rfl⟩ := Prod.mk.inj heq
      obtain ⟨found, hfound, rfl⟩ := ih hsplit
      exact ⟨found, hfound, by simp⟩

lemma exists_splitFirst (h : pat <:+: s.map f) (hne : pat ≠ []) :
    ∃ before after, splitFirst f pat s = some (before, after) := by
  induction s with
  | nil => exact (hne (by simpa using h)).elim
  | cons c rest ih =>
    simp only [splitFirst]
    by_cases hpat : pat.isPrefixOf ((c :: rest).map f) = true
    · exact ⟨_, _, if_pos hpat⟩
    · have hin : pat <:+: rest.map f := by
        rw [map_cons, infix_cons_iff] at h
        exact h.resolve_left fun hp => hpat (List.isPrefixOf_iff_prefix.mpr hp)
      obtain ⟨before, after, hsplit⟩ := ih hin
      exact ⟨c :: before, after, by rw [if_neg hpat, hsplit, Option.map_some]⟩

lemma splitFirst_append {a b : List α} (h : Apart pat (a.map f) (b.map f)) :
    splitFirst f pat (a ++ b) =
      match splitFirst f pat a with
      | some halves => some (halves.1, halves.2 ++ b)
      | none => (splitFirst f pat b).map fun halves => (a ++ halves.1, halves.2) := by
  induction a with
  | nil =>
    cases hb : splitFirst f pat b <;> simp [splitFirst, hb]
  | cons c rest ih =>
    have hrest : Apart pat (rest.map f) (b.map f) := h.of_suffix (by simp)
    simp only [cons_append, splitFirst, isPrefixOf_cons_append f h]
    by_cases hpat : pat.isPrefixOf ((c :: rest).map f) = true
    · have hlen := (List.isPrefixOf_iff_prefix.mp hpat).length_le
      simp only [length_map] at hlen
      rw [if_pos hpat, if_pos hpat, ← cons_append, drop_append_of_le_length (by simpa)]
    · rw [if_neg hpat, if_neg hpat, ih hrest]
      cases splitFirst f pat rest with
      | some => simp
      | none => cases splitFirst f pat b <;> simp

end Millennium.TextReplace
