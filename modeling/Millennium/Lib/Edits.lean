import Mathlib.Data.List.Basic
import Mathlib.Data.List.Induction

/-!
# Edits of a text

An edit puts a text in the place of a range, which may be empty. To make edits that are apart from
one another at once comes to the same as to make them one by one from the end of the source.
-/

namespace Millennium.Edits

open List

variable {α : Type*}

structure Edit (α : Type*) where
  start : Nat
  stop : Nat
  text : List α

def replace (source : List α) (e : Edit α) : List α :=
  source.take e.start ++ e.text ++ source.drop e.stop

def insertions (edits : List (Edit α)) (i : Nat) : List (Edit α) :=
  edits.filter fun e => e.start == i && e.stop == i

def replacements (edits : List (Edit α)) (i : Nat) : List (Edit α) :=
  edits.filter fun e => e.start == i && decide (i < e.stop)

def textsAt (edits : List (Edit α)) (i : Nat) : List α :=
  (insertions edits i).flatMap Edit.text ++ (replacements edits i).flatMap Edit.text

def covered (edits : List (Edit α)) (i : Nat) : Bool :=
  edits.any fun e => decide (e.start ≤ i) && decide (i < e.stop)

def remains (edits : List (Edit α)) (i : Nat) (a : α) : List α :=
  if covered edits i then [] else [a]

def substituteFrom (edits : List (Edit α)) : Nat → List α → List α
  | i, [] => textsAt edits i
  | i, a :: rest => textsAt edits i ++ remains edits i a ++ substituteFrom edits (i + 1) rest

def substitute (edits : List (Edit α)) (source : List α) : List α := substituteFrom edits 0 source

def keptFrom (edits : List (Edit α)) : Nat → List α → List α
  | _, [] => []
  | i, a :: rest => remains edits i a ++ keptFrom edits (i + 1) rest

def kept (edits : List (Edit α)) (source : List α) : List α := keptFrom edits 0 source

lemma kept_sublist (edits : List (Edit α)) (source : List α) :
    (kept edits source).Sublist (substitute edits source) := by
  unfold kept substitute
  generalize 0 = i
  induction source generalizing i with
  | nil => exact nil_sublist _
  | cons a rest ih =>
    rw [substituteFrom, append_assoc]
    exact ((List.Sublist.refl _).append (ih (i + 1))).trans (sublist_append_right _ _)

/-- The ranges have no place in common, and nothing is inserted twice at one place. -/
structure Apart (a b : Edit α) : Prop where
  disjoint : a.stop ≤ b.start ∨ b.stop ≤ a.start
  place : a.start = a.stop → b.start = b.stop → a.start ≠ b.start

lemma Apart.symm {a b : Edit α} (h : Apart a b) : Apart b a :=
  ⟨h.disjoint.symm, fun hb ha heq => h.place ha hb heq.symm⟩

structure InRange (source : List α) (e : Edit α) : Prop where
  start_le : e.start ≤ e.stop
  stop_le : e.stop ≤ source.length

section
variable {edits edits' : List (Edit α)}

lemma length_le_one_of_pairwise {l : List (Edit α)} (h : l.Pairwise Apart)
    (hl : ∀ a ∈ l, ∀ b ∈ l, ¬ Apart a b) : l.length ≤ 1 := by
  match l with
  | [] | [_] => simp
  | a :: b :: rest =>
    have hab := rel_of_pairwise_cons h mem_cons_self
    exact (hl a mem_cons_self b (mem_cons_of_mem _ mem_cons_self) hab).elim

lemma eq_of_perm_of_length_le_one {l l' : List (Edit α)} (h : l.Perm l') (hl : l.length ≤ 1) :
    l = l' := by
  match l, hl with
  | [], _ => exact (nil_perm.mp h).symm
  | [a], _ => exact singleton_perm.mp h

lemma insertions_perm (h : edits.Perm edits') (hapart : edits.Pairwise Apart) (i : Nat) :
    insertions edits i = insertions edits' i := by
  apply eq_of_perm_of_length_le_one (h.filter _)
  apply length_le_one_of_pairwise (hapart.filter _)
  intro a ha b hb hab
  simp only [mem_filter, Bool.and_eq_true, beq_iff_eq] at ha hb
  exact hab.place (ha.2.1.trans ha.2.2.symm) (hb.2.1.trans hb.2.2.symm) (ha.2.1.trans hb.2.1.symm)

lemma replacements_perm (h : edits.Perm edits') (hapart : edits.Pairwise Apart) (i : Nat) :
    replacements edits i = replacements edits' i := by
  apply eq_of_perm_of_length_le_one (h.filter _)
  apply length_le_one_of_pairwise (hapart.filter _)
  intro a ha b hb hab
  simp only [mem_filter, Bool.and_eq_true, beq_iff_eq, decide_eq_true_eq] at ha hb
  have hdisjoint := hab.disjoint
  omega

lemma covered_perm (h : edits.Perm edits') (i : Nat) : covered edits i = covered edits' i :=
  h.any_eq

lemma substitute_perm (h : edits.Perm edits') (hapart : edits.Pairwise Apart) (source : List α) :
    substitute edits source = substitute edits' source := by
  have htexts : ∀ i, textsAt edits i = textsAt edits' i := fun i => by
    rw [textsAt, textsAt, insertions_perm h hapart, replacements_perm h hapart]
  have hremains : ∀ i a, remains edits i a = remains edits' i a := fun i a => by
    rw [remains, remains, covered_perm h]
  unfold substitute
  generalize 0 = i
  induction source generalizing i with
  | nil => exact htexts i
  | cons a rest ih => rw [substituteFrom, substituteFrom, htexts, hremains, ih]

end

section
variable {edits : List (Edit α)} {e : Edit α} {i n : Nat} {s : List α}

lemma insertions_eq_nil (h : ∀ d ∈ edits, d.start = i → d.stop ≠ i) : insertions edits i = [] := by
  simp only [insertions, filter_eq_nil_iff, Bool.and_eq_true, beq_iff_eq]
  exact fun d hd hi => h d hd hi.1 hi.2

lemma replacements_eq_nil (h : ∀ d ∈ edits, d.start ≠ i) : replacements edits i = [] := by
  simp only [replacements, filter_eq_nil_iff, Bool.and_eq_true, beq_iff_eq]
  exact fun d hd hi => h d hd hi.1

lemma textsAt_eq_nil (h : ∀ d ∈ edits, d.start ≠ i) : textsAt edits i = [] := by
  rw [textsAt, insertions_eq_nil fun d hd hi => absurd hi (h d hd), replacements_eq_nil h]
  rfl

lemma covered_of_lt (h : ∀ d ∈ edits, i < d.start) : covered edits i = false := by
  simp only [covered, any_eq_false, Bool.and_eq_true, decide_eq_true_eq]
  exact fun d hd hi => absurd (h d hd) (Nat.not_lt.mpr hi.1)

lemma substituteFrom_of_le (h : ∀ d ∈ edits, i + n ≤ d.start) (hn : n ≤ s.length) :
    substituteFrom edits i s = s.take n ++ substituteFrom edits (i + n) (s.drop n) := by
  induction n generalizing i s with
  | zero => rfl
  | succ n ih =>
    obtain ⟨a, rest, rfl⟩ := exists_cons_of_length_pos (Nat.lt_of_lt_of_le n.succ_pos hn)
    have hlt : ∀ d ∈ edits, i < d.start := fun d hd => by
      have := h d hd
      omega
    have hrest := ih (i := i + 1) (s := rest) (fun d hd => by have := h d hd; omega)
      (Nat.le_of_succ_le_succ hn)
    rw [substituteFrom, textsAt_eq_nil fun d hd => (Nat.ne_of_lt (hlt d hd)).symm, remains,
      covered_of_lt hlt, hrest]
    simp [Nat.add_assoc, Nat.add_comm 1 n]

lemma substituteFrom_of_stop_le (hstart : e.start < i) (hstop : e.stop ≤ i) :
    substituteFrom (edits ++ [e]) i s = substituteFrom edits i s := by
  have htexts : ∀ j, i ≤ j → textsAt (edits ++ [e]) j = textsAt edits j := by
    intro j hj
    have hne : (e.start == j) = false := by
      rw [beq_eq_false_iff_ne]
      omega
    simp [textsAt, insertions, replacements, hne]
  have hcovered : ∀ j, i ≤ j → covered (edits ++ [e]) j = covered edits j := by
    intro j hj
    have hlt : ¬ j < e.stop := by omega
    simp [covered, hlt]
  induction s generalizing i with
  | nil => exact htexts i (Nat.le_refl i)
  | cons a rest ih =>
    rw [substituteFrom, substituteFrom, htexts i (Nat.le_refl i), remains, remains,
      hcovered i (Nat.le_refl i),
      ih (by omega) (by omega) (fun j hj => htexts j (by omega))
        (fun j hj => hcovered j (by omega))]

lemma substituteFrom_in_range (h : ∀ d ∈ edits, e.stop ≤ d.start) (hstart : e.start < i)
    (hn : i + n = e.stop) (hlen : n ≤ s.length) :
    substituteFrom (edits ++ [e]) i s = substituteFrom (edits ++ [e]) e.stop (s.drop n) := by
  induction n generalizing i s with
  | zero => rw [← hn, Nat.add_zero, drop_zero]
  | succ n ih =>
    obtain ⟨a, rest, rfl⟩ := exists_cons_of_length_pos (Nat.lt_of_lt_of_le n.succ_pos hlen)
    have htexts : textsAt (edits ++ [e]) i = [] := by
      apply textsAt_eq_nil
      rw [forall_mem_append, forall_mem_singleton]
      exact ⟨fun d hd => by have := h d hd; omega, by omega⟩
    have hcovered : covered (edits ++ [e]) i = true := by
      have hstop : i < e.stop := by omega
      simp [covered, Nat.le_of_lt hstart, hstop]
    rw [substituteFrom, htexts, remains, hcovered, ih (by omega) (by omega)
      (Nat.le_of_succ_le_succ hlen)]
    rfl

lemma textsAt_of_range (h : ∀ d ∈ edits, d.start ≠ e.start) (hlt : e.start < e.stop) :
    textsAt (edits ++ [e]) e.start = e.text := by
  have hinsertions : insertions (edits ++ [e]) e.start = [] := by
    apply insertions_eq_nil
    rw [forall_mem_append, forall_mem_singleton]
    exact ⟨fun d hd hi => absurd hi (h d hd), fun _ => (Nat.ne_of_lt hlt).symm⟩
  have hreplacements : replacements (edits ++ [e]) e.start = [e] := by
    have hedits := replacements_eq_nil h
    rw [replacements] at hedits ⊢
    simp [hedits, hlt]
  simp [textsAt, hinsertions, hreplacements]

lemma textsAt_of_insertion (h : ∀ d ∈ edits, Apart d e) (heq : e.start = e.stop) :
    textsAt (edits ++ [e]) e.start = e.text ++ textsAt edits e.start := by
  have hinsertions : insertions edits e.start = [] :=
    insertions_eq_nil fun d hd hstart hstop => (h d hd).place (hstart.trans hstop.symm) heq hstart
  have hinsertion : insertions (edits ++ [e]) e.start = [e] := by
    rw [insertions] at hinsertions ⊢
    rw [filter_append, hinsertions]
    simp [← heq]
  have hreplacements : replacements (edits ++ [e]) e.start = replacements edits e.start := by
    simp [replacements, heq]
  simp [textsAt, hinsertion, hinsertions, hreplacements]

lemma substituteFrom_start (h : ∀ d ∈ edits, e.stop ≤ d.start ∧ Apart d e)
    (hle : e.start ≤ e.stop) (hlen : e.stop ≤ e.start + s.length) :
    substituteFrom (edits ++ [e]) e.start s =
    e.text ++ substituteFrom edits e.stop (s.drop (e.stop - e.start)) := by
  obtain hlt | heq := Nat.lt_or_eq_of_le hle
  · -- Of a range, nothing remains.
    obtain ⟨n, hn⟩ : ∃ n, e.stop - e.start = n + 1 := ⟨e.stop - e.start - 1, by omega⟩
    obtain ⟨a, rest, rfl⟩ := exists_cons_of_length_pos (show 0 < s.length by omega)
    rw [length_cons] at hlen
    have htexts := textsAt_of_range (fun d hd => by have := (h d hd).1; omega) hlt
    have hcovered : covered (edits ++ [e]) e.start = true := by simp [covered, hlt]
    have hrest : substituteFrom (edits ++ [e]) (e.start + 1) rest =
        substituteFrom (edits ++ [e]) e.stop (rest.drop n) :=
      substituteFrom_in_range (fun d hd => (h d hd).1) (by omega) (by omega) (by omega)
    rw [substituteFrom, htexts, remains, hcovered, hrest,
      substituteFrom_of_stop_le hlt (Nat.le_refl _), hn]
    simp
  · -- What an insertion stands before remains as it is.
    have htexts := textsAt_of_insertion (fun d hd => (h d hd).2) heq
    rw [← heq, Nat.sub_self, drop_zero]
    cases s with
    | nil => exact htexts
    | cons a rest =>
      have hcovered : covered (edits ++ [e]) e.start = covered edits e.start := by
        simp [covered, heq]
      rw [substituteFrom, substituteFrom, htexts, remains, remains, hcovered,
        substituteFrom_of_stop_le (Nat.lt_succ_self _) (by omega)]
      simp

lemma replace_substitute {source : List α} (h : ∀ d ∈ edits, e.stop ≤ d.start ∧ Apart d e)
    (he : InRange source e) :
    replace (substitute edits source) e = substitute (edits ++ [e]) source := by
  have hle := he.start_le
  have hlen := he.stop_le
  have hbefore : substitute edits source =
      source.take e.stop ++ substituteFrom edits e.stop (source.drop e.stop) := by
    have hfrom := substituteFrom_of_le (i := 0) (fun d hd => by have := (h d hd).1; omega) hlen
    rwa [Nat.zero_add] at hfrom
  have hafter : substitute (edits ++ [e]) source =
      source.take e.start ++ substituteFrom (edits ++ [e]) e.start (source.drop e.start) := by
    have hstarts : ∀ d ∈ edits ++ [e], 0 + e.start ≤ d.start := by
      rw [forall_mem_append, forall_mem_singleton]
      exact ⟨fun d hd => by have := (h d hd).1; omega, by omega⟩
    have hfrom := substituteFrom_of_le hstarts (show e.start ≤ source.length by omega)
    rwa [Nat.zero_add] at hfrom
  have hstart := substituteFrom_start h hle
    (show e.stop ≤ e.start + (source.drop e.start).length by rw [length_drop]; omega)
  have htake : (source.take e.stop).length = e.stop := length_take_of_le hlen
  rw [hafter, hstart, hbefore, replace, take_append_of_le_length (by omega), take_take,
    Nat.min_eq_left hle, drop_append_of_le_length (by omega), drop_drop,
    Nat.add_sub_cancel' hle]
  simp

def Descending (a b : Edit α) : Prop := b.start < a.start ∨ (a.start = b.start ∧ b.stop ≤ a.stop)

lemma Descending.stop_le {a b : Edit α} (h : Descending a b) (hapart : Apart a b)
    (ha : a.start ≤ a.stop) : b.stop ≤ a.start := by
  have hdisjoint := hapart.disjoint
  unfold Descending at h
  omega

lemma foldl_replace {sorted : List (Edit α)} {source : List α} (hperm : sorted.Perm edits)
    (hsorted : sorted.Pairwise Descending) (hapart : edits.Pairwise Apart)
    (hrange : ∀ e ∈ edits, InRange source e) :
    sorted.foldl replace source = substitute edits source := by
  have hapart' : sorted.Pairwise Apart := (hperm.pairwise_iff Apart.symm).mpr hapart
  have hrange' : ∀ e ∈ sorted, InRange source e := fun e he => hrange e (hperm.mem_iff.mp he)
  rw [← substitute_perm hperm hapart']
  clear hperm hapart hrange
  induction sorted using List.reverseRecOn with
  | nil =>
    have hnone : substituteFrom [] 0 source = source.take source.length ++
        substituteFrom [] (0 + source.length) (source.drop source.length) :=
      substituteFrom_of_le (by simp) (Nat.le_refl _)
    simpa [substitute, substituteFrom, textsAt_eq_nil] using hnone.symm
  | append_singleton front e ih =>
    rw [pairwise_append] at hsorted hapart'
    obtain ⟨hrangeFront, hrangeE⟩ := forall_mem_append.mp hrange'
    have he := hrangeE e (mem_singleton_self e)
    rw [foldl_append, ih hsorted.1 hapart'.1 hrangeFront]
    refine replace_substitute (fun d hd => ?_) he
    have hde := hapart'.2.2 d hd e (mem_singleton_self e)
    have hdescending := hsorted.2.2 d hd e (mem_singleton_self e)
    exact ⟨hdescending.stop_le hde (hrangeFront d hd).start_le, hde⟩

end

end Millennium.Edits
