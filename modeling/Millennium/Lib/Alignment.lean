import Mathlib.Data.List.Forall2

/-!
# Two lists joined by position

One list keeps every element, the other only those for which `f` succeeds. A
position of the first that is looked up in the second finds its own element
exactly when nothing up to it was dropped.
-/

namespace Millennium.Alignment

open List Prod

variable {α β γ : Type}

def positions (p : α → Bool) (l : List α) : List Nat :=
  (l.zipIdx.filter fun (a, _) => p a).map snd

lemma mem_positions {p : α → Bool} {l : List α} {i : Nat} :
    i ∈ positions p l ↔ ∃ a, l[i]? = some a ∧ p a = true := by
  simp only [positions, mem_map, mem_filter, Prod.exists, mem_zipIdx_iff_getElem?]
  constructor
  · rintro ⟨a, j, ⟨hget, hp⟩, rfl⟩
    exact ⟨a, hget, hp⟩
  · rintro ⟨a, hget, hp⟩
    exact ⟨a, i, ⟨hget, hp⟩, rfl⟩

lemma positions_congr {p : α → Bool} {q : β → Bool} {l : List α} {l' : List β}
    (h : List.Forall₂ (fun a b => p a = q b) l l') : positions p l = positions q l' := by
  have hfrom (n : Nat) : ((l.zipIdx n).filter fun (a, _) => p a).map snd =
      ((l'.zipIdx n).filter fun (b, _) => q b).map snd := by
    induction h generalizing n with
    | nil => rfl
    | cons hhead _ ih =>
      simp only [zipIdx_cons, filter_cons, hhead]
      split_ifs
      · simp [ih]
      · exact ih (n + 1)
  exact hfrom 0

lemma positions_filterMap_getElem? (p : α → Bool) (l : List α) :
    (positions p l).filterMap (l[·]?) = l.filter p := by
  have hfst : ∀ x ∈ l.zipIdx.filter fun (a, _) => p a, l[x.2]? = some x.1 := by
    rintro ⟨a, i⟩ hx
    exact mem_zipIdx_iff_getElem?.mp (mem_of_mem_filter hx)
  calc
    (positions p l).filterMap (l[·]?) =
        (l.zipIdx.filter fun (a, _) => p a).filterMap fun x => l[x.2]? := by
      rw [positions, filterMap_map]
      rfl
    _ = (l.zipIdx.filter fun (a, _) => p a).filterMap fun x => some x.1 :=
      filterMap_congr hfst
    _ = (l.zipIdx.filter (p ∘ fst)).map fst :=
      congrFun filterMap_eq_map' _
    _ = l.filter p := by rw [← filter_map, zipIdx_map_fst]

section
variable (f : α → Option β)

/-- The elements for which `f` succeeds, with their positions from `n` on. -/
def keptFrom (n : Nat) (l : List α) : List (β × Nat) :=
  (l.zipIdx n).filterMap fun (a, i) => (f a).map (·, i)

variable {f}

lemma keptFrom_cons_none {n : Nat} {a : α} {l : List α} (h : f a = none) :
    keptFrom f n (a :: l) = keptFrom f (n + 1) l := by
  simp [keptFrom, h]

lemma keptFrom_cons_some {n : Nat} {a : α} {b : β} {l : List α} (h : f a = some b) :
    keptFrom f n (a :: l) = (b, n) :: keptFrom f (n + 1) l := by
  simp [keptFrom, h]

lemma keptFrom_map_fst (n : Nat) (l : List α) : (keptFrom f n l).map fst = l.filterMap f := by
  induction l generalizing n with
  | nil => rfl
  | cons a l ih =>
    cases h : f a with
    | none => rw [keptFrom_cons_none h, ih, filterMap_cons_none h]
    | some b => rw [keptFrom_cons_some h, map_cons, ih, filterMap_cons_some h]

lemma mem_keptFrom {l : List α} {b : β} {i : Nat} (h : (b, i) ∈ keptFrom f 0 l) :
    l[i]?.bind f = some b := by
  obtain ⟨⟨a, j⟩, hmem, heq⟩ := mem_filterMap.mp h
  obtain ⟨b', hb, hpair⟩ := Option.map_eq_some_iff.mp heq
  cases hpair
  rw [mem_zipIdx_iff_getElem?.mp hmem]
  exact hb

lemma le_of_getElem?_keptFrom {l : List α} {n i j : Nat} {b : β}
    (h : (keptFrom f n l)[i]? = some (b, j)) : n + i ≤ j := by
  induction l generalizing n i with
  | nil => simp [keptFrom] at h
  | cons a l ih =>
    cases hf : f a with
    | none =>
      rw [keptFrom_cons_none hf] at h
      have hle := ih h
      omega
    | some b' =>
      rw [keptFrom_cons_some hf] at h
      cases i with
      | zero =>
        cases h
        exact Nat.le_refl _
      | succ i =>
        have hle := ih h
        omega

lemma getElem?_keptFrom_iff {l : List α} {n i : Nat} :
    (∃ b, (keptFrom f n l)[i]? = some (b, n + i)) ↔
    i < l.length ∧ ∀ a ∈ l.take (i + 1), (f a).isSome := by
  induction l generalizing n i with
  | nil => simp [keptFrom]
  | cons a l ih =>
    cases hf : f a with
    | none =>
      rw [keptFrom_cons_none hf]
      constructor
      · rintro ⟨b, hb⟩
        have hle := le_of_getElem?_keptFrom hb
        omega
      · rintro ⟨-, hall⟩
        have hsome := hall a (by simp)
        rw [hf] at hsome
        cases hsome
    | some b' =>
      rw [keptFrom_cons_some hf]
      cases i with
      | zero => simp [hf]
      | succ i =>
        have hstep := @ih (n + 1) i
        rw [show n + 1 + i = n + (i + 1) by omega] at hstep
        simpa [hf] using hstep

end

section
variable {f : α → Option β} {p : α → Bool} {l : List α}

lemma map_some_filterMap {h : α → Option β} {l : List α} (hall : ∀ a ∈ l, (h a).isSome) :
    (l.filterMap h).map some = l.map h := by
  induction l with
  | nil => rfl
  | cons a l ih =>
    obtain ⟨b, hb⟩ := Option.isSome_iff_exists.mp (hall a mem_cons_self)
    rw [filterMap_cons_some hb, map_cons, map_cons, hb,
      ih fun c hc => hall c (mem_cons_of_mem _ hc)]

lemma lookup_own {i : Nat} (hi : i ∈ positions p l) (hkept : ∀ a ∈ l.take (i + 1), (f a).isSome) :
    ∃ b, (keptFrom f 0 l)[i]? = some (b, i) ∧ l[i]?.bind f = some b := by
  obtain ⟨a, hget, -⟩ := mem_positions.mp hi
  have hlt : i < l.length := (List.getElem?_eq_some_iff.mp hget).1
  obtain ⟨b, hb⟩ := (@getElem?_keptFrom_iff _ _ f l 0 i).mpr ⟨hlt, hkept⟩
  rw [Nat.zero_add] at hb
  exact ⟨b, hb, mem_keptFrom (mem_of_getElem? hb)⟩

lemma map_getElem?_filterMap (hkept : ∀ i ∈ positions p l, ∀ a ∈ l.take (i + 1), (f a).isSome) :
    (positions p l).map ((l.filterMap f)[·]?) = ((l.filter p).filterMap f).map some := by
  have hown : ∀ i ∈ positions p l, (l.filterMap f)[i]? = l[i]?.bind f := by
    intro i hi
    obtain ⟨b, hb, hf⟩ := lookup_own hi (hkept i hi)
    rw [← keptFrom_map_fst 0, getElem?_map, hb, hf]
    rfl
  have hall : ∀ i ∈ positions p l, (l[i]?.bind f).isSome := by
    intro i hi
    obtain ⟨b, -, hf⟩ := lookup_own hi (hkept i hi)
    rw [hf]
    rfl
  calc
    (positions p l).map ((l.filterMap f)[·]?) = (positions p l).map (l[·]?.bind f) :=
      map_congr_left hown
    _ = ((positions p l).filterMap (l[·]?.bind f)).map some := (map_some_filterMap hall).symm
    _ = ((l.filter p).filterMap f).map some := by
      rw [← positions_filterMap_getElem? p l, filterMap_filterMap]

lemma forall_take_positions_iff {Q : α → Prop} : (∀ i ∈ positions p l, ∀ a ∈ l.take (i + 1), Q a) ↔
    l.Pairwise (fun a b => p b = true → Q a) ∧ ∀ a ∈ l, p a = true → Q a := by
  constructor
  · intro h
    have hget (i j : Nat) (hij : i ≤ j) (hj : j < l.length) (hp : p l[j] = true) : Q l[i] := by
      refine h j (mem_positions.mpr ⟨_, getElem?_eq_getElem hj, hp⟩) _ ?_
      exact mem_take_iff_getElem.mpr ⟨i, by omega, rfl⟩
    refine ⟨pairwise_iff_getElem.mpr fun i j hi hj hij hp => ?_, fun a ha hp => ?_⟩
    · exact hget i j (Nat.le_of_lt hij) hj hp
    · obtain ⟨i, hi, rfl⟩ := mem_iff_getElem.mp ha
      exact hget i i (Nat.le_refl _) hi hp
  · rintro ⟨hpair, hself⟩ i hi a ha
    obtain ⟨b, hget, hp⟩ := mem_positions.mp hi
    obtain ⟨hlt, rfl⟩ := List.getElem?_eq_some_iff.mp hget
    obtain ⟨k, hk, rfl⟩ := mem_take_iff_getElem.mp ha
    rcases Nat.lt_or_ge k i with hki | hki
    · exact pairwise_iff_getElem.mp hpair k i (by omega) hlt hki hp
    · obtain rfl : k = i := by omega
      exact hself _ (getElem_mem hlt) hp

end

end Millennium.Alignment
