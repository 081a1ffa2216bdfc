import Mathlib.Data.List.Forall2

/-!
# Walks over trees

A walk goes from the root to those children that the present walker enters and pushes items on its
way. Where a walker pushes at most one item for each that a node needs, and one that is not needed
has a smaller weight, the weight of all items tells how much is missing.
-/

namespace Millennium.TreeWalk

open List

universe u v

mutual
inductive Tree (σ : Type u) (κ : Type v) where
  | node (shape : σ) (children : Forest σ κ)

inductive Forest (σ : Type u) (κ : Type v) where
  | nil
  | cons (slot : κ) (child : Tree σ κ) (rest : Forest σ κ)
end

variable {σ : Type u} {κ : Type v} {ω β : Type*}

def Tree.shape : Tree σ κ → σ
  | .node shape _ => shape

def Tree.children : Tree σ κ → Forest σ κ
  | .node _ children => children

def Forest.ofList : List (κ × Tree σ κ) → Forest σ κ
  | [] => .nil
  | (slot, child) :: rest => .cons slot child (.ofList rest)

def Forest.toList : Forest σ κ → List (κ × Tree σ κ)
  | .nil => []
  | .cons slot child rest => (slot, child) :: rest.toList

section
variable [DecidableEq κ]

def Forest.at? (slot : κ) : Forest σ κ → Option (Tree σ κ)
  | .nil => none
  | .cons slot' child rest => if slot' = slot then some child else rest.at? slot

def Forest.allAt (slot : κ) (f : Forest σ κ) : List (Tree σ κ) :=
  (f.toList.filter fun entry => entry.1 = slot).map Prod.snd

end

mutual
def nodes : Tree σ κ → List (Tree σ κ)
  | .node shape children => .node shape children :: nodesIn children

def nodesIn : Forest σ κ → List (Tree σ κ)
  | .nil => []
  | .cons _ child rest => nodes child ++ nodesIn rest
end

lemma mem_nodesIn {kids : Forest σ κ} {slot : κ} {child t : Tree σ κ}
    (h : (slot, child) ∈ kids.toList) (ht : t ∈ nodes child) : t ∈ nodesIn kids := by
  match kids with
  | .nil => simp [Forest.toList] at h
  | .cons slot' child' rest =>
    rw [Forest.toList, mem_cons] at h
    rw [nodesIn, mem_append]
    rcases h with h | h
    · obtain ⟨rfl, rfl⟩ := Prod.mk.inj h
      exact Or.inl ht
    · exact Or.inr (mem_nodesIn h ht)

structure Walk (σ : Type u) (κ : Type v) (ω β : Type*) where
  /-- The walker for the child in a slot, if it is entered. -/
  enter : ω → σ → κ → Option ω
  push : ω → Tree σ κ → List β

section
variable (W : Walk σ κ ω β)

mutual
def walk (w : ω) : Tree σ κ → List β
  | .node shape children => W.push w (.node shape children) ++ walkIn w shape children

def walkIn (w : ω) (shape : σ) : Forest σ κ → List β
  | .nil => []
  | .cons slot child rest =>
    (match W.enter w shape slot with
      | some w' => walk w' child
      | none => []) ++ walkIn w shape rest
end

mutual
/-- The nodes that a walk passes, each with the walker that is there. -/
def visited (w : ω) : Tree σ κ → List (ω × Tree σ κ)
  | .node shape children => (w, .node shape children) :: visitedIn w shape children

def visitedIn (w : ω) (shape : σ) : Forest σ κ → List (ω × Tree σ κ)
  | .nil => []
  | .cons slot child rest =>
    (match W.enter w shape slot with
      | some w' => visited w' child
      | none => []) ++ visitedIn w shape rest
end

mutual
def unvisited (w : ω) : Tree σ κ → List (Tree σ κ)
  | .node shape children => unvisitedIn w shape children

def unvisitedIn (w : ω) (shape : σ) : Forest σ κ → List (Tree σ κ)
  | .nil => []
  | .cons slot child rest =>
    (match W.enter w shape slot with
      | some w' => unvisited w' child
      | none => nodes child) ++ unvisitedIn w shape rest
end

variable {W}

mutual
theorem mem_nodes_iff {t : Tree σ κ} : ∀ (w : ω) (root : Tree σ κ),
    t ∈ nodes root ↔ (∃ w', (w', t) ∈ visited W w root) ∨ t ∈ unvisited W w root
  | w, .node shape children => by
    rw [nodes, visited, unvisited, mem_cons, mem_nodesIn_iff w shape children, ← or_assoc]
    refine or_congr_left ?_
    constructor
    · rintro (rfl | ⟨w', h⟩)
      · exact ⟨w, mem_cons_self⟩
      · exact ⟨w', mem_cons_of_mem _ h⟩
    · rintro ⟨w', h⟩
      rcases mem_cons.mp h with h | h
      · exact Or.inl (congrArg Prod.snd h)
      · exact Or.inr ⟨w', h⟩

theorem mem_nodesIn_iff {t : Tree σ κ} : ∀ (w : ω) (shape : σ) (f : Forest σ κ),
    t ∈ nodesIn f ↔ (∃ w', (w', t) ∈ visitedIn W w shape f) ∨ t ∈ unvisitedIn W w shape f
  | w, shape, .nil => by simp [nodesIn, visitedIn, unvisitedIn]
  | w, shape, .cons slot child rest => by
    rw [nodesIn, visitedIn, unvisitedIn, mem_append, mem_nodesIn_iff w shape rest]
    cases W.enter w shape slot with
    | none => simp [or_left_comm]
    | some w' =>
      rw [mem_nodes_iff w' child]
      simp [exists_or, or_assoc, or_left_comm]
end

section
variable {P : ω → Tree σ κ → Prop}

mutual
theorem visited_invariant (hstep : ∀ {w w' shape kids slot child}, P w (.node shape kids) →
      (slot, child) ∈ kids.toList → W.enter w shape slot = some w' → P w' child) :
    ∀ (w : ω) (root : Tree σ κ), P w root → ∀ p ∈ visited W w root, P p.1 p.2
  | w, .node shape kids, hroot, p, hp => by
    rw [visited] at hp
    rcases mem_cons.mp hp with rfl | hp
    · exact hroot
    · exact visitedIn_invariant hstep w shape kids hroot kids (fun _ h => h) p hp

theorem visitedIn_invariant (hstep : ∀ {w w' shape kids slot child},
      P w (.node shape kids) → (slot, child) ∈ kids.toList →
        W.enter w shape slot = some w' → P w' child) (w : ω) (shape : σ) (kids : Forest σ κ)
    (hnode : P w (.node shape kids)) : ∀ f : Forest σ κ, (f.toList ⊆ kids.toList) →
      ∀ p ∈ visitedIn W w shape f, P p.1 p.2
  | .nil, _, p, hp => by simp [visitedIn] at hp
  | .cons slot child rest, hsub, p, hp => by
    rw [Forest.toList, cons_subset] at hsub
    rw [visitedIn, mem_append] at hp
    rcases hp with hp | hp
    · cases henter : W.enter w shape slot with
      | none => simp [henter] at hp
      | some w' =>
        rw [henter] at hp
        exact visited_invariant hstep w' child (hstep hnode hsub.1 henter) p hp
    · exact visitedIn_invariant hstep w shape kids hnode rest hsub.2 p hp
end

end

end

section
variable (weight : β → Nat)

/-- An item that is the needed one, or has less weight. -/
def Lags (a b : β) : Prop := a = b ∨ weight a < weight b

def load : List β → Nat
  | [] => 0
  | b :: rest => weight b + 1 + load rest

variable {weight}

@[simp] lemma load_append (a b : List β) :
    load weight (a ++ b) = load weight a + load weight b := by
  induction a with
  | nil => simp [load]
  | cons x rest ih => simp [load, ih, Nat.add_assoc]

lemma load_of_perm {a b : List β} (h : a.Perm b) : load weight a = load weight b := by
  induction h with
  | nil => rfl
  | cons x _ ih => rw [load, load, ih]
  | swap => simp only [load]; omega
  | trans _ _ ih ih' => exact ih.trans ih'

lemma load_eq_zero {a : List β} (h : load weight a = 0) : a = [] := by
  cases a with
  | nil => rfl
  | cons => simp [load] at h

lemma load_of_lags {a b : List β} (h : List.Forall₂ (Lags weight) a b) :
    load weight a ≤ load weight b ∧ (load weight a = load weight b → a = b) := by
  induction h with
  | nil => exact ⟨Nat.le_refl _, fun _ => rfl⟩
  | @cons x y xs ys hxy _ ih =>
    obtain ⟨hle, heq⟩ := ih
    rw [load, load]
    rcases hxy with rfl | hlt
    · refine ⟨by omega, fun h => ?_⟩
      rw [heq (by omega)]
    · exact ⟨by omega, fun h => by omega⟩

variable (W : Walk σ κ ω β) (need : Tree σ κ → List β)

/-- The walkers push for a node nothing, or one item for each that is needed. -/
def PushesFor (weight : β → Nat) (visits : List (ω × Tree σ κ)) : Prop :=
  ∀ p ∈ visits, W.push p.1 p.2 = [] ∨ List.Forall₂ (Lags weight) (W.push p.1 p.2) (need p.2)

variable {W need}

lemma PushesFor.load_push {visits : List (ω × Tree σ κ)} (h : PushesFor W need weight visits)
    {w : ω} {t : Tree σ κ} (hp : (w, t) ∈ visits) :
    load weight (W.push w t) ≤ load weight (need t) ∧
    (load weight (W.push w t) = load weight (need t) → W.push w t = need t) := by
  rcases h (w, t) hp with hnil | hlags
  · rw [hnil]
    exact ⟨Nat.zero_le _, fun h => (load_eq_zero h.symm).symm⟩
  · exact load_of_lags hlags

def Served (W : Walk σ κ ω β) (need : Tree σ κ → List β) (visits : List (ω × Tree σ κ))
    (others : List (Tree σ κ)) : Prop :=
  (∀ p ∈ visits, W.push p.1 p.2 = need p.2) ∧ ∀ t ∈ others, need t = []

lemma served_append {visits visits' : List (ω × Tree σ κ)} {others others' : List (Tree σ κ)} :
    Served W need (visits ++ visits') (others ++ others') ↔
    Served W need visits others ∧ Served W need visits' others' := by
  simp only [Served, forall_mem_append]
  tauto

mutual
theorem load_walk : ∀ (w : ω) (t : Tree σ κ), PushesFor W need weight (visited W w t) →
    load weight (walk W w t) ≤ load weight ((nodes t).flatMap need) ∧
      (load weight (walk W w t) = load weight ((nodes t).flatMap need) →
        Served W need (visited W w t) (unvisited W w t))
  | w, .node shape children, h => by
    rw [visited] at h
    obtain ⟨hown, hownEq⟩ := h.load_push mem_cons_self
    obtain ⟨hle, heq⟩ := load_walkIn w shape children fun p hp => h p (mem_cons_of_mem _ hp)
    rw [walk, nodes, visited, unvisited, flatMap_cons, load_append, load_append]
    refine ⟨by omega, fun hload => ?_⟩
    obtain ⟨hvisits, hothers⟩ := heq (by omega)
    exact ⟨forall_mem_cons.mpr ⟨hownEq (by omega), hvisits⟩, hothers⟩

theorem load_walkIn : ∀ (w : ω) (shape : σ) (f : Forest σ κ),
    PushesFor W need weight (visitedIn W w shape f) →
      load weight (walkIn W w shape f) ≤ load weight ((nodesIn f).flatMap need) ∧
        (load weight (walkIn W w shape f) = load weight ((nodesIn f).flatMap need) →
          Served W need (visitedIn W w shape f) (unvisitedIn W w shape f))
  | w, shape, .nil, _ => by
    rw [walkIn, nodesIn, visitedIn, unvisitedIn]
    exact ⟨Nat.le_refl _, fun _ => ⟨by simp, by simp⟩⟩
  | w, shape, .cons slot child rest, h => by
    rw [visitedIn] at h
    obtain ⟨hchild, hrest⟩ := forall_mem_append.mp h
    obtain ⟨hle, heq⟩ := load_walkIn w shape rest hrest
    rw [walkIn, nodesIn, visitedIn, unvisitedIn, flatMap_append, load_append, load_append,
      served_append]
    cases henter : W.enter w shape slot with
    | none =>
      have hnil : load weight ([] : List β) = 0 := rfl
      refine ⟨by dsimp only; omega, fun hload => ?_⟩
      dsimp only at hload
      have hneed : (nodes child).flatMap need = [] := @load_eq_zero _ weight _ (by omega)
      exact ⟨⟨by simp, flatMap_eq_nil_iff.mp hneed⟩, heq (by omega)⟩
    | some w' =>
      rw [henter] at hchild
      obtain ⟨hchildLe, hchildEq⟩ := load_walk w' child hchild
      refine ⟨by dsimp only; omega, fun hload => ?_⟩
      dsimp only at hload
      exact ⟨hchildEq (by omega), heq (by omega)⟩
end

mutual
theorem walk_of_served : ∀ (w : ω) (t : Tree σ κ),
    Served W need (visited W w t) (unvisited W w t) → walk W w t = (nodes t).flatMap need
  | w, .node shape children, h => by
    rw [visited, unvisited] at h
    obtain ⟨hvisits, hothers⟩ := h
    obtain ⟨hown, hvisits⟩ := forall_mem_cons.mp hvisits
    rw [walk, nodes, flatMap_cons, walkIn_of_served w shape children ⟨hvisits, hothers⟩]
    exact congrArg (· ++ _) hown

theorem walkIn_of_served : ∀ (w : ω) (shape : σ) (f : Forest σ κ),
    Served W need (visitedIn W w shape f) (unvisitedIn W w shape f) →
      walkIn W w shape f = (nodesIn f).flatMap need
  | w, shape, .nil, _ => by rw [walkIn, nodesIn, flatMap_nil]
  | w, shape, .cons slot child rest, h => by
    rw [visitedIn, unvisitedIn, served_append] at h
    rw [walkIn, nodesIn, flatMap_append, walkIn_of_served w shape rest h.2]
    refine congrArg (· ++ _) ?_
    have hchild := h.1
    revert hchild
    cases W.enter w shape slot with
    | none => exact fun hchild => (flatMap_eq_nil_iff.mpr hchild.2).symm
    | some w' => exact fun hchild => walk_of_served w' child hchild
end

/-- All needed items are pushed, in some order, exactly if every node gets what it needs. -/
lemma walk_perm_iff (w : ω) (t : Tree σ κ) (h : PushesFor W need weight (visited W w t)) :
    (walk W w t).Perm ((nodes t).flatMap need) ↔
    Served W need (visited W w t) (unvisited W w t) := by
  constructor
  · intro hperm
    exact (load_walk w t h).2 (load_of_perm hperm)
  · intro hserved
    rw [walk_of_served w t hserved]

end

end Millennium.TreeWalk
