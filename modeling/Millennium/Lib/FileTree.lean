import Mathlib.Data.List.Infix

/-!
# Trees of files, directories and symbolic links

A location is the list of names that leads to an entry through real directories. Walking along a
path also follows links, each of which restarts the walk at the root, but only so many. `Walks`
states what a walk does, `walk` computes it, both for an arbitrary lookup function, so that a tree
with entries removed is another lookup.
-/

namespace Millennium.FileTree

open List Option Nat

variable {ν : Type*}

inductive Node (ν : Type*) where
  | file
  | dir
  | link (target : List ν)
  deriving Repr, DecidableEq

def Node.Real : Node ν → Prop
  | .link _ => False
  | _ => True

abbrev Lookup (ν : Type*) := List ν → Option (Node ν)

def walkWith (node : Lookup ν) (follow : List ν → Option (List ν × Nat)) (budget : Nat) :
    List ν → List ν → Option (List ν × Nat)
  | cur, [] => some (cur, budget)
  | cur, n :: rest =>
    match node (cur ++ [n]) with
    | none => none
    | some (.link target) => follow (target ++ rest)
    | some _ => walkWith node follow budget (cur ++ [n]) rest

/-- A walk from a location: where it ends, and how many links could still be followed. -/
def walk (node : Lookup ν) : Nat → List ν → List ν → Option (List ν × Nat)
  | 0 => walkWith node (fun _ => none) 0
  | budget + 1 => walkWith node (walk node budget []) (budget + 1)

inductive Walks (node : Lookup ν) : Nat → List ν → List ν → List ν → Nat → Prop
  | nil (b : Nat) (cur : List ν) : Walks node b cur [] cur b
  | real {b j : Nat} {cur rest q : List ν} {n : ν} {k : Node ν} :
      node (cur ++ [n]) = some k → k.Real → Walks node b (cur ++ [n]) rest q j →
        Walks node b cur (n :: rest) q j
  | link {b j : Nat} {cur rest q t : List ν} {n : ν} :
      node (cur ++ [n]) = some (.link t) → Walks node b [] (t ++ rest) q j →
        Walks node (b + 1) cur (n :: rest) q j

variable {b j : Nat} {cur rest q p path l : List ν} {n : ν}

lemma walks_cons_real_iff {node : Lookup ν} {k : Node ν} (hn : node (cur ++ [n]) = some k)
    (hr : k.Real) :
    Walks node b cur (n :: rest) q j ↔ Walks node b (cur ++ [n]) rest q j := by
  constructor
  · rintro (_ | ⟨_, _, hw⟩ | ⟨hl, _⟩)
    · exact hw
    · rw [hn] at hl
      cases hl
      exact hr.elim
  · exact fun hw => .real hn hr hw

lemma walks_cons_link_iff {node : Lookup ν} {t : List ν} (hn : node (cur ++ [n]) = some (.link t)) :
    Walks node b cur (n :: rest) q j ↔ ∃ b', b = b' + 1 ∧ Walks node b' [] (t ++ rest) q j := by
  constructor
  · rintro (_ | ⟨hk, hr, _⟩ | ⟨hl, hw⟩)
    · rw [hn] at hk
      cases hk
      exact hr.elim
    · rw [hn] at hl
      cases hl
      exact ⟨_, rfl, hw⟩
  · rintro ⟨b', rfl, hw⟩
    exact .link hn hw

lemma not_walks_cons {node : Lookup ν} (hn : node (cur ++ [n]) = none) :
    ¬ Walks node b cur (n :: rest) q j := by
  rintro (_ | ⟨hk, _, _⟩ | ⟨hl, _⟩)
  · rw [hn] at hk
    cases hk
  · rw [hn] at hl
    cases hl

lemma walkWith_eq_some_iff {node : Lookup ν} {follow : List ν → Option (List ν × Nat)}
    (h : ∀ path, follow path = some (q, j) ↔ ∃ b', b = b' + 1 ∧ Walks node b' [] path q j) :
    walkWith node follow b cur p = some (q, j) ↔ Walks node b cur p q j := by
  induction p generalizing cur with
  | nil =>
    simp only [walkWith, some.injEq, Prod.mk.injEq]
    constructor
    · rintro ⟨rfl, rfl⟩
      exact .nil _ _
    · rintro ⟨⟩
      exact ⟨rfl, rfl⟩
  | cons n rest ih =>
    rw [walkWith]
    cases hn : node (cur ++ [n]) with
    | none => exact iff_of_false nofun (not_walks_cons hn)
    | some k =>
      cases k with
      | link t => exact (h _).trans (walks_cons_link_iff hn).symm
      | file | dir => exact ih.trans (walks_cons_real_iff hn trivial).symm

lemma walk_eq_some_iff {node : Lookup ν} :
    walk node b cur p = some (q, j) ↔ Walks node b cur p q j := by
  induction b generalizing cur p with
  | zero =>
    apply walkWith_eq_some_iff
    simp
  | succ b ih =>
    apply walkWith_eq_some_iff
    intro path
    rw [ih]
    constructor
    · exact fun hw => ⟨b, rfl, hw⟩
    · rintro ⟨b', hb, hw⟩
      cases hb
      exact hw

section
variable {node node' : Lookup ν} {b j : Nat} {cur p q : List ν}

lemma Walks.unique {q' : List ν} {j' : Nat} (h : Walks node b cur p q j)
    (h' : Walks node b cur p q' j') : q = q' ∧ j = j' := by
  have heq := (walk_eq_some_iff.mpr h).symm.trans (walk_eq_some_iff.mpr h')
  simpa using heq

lemma Walks.leftover_le (h : Walks node b cur p q j) : j ≤ b := by
  induction h with
  | nil => exact le_refl _
  | real _ _ _ ih => exact ih
  | link _ _ ih => exact le_succ_of_le ih

lemma Walks.mono (hsub : ∀ l k, node l = some k → node' l = some k)
    (h : Walks node b cur p q j) : Walks node' b cur p q j := by
  induction h with
  | nil => exact .nil _ _
  | real hk hr _ ih => exact .real (hsub _ _ hk) hr ih
  | link hl _ ih => exact .link (hsub _ _ hl) ih

lemma walks_append_iff {s : List ν} :
    Walks node b cur (p ++ s) q j ↔ ∃ d k, Walks node b cur p d k ∧ Walks node k d s q j := by
  constructor
  · intro h
    generalize hps : p ++ s = path at h
    induction h generalizing p with
    | nil b cur =>
      obtain ⟨rfl, rfl⟩ := append_eq_nil_iff.mp hps
      exact ⟨cur, b, .nil _ _, .nil _ _⟩
    | @real b j cur rest q n k hk hr hw ih =>
      cases p with
      | nil =>
        subst hps
        exact ⟨cur, b, .nil _ _, .real hk hr hw⟩
      | cons m p =>
        obtain ⟨rfl, rfl⟩ := List.cons.inj hps
        obtain ⟨d, k', h₁, h₂⟩ := ih rfl
        exact ⟨d, k', .real hk hr h₁, h₂⟩
    | @link b j cur rest q t n hl hw ih =>
      cases p with
      | nil =>
        subst hps
        exact ⟨cur, b + 1, .nil _ _, .link hl hw⟩
      | cons m p =>
        obtain ⟨rfl, rfl⟩ := List.cons.inj hps
        obtain ⟨d, k', h₁, h₂⟩ := ih (append_assoc t p s)
        exact ⟨d, k', .link hl h₁, h₂⟩
  · rintro ⟨d, k, h₁, h₂⟩
    induction h₁ with
    | nil => exact h₂
    | real hk hr _ ih => exact .real hk hr (ih h₂)
    | link hl _ ih =>
      have hw := ih h₂
      rw [append_assoc] at hw
      exact .link hl hw

lemma Walks.shift (h : Walks node b cur p q j) (i : Nat) : Walks node (b + i) cur p q (j + i) := by
  induction h with
  | nil => exact .nil _ _
  | real hk hr _ ih => exact .real hk hr ih
  | @link b j cur rest q t n hl _ ih =>
    rw [Nat.add_right_comm]
    exact .link hl ih

lemma Walks.unshift {i : Nat} (h : Walks node (b + i) cur p q (j + i)) :
    Walks node b cur p q j := by
  generalize hb : b + i = b', hj : j + i = j' at h
  induction h generalizing b with
  | nil b' cur =>
    obtain rfl : b = j := by omega
    exact .nil _ _
  | real hk hr _ ih => exact .real hk hr (ih hb hj)
  | @link b' j' cur rest q t n hl hw ih =>
    have hle := hw.leftover_le
    cases b with
    | zero => omega
    | succ b => exact .link hl (ih (by omega) hj)

lemma Walks.of_mono {b' j' : Nat} {q' : List ν}
    (hsub : ∀ l k, node l = some k → node' l = some k) (h : Walks node b cur p q j)
    (h' : Walks node' b' cur p q' j') : ∃ i, Walks node b' cur p q i := by
  rcases Nat.le_total b b' with hle | hle
  · obtain ⟨i, rfl⟩ := Nat.exists_eq_add_of_le hle
    exact ⟨_, h.shift i⟩
  · obtain ⟨i, rfl⟩ := Nat.exists_eq_add_of_le hle
    obtain ⟨-, rfl⟩ := (h.mono hsub).unique (h'.shift i)
    exact ⟨j', h.unshift⟩

lemma Walks.of_le {b' : Nat} (h : Walks node b cur p q j) (hle : b ≤ b') :
    ∃ j', Walks node b' cur p q j' := by
  obtain ⟨i, rfl⟩ := Nat.exists_eq_add_of_le hle
  exact ⟨_, h.shift i⟩

lemma Walks.single_lt {n : ν} {depth : Nat} (h : Walks node b cur [n] q j)
    (hdepth : ∀ l k, node l = some k → l.length ≤ depth) :
    j * (depth + 1) + (depth - q.length) < b * (depth + 1) + (depth - cur.length) := by
  cases h with
  | @real _ _ _ _ _ _ k hk hr hw =>
    cases hw
    have hlen := hdepth _ _ hk
    rw [length_append, length_singleton] at hlen ⊢
    omega
  | @link b' _ _ _ _ t _ hl hw =>
    have hle : j * (depth + 1) ≤ b' * (depth + 1) := Nat.mul_le_mul_right _ hw.leftover_le
    rw [Nat.add_mul b' 1]
    omega

end

section
variable {node : Lookup ν} {r : List ν}

/-- Every link at or below `r` that ends with fewer than `b` links to follow ends there. -/
def LinksStay (node : Lookup ν) (r : List ν) (b : Nat) : Prop :=
  ∀ l t q b' j, r <+: l → node l = some (.link t) → b' < b → Walks node b' [] t q j → r <+: q

variable {b j : Nat} {q : List ν}

/-- If the links stay, no walk that starts at or below `r` leaves. -/
lemma Walks.stays (hstay : LinksStay node r b) {b' : Nat} {cur p : List ν} (hb : b' ≤ b)
    (hcur : r <+: cur) (h : Walks node b' cur p q j) : r <+: q := by
  induction b' using Nat.strong_induction_on generalizing cur p q j with
  | _ b' ihb =>
    induction p generalizing cur with
    | nil =>
      cases h
      exact hcur
    | cons n rest ihp =>
      cases h with
      | real hk hr hw => exact ihp (hcur.trans (prefix_append _ _)) hw
      | @link b₁ _ _ _ _ t _ hl hw =>
        obtain ⟨d, k, ht, hrest⟩ := walks_append_iff.mp hw
        have hd := hstay _ _ _ _ _ (hcur.trans (prefix_append _ _)) hl hb ht
        have hk := ht.leftover_le
        exact ihb k (by omega) (by omega) hd hrest

lemma Walks.stays_entry {d c : List ν} {n : ν} (hstay : LinksStay node (d ++ [n]) b)
    (h : Walks node b d (n :: c) q j) :
    d ++ [n] <+: q := by
  cases h with
  | real hk hr hw => exact hw.stays hstay (le_refl _) prefix_rfl
  | @link b₁ _ _ _ _ t _ hl hw =>
    obtain ⟨d', k, ht, hrest⟩ := walks_append_iff.mp hw
    have hd := hstay _ _ _ _ _ prefix_rfl hl (lt_succ_self _) ht
    have hk := ht.leftover_le
    exact hrest.stays hstay (by omega) hd

variable [DecidableEq ν]

def outside (node : Lookup ν) (r : List ν) : Lookup ν :=
  fun l => if r <+: l then none else node l

lemma outside_eq_some_iff {l : List ν} {k : Node ν} :
    outside node r l = some k ↔ ¬ r <+: l ∧ node l = some k := by
  unfold outside
  split_ifs with h <;> simp [h]

/-- A link at or below `r` whose own path leads away without touching this. -/
def Escapes (node : Lookup ν) (r : List ν) (b : Nat) : Prop :=
  ∃ l t q j, r <+: l ∧ node l = some (.link t) ∧ Walks (outside node r) b [] t q j ∧ ¬ r <+: q

/-- A walk that ends away from `r` does not touch `r`, or its last link at or below `r` leads away
by itself. -/
lemma Walks.outside_or_escapes {cur p : List ν} (hq : ¬ r <+: q) (h : Walks node b cur p q j) :
    (¬ r <+: cur ∧ Walks (outside node r) b cur p q j) ∨ ∃ b' < b, Escapes node r b' := by
  induction b using Nat.strong_induction_on generalizing cur p q j with
  | _ b ihb =>
    induction p generalizing cur with
    | nil =>
      cases h
      exact .inl ⟨hq, .nil _ _⟩
    | cons n rest ihp =>
      by_cases hcur : r <+: cur ++ [n]
      · -- the next entry is at or below `r`, so a link below `r` is still to come
        refine .inr ?_
        cases h with
        | real hk hr hw =>
          rcases ihp hw with ⟨hnot, -⟩ | hesc
          · exact absurd hcur hnot
          · exact hesc
        | @link b₁ _ _ _ _ t _ hl hw =>
          obtain ⟨d, k, ht, hrest⟩ := walks_append_iff.mp hw
          have hk := ht.leftover_le
          by_cases hd : r <+: d
          · rcases ihb k (by omega) hq hrest with ⟨hnot, -⟩ | ⟨b', hb', hesc⟩
            · exact absurd hd hnot
            · exact ⟨b', by omega, hesc⟩
          · rcases ihb b₁ (Nat.lt_succ_self _) hd ht with ⟨-, hout⟩ | ⟨b', hb', hesc⟩
            · exact ⟨b₁, Nat.lt_succ_self _, _, t, d, k, hcur, hl, hout, hd⟩
            · exact ⟨b', by omega, hesc⟩
      · have hcur' : ¬ r <+: cur := fun h' => hcur (h'.trans (prefix_append _ _))
        cases h with
        | real hk hr hw =>
          rcases ihp hw with ⟨-, hout⟩ | hesc
          · exact .inl ⟨hcur', .real (outside_eq_some_iff.mpr ⟨hcur, hk⟩) hr hout⟩
          · exact .inr hesc
        | @link b₁ _ _ _ _ t _ hl hw =>
          rcases ihb b₁ (Nat.lt_succ_self _) hq hw with ⟨-, hout⟩ | ⟨b', hb', hesc⟩
          · exact .inl ⟨hcur', .link (outside_eq_some_iff.mpr ⟨hcur, hl⟩) hout⟩
          · exact .inr ⟨b', by omega, hesc⟩

end

/-- Where a path leads when every link is followed, as `stat` finds it. -/
def resolve (node : Lookup ν) (b : Nat) (path : List ν) : Option (List ν) :=
  (walk node b [] path).map Prod.fst

/-- The entry a path names when a link at its end is not followed, as `lstat` finds it. -/
def locate (node : Lookup ν) (b : Nat) (path : List ν) : Option (List ν) :=
  match path.getLast? with
  | none => some []
  | some n => do
      let d ← resolve node b path.dropLast
      if (node (d ++ [n])).isSome then some (d ++ [n]) else none

lemma resolve_eq_some_iff {node : Lookup ν} :
    resolve node b path = some q ↔ ∃ j, Walks node b [] path q j := by
  rw [resolve, map_eq_some_iff]
  constructor
  · rintro ⟨⟨q', j⟩, h, rfl⟩
    exact ⟨j, walk_eq_some_iff.mp h⟩
  · rintro ⟨j, h⟩
    exact ⟨(q, j), walk_eq_some_iff.mpr h, rfl⟩

lemma locate_append_eq_some_iff {node : Lookup ν} : locate node b (p ++ [n]) = some l ↔
    ∃ d j, Walks node b [] p d j ∧ l = d ++ [n] ∧ (node l).isSome := by
  simp only [locate, getLast?_concat, dropLast_concat, bind_eq_bind,
    bind_eq_some_iff, resolve_eq_some_iff]
  constructor
  · rintro ⟨d, ⟨j, hd⟩, h⟩
    split_ifs at h with hsome
    obtain rfl : d ++ [n] = l := by simpa using h
    exact ⟨d, j, hd, rfl, hsome⟩
  · rintro ⟨d, j, hd, rfl, hsome⟩
    exact ⟨d, ⟨j, hd⟩, if_pos hsome⟩

lemma resolve_mono {node node' : Lookup ν} (hsub : ∀ l k, node l = some k → node' l = some k)
    (h : resolve node b path = some l) :
    resolve node' b path = some l := by
  obtain ⟨j, h⟩ := resolve_eq_some_iff.mp h
  exact resolve_eq_some_iff.mpr ⟨j, h.mono hsub⟩

lemma locate_mono {node node' : Lookup ν} (hsub : ∀ l k, node l = some k → node' l = some k)
    (h : locate node b path = some l) :
    locate node' b path = some l := by
  cases path using List.reverseRecOn with
  | nil => exact h
  | append_singleton p n =>
    obtain ⟨d, j, hd, rfl, hsome⟩ := locate_append_eq_some_iff.mp h
    obtain ⟨k, hk⟩ := isSome_iff_exists.mp hsome
    exact locate_append_eq_some_iff.mpr
      ⟨d, j, hd.mono hsub, rfl, by rw [hsub _ _ hk]; rfl⟩

variable [DecidableEq ν]

def lookupIn (entries : List (List ν × Node ν)) : Lookup ν :=
  fun l => if l = [] then some .dir else entries.lookup l

/-- Finitely many entries, each in a directory. -/
structure Disk (ν : Type*) [DecidableEq ν] where
  entries : List (List ν × Node ν)
  nodup : (entries.map Prod.fst).Nodup
  closed : ∀ e ∈ entries, e.1 ≠ [] ∧ lookupIn entries e.1.dropLast = some .dir

namespace Disk
variable {tree : Disk ν}

def node (tree : Disk ν) : Lookup ν := lookupIn tree.entries

def children (tree : Disk ν) (l : List ν) : List ν :=
  (tree.entries.filter fun e => e.1.dropLast = l).filterMap fun e => e.1.getLast?

variable {l cur w x : List ν} {b : Nat} {n : ν} {k : Node ν}

lemma lookup_isSome_iff {entries : List (List ν × Node ν)} :
    (entries.lookup l).isSome ↔ ∃ e ∈ entries, e.1 = l := by
  induction entries with
  | nil => simp
  | cons e rest ih =>
    obtain ⟨x, k⟩ := e
    rw [lookup_cons]
    by_cases h : l = x
    · simp [h]
    · have hne : (l == x) = false := by simpa using h
      simp [hne, Ne.symm h]

lemma isSome_of_walks {j : Nat} {p q : List ν} (hcur : (tree.node cur).isSome)
    (h : Walks tree.node b cur p q j) : (tree.node q).isSome := by
  induction h with
  | nil => exact hcur
  | real hk _ _ ih => exact ih (by rw [hk]; rfl)
  | link _ _ ih => exact ih (by rfl)

lemma node_append_isSome_iff :
    (tree.node (l ++ [n])).isSome ↔ ∃ e ∈ tree.entries, e.1 = l ++ [n] := by
  rw [node, lookupIn, if_neg (by simp), lookup_isSome_iff]

lemma mem_children_iff : n ∈ tree.children l ↔ (tree.node (l ++ [n])).isSome := by
  rw [node_append_isSome_iff, children]
  simp only [mem_filterMap, mem_filter, decide_eq_true_eq]
  constructor
  · rintro ⟨e, ⟨he, rfl⟩, hlast⟩
    exact ⟨e, he, (dropLast_append_getLast? n hlast).symm⟩
  · rintro ⟨e, he, heq⟩
    exact ⟨e, ⟨he, by simp [heq]⟩, by simp [heq]⟩

lemma node_parent (h : (tree.node (l ++ [n])).isSome) : tree.node l = some .dir := by
  obtain ⟨e, he, heq⟩ := node_append_isSome_iff.mp h
  have hdir := (tree.closed e he).2
  rwa [heq, dropLast_concat] at hdir

lemma node_of_below (hw : w ≠ []) (h : (tree.node (l ++ w)).isSome) : tree.node l = some .dir := by
  induction w using List.reverseRecOn with
  | nil => exact absurd rfl hw
  | append_singleton w x ih =>
    rw [← append_assoc] at h
    have hdir := node_parent h
    cases w with
    | nil => rwa [append_nil] at hdir
    | cons y w => exact ih (by simp) (by rw [hdir]; rfl)

lemma walks_dirs (h : tree.node (cur ++ w) = some k) (hreal : k.Real) :
    Walks tree.node b cur w (cur ++ w) b := by
  induction w generalizing cur with
  | nil =>
    rw [append_nil]
    exact .nil _ _
  | cons n rest ih =>
    rw [append_cons] at h ⊢
    cases rest with
    | nil =>
      rw [append_nil] at h ⊢
      exact .real h hreal (.nil _ _)
    | cons m rest =>
      have hdir : tree.node (cur ++ [n]) = some .dir :=
        node_of_below (cons_ne_nil m rest) (by rw [h]; rfl)
      exact .real hdir trivial (ih h)

lemma walks_link_iff {j : Nat} {t q : List ν} (hw : w ≠ [])
    (h : tree.node (cur ++ w) = some (.link t)) :
    Walks tree.node b cur w q j ↔ ∃ b', b = b' + 1 ∧ Walks tree.node b' [] t q j := by
  cases w using List.reverseRecOn with
  | nil => exact absurd rfl hw
  | append_singleton w n =>
  rw [← append_assoc] at h
  have hdirs : Walks tree.node b cur w (cur ++ w) b :=
    walks_dirs (node_parent (by rw [h]; rfl)) trivial
  rw [walks_append_iff]
  constructor
  · rintro ⟨d, k, hd, hn⟩
    obtain ⟨rfl, rfl⟩ := hdirs.unique hd
    rwa [walks_cons_link_iff h, append_nil] at hn
  · rintro ⟨b', rfl, hw⟩
    exact ⟨_, _, hdirs, .link h (by rwa [append_nil])⟩

def depth (tree : Disk ν) : Nat := (tree.entries.map fun e => e.1.length).foldr max 0

lemma length_le_depth (h : tree.node l = some k) : l.length ≤ tree.depth := by
  have hmax (ls : List Nat) (n : Nat) (hn : n ∈ ls) : n ≤ ls.foldr max 0 := by
    induction ls with
    | nil => cases hn
    | cons m rest ih =>
      rcases mem_cons.mp hn with rfl | hn
      · exact le_max_left _ _
      · exact le_trans (ih hn) (le_max_right _ _)
  cases l using List.reverseRecOn with
  | nil => exact zero_le _
  | append_singleton l n =>
    have hsome : (tree.node (l ++ [n])).isSome := by
      rw [h]
      rfl
    obtain ⟨e, he, heq⟩ := node_append_isSome_iff.mp hsome
    exact hmax _ _ (mem_map.mpr ⟨e, he, by rw [heq]⟩)

lemma lookup_filter_ne {entries : List (List ν × Node ν)} :
    (entries.filter fun e => e.1 ≠ l).lookup x = if x = l then none else entries.lookup x := by
  induction entries with
  | nil => simp
  | cons e rest ih =>
    obtain ⟨y, k⟩ := e
    by_cases hy : y = l
    · rw [filter_cons_of_neg (by simp [hy]), ih, lookup_cons]
      by_cases hx : x = l
      · simp [hx]
      · have hne : (x == y) = false := by simpa [hy] using hx
        simp [hne]
    · rw [filter_cons_of_pos (by simp [hy]), lookup_cons, lookup_cons, ih]
      by_cases hx : x = l
      · have hne : (x == y) = false := by simpa [hx] using Ne.symm hy
        simp only [hne]
      · simp only [if_neg hx]

def erase (tree : Disk ν) (l : List ν) (hleaf : tree.children l = []) : Disk ν where
  entries := tree.entries.filter fun e => e.1 ≠ l
  nodup := tree.nodup.sublist (filter_sublist.map _)
  closed := by
    intro e he
    obtain ⟨he, -⟩ := mem_filter.mp he
    obtain ⟨hne, hdir⟩ := tree.closed e he
    refine ⟨hne, ?_⟩
    have hparent : e.1.dropLast ≠ l := by
      intro heq
      have hmem : e.1.getLast hne ∈ tree.children l := by
        rw [mem_children_iff, ← heq, dropLast_append_getLast, node, lookupIn, if_neg hne]
        exact lookup_isSome_iff.mpr ⟨e, he, rfl⟩
      rw [hleaf] at hmem
      cases hmem
    unfold lookupIn at hdir ⊢
    rwa [lookup_filter_ne, if_neg hparent]

lemma node_erase (hleaf : tree.children l = []) (hl : l ≠ []) :
    (tree.erase l hleaf).node x = if x = l then none else tree.node x := by
  unfold node lookupIn erase
  by_cases hx : x = []
  · simp [hx, Ne.symm hl]
  · simp only [if_neg hx, lookup_filter_ne]

lemma node_of_erase (hleaf : tree.children l = []) (hl : l ≠ [])
    (h : (tree.erase l hleaf).node x = some k) : tree.node x = some k := by
  rw [node_erase hleaf hl] at h
  split_ifs at h
  exact h

end Disk

end Millennium.FileTree
