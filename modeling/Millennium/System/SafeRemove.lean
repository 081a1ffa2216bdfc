import Millennium.Lib.FileTree
import Mathlib.Data.List.Sort

/-!
# Removing a plugin directory

`safe_remove_directory` collects all paths below a directory, then changes the permissions of each
and removes it. All but `remove` follow symbolic links. The model keeps the removals made so far and
logs every entry that is touched.
-/

namespace Millennium.System

open FileTree List Option Disk

variable {ν : Type*} [DecidableEq ν]

inductive Effect (ν : Type*) where
  | permissions (location : List ν)
  | removed (location : List ν)
  deriving Repr, DecidableEq

def Effect.location : Effect ν → List ν
  | .permissions l => l
  | .removed l => l

structure Collected (ν : Type*) where
  files : List (List ν)
  dirs : List (List ν)
  deriving Repr, DecidableEq

def collectEntries (node : Lookup ν) (b : Nat) (collectPaths : List ν → Option (Collected ν))
    (current : List ν) : List ν → Collected ν → Option (Collected ν)
  | [], acc => some acc
  | n :: rest, acc =>
    match resolve node b (current ++ [n]) with
    -- `is_directory` has set `ec`, and nothing clears it: the rest is skipped
    | none => some acc
    | some l =>
      if node l = some .dir then do
        let inner ← collectPaths (current ++ [n])
        collectEntries node b collectPaths current rest
          ⟨acc.files ++ inner.files, acc.dirs ++ inner.dirs ++ [current ++ [n]]⟩
      else
        collectEntries node b collectPaths current rest
          ⟨acc.files ++ [current ++ [n]], acc.dirs⟩

/-- `collectPaths`, for a depth of recursion and the order in which a directory is listed. -/
def collectPaths (node : Lookup ν) (b : Nat) (order : List ν → List ν) :
    Nat → List ν → Option (Collected ν)
  | 0, _ => none
  | fuel + 1, current =>
    match resolve node b current with
    | none => some ⟨[], []⟩
    | some l =>
      if node l = some .dir then
        collectEntries node b (collectPaths node b order fuel) current (order l) ⟨[], []⟩
      else some ⟨[], []⟩

structure Run (ν : Type*) [DecidableEq ν] where
  tree : Disk ν
  effects : List (Effect ν)

def permissions (b : Nat) (run : Run ν) (path : List ν) : Run ν :=
  match resolve run.tree.node b path with
  | none => run
  | some l => { run with effects := run.effects ++ [.permissions l] }

def remove (b : Nat) (run : Run ν) (path : List ν) : Run ν :=
  match locate run.tree.node b path with
  | none => run
  | some l =>
    if h : l ≠ [] ∧ run.tree.children l = [] then
      ⟨run.tree.erase l h.2, run.effects ++ [.removed l]⟩
    else run

def deletePath (b : Nat) (run : Run ν) (path : List ν) : Run ν :=
  remove b (permissions b run path) path

/-- What the standard leaves open: the order of entries, and of paths of one length. -/
structure Unspecified (tree : Disk ν) where
  order : List ν → List ν
  order_perm : ∀ l, (order l).Perm (tree.children l)
  sort : List (List ν) → List (List ν)
  sort_perm : ∀ dirs, (sort dirs).Perm dirs
  sort_sorted : ∀ dirs, (sort dirs).Pairwise fun a c => c.length ≤ a.length

def safeRemoveDirectory (tree : Disk ν) (b : Nat) (u : Unspecified tree) (fuel : Nat)
    (root : List ν) : Option (Run ν) :=
  (collectPaths tree.node b u.order fuel root).map fun collected =>
    let run := collected.files.foldl (deletePath b) ⟨tree, []⟩
    let run := (u.sort collected.dirs).foldl (deletePath b) run
    deletePath b run root

/-- What is reached from an entry through real directories. -/
inductive OwnTree (node : Lookup ν) (r : List ν) : List ν → Prop
  | root : (node r).isSome → OwnTree node r r
  | child {l : List ν} {n : ν} : OwnTree node r l → node l = some .dir →
      (node (l ++ [n])).isSome → OwnTree node r (l ++ [n])

/-- The call ends, and touches only the root's own tree, whatever the standard leaves open. -/
def Confined (tree : Disk ν) (b : Nat) (root : List ν) : Prop :=
  ∀ u : Unspecified tree, ∃ fuel run, safeRemoveDirectory tree b u fuel root = some run ∧
    ∀ e ∈ run.effects, ∃ r, locate tree.node b root = some r ∧ OwnTree tree.node r e.location

/-- No link in the root's own tree leads out of it. -/
def LinksInside (tree : Disk ν) (b : Nat) (root : List ν) : Prop :=
  ∀ r w t q, locate tree.node b root = some r → tree.node (r ++ w) = some (.link t) →
    resolve tree.node b (root ++ w) = some q → OwnTree tree.node r q

/-- The path to the root's directory does not run through the root itself. -/
def ParentOutside (tree : Disk ν) (b : Nat) (root : List ν) : Prop :=
  ∀ r, locate tree.node b root = some r →
    resolve (outside tree.node r) b root.dropLast = resolve tree.node b root.dropLast

variable {tree : Disk ν} {l root : List ν} {b : Nat}

lemma ownTree_iff {r : List ν} : OwnTree tree.node r l ↔ r <+: l ∧ (tree.node l).isSome := by
  constructor
  · intro h
    induction h with
    | root hr => exact ⟨prefix_rfl, hr⟩
    | child _ _ hn ih => exact ⟨ih.1.trans (prefix_append _ _), hn⟩
  · rintro ⟨⟨w, rfl⟩, h⟩
    induction w using List.reverseRecOn with
    | nil =>
      rw [append_nil] at h ⊢
      exact .root h
    | append_singleton w n ih =>
      rw [← append_assoc] at h ⊢
      have hdir := node_parent h
      exact .child (ih (by rw [hdir]; rfl)) hdir h

section
variable {node : Lookup ν} {b : Nat} {descend : List ν → Option (Collected ν)}
  {cur : List ν}

lemma collectEntries_isSome {names : List ν}
    (hdescend : ∀ n ∈ names, ∀ l, resolve node b (cur ++ [n]) = some l →
    (descend (cur ++ [n])).isSome) (acc : Collected ν) :
    (collectEntries node b descend cur names acc).isSome := by
  induction names generalizing acc with
  | nil => rfl
  | cons n rest ih =>
    have hrest := ih (fun m hm => hdescend m (mem_cons_of_mem _ hm))
    rw [collectEntries]
    cases hl : resolve node b (cur ++ [n]) with
    | none => rfl
    | some l =>
      by_cases hdir : node l = some .dir
      · obtain ⟨inner, hinner⟩ := isSome_iff_exists.mp
          (hdescend n mem_cons_self l hl)
        simp only [if_pos hdir, hinner]
        exact hrest _
      · simp only [if_neg hdir]
        exact hrest _

lemma collectPaths_isSome {order : List ν → List ν} {depth fuel : Nat} {q : List ν} {j : Nat}
    (hdepth : ∀ l k, node l = some k → l.length ≤ depth) (h : Walks node b [] cur q j)
    (hfuel : j * (depth + 1) + (depth - q.length) < fuel) :
    (collectPaths node b order fuel cur).isSome := by
  induction fuel generalizing cur q j with
  | zero => cases hfuel
  | succ fuel ih =>
    rw [collectPaths, resolve_eq_some_iff.mpr ⟨j, h⟩]
    by_cases hdir : node q = some .dir
    · simp only [if_pos hdir]
      refine collectEntries_isSome (fun n _ l hl => ?_) _
      obtain ⟨j', hl⟩ := resolve_eq_some_iff.mp hl
      obtain ⟨d, k, hd, hn⟩ := walks_append_iff.mp hl
      obtain ⟨rfl, rfl⟩ := h.unique hd
      have hlt := hn.single_lt hdepth
      exact ih hl (by omega)
    · simp only [if_neg hdir]
      rfl

lemma collectEntries_sound {good : List ν → Prop} {names : List ν} {acc out : Collected ν}
    (hdescend : ∀ n inner, descend (cur ++ [n]) = some inner →
    ∀ path ∈ inner.files ++ inner.dirs, good path)
    (hself : ∀ n l, resolve node b (cur ++ [n]) = some l → good (cur ++ [n]))
    (hacc : ∀ path ∈ acc.files ++ acc.dirs, good path)
    (h : collectEntries node b descend cur names acc = some out) :
    ∀ path ∈ out.files ++ out.dirs, good path := by
  induction names generalizing acc with
  | nil =>
    cases h
    exact hacc
  | cons n rest ih =>
    rw [collectEntries] at h
    cases hl : resolve node b (cur ++ [n]) with
    | none =>
      rw [hl] at h
      cases h
      exact hacc
    | some l =>
      simp only [hl] at h
      by_cases hdir : node l = some .dir
      · simp only [if_pos hdir, bind_eq_bind, bind_eq_some_iff] at h
        obtain ⟨inner, hinner, h⟩ := h
        refine ih ?_ h
        intro path hpath
        simp only [mem_append, mem_singleton] at hpath
        have hin := hdescend n inner hinner path
        have hold := hacc path
        rw [mem_append] at hin hold
        rcases hpath with (hp | hp) | (hp | hp) | rfl
        · exact hold (.inl hp)
        · exact hin (.inl hp)
        · exact hold (.inr hp)
        · exact hin (.inr hp)
        · exact hself n l hl
      · simp only [if_neg hdir] at h
        refine ih ?_ h
        intro path hpath
        simp only [mem_append, mem_singleton] at hpath
        have hold := hacc path
        rw [mem_append] at hold
        rcases hpath with (hp | rfl) | hp
        · exact hold (.inl hp)
        · exact hself n l hl
        · exact hold (.inr hp)

lemma collectPaths_sound {order : List ν → List ν} {fuel : Nat} {out : Collected ν}
    (h : collectPaths node b order fuel cur = some out) :
    ∀ path ∈ out.files ++ out.dirs,
    (∃ c, path = cur ++ c) ∧ ∃ l, resolve node b path = some l := by
  induction fuel generalizing cur out with
  | zero => cases h
  | succ fuel ih =>
    rw [collectPaths] at h
    cases hl : resolve node b cur with
    | none =>
      rw [hl] at h
      cases h
      intro path hpath
      cases hpath
    | some l =>
      simp only [hl] at h
      by_cases hdir : node l = some .dir
      · rw [if_pos hdir] at h
        refine collectEntries_sound ?_ ?_ ?_ h
        · intro n inner hinner path hpath
          obtain ⟨⟨c, rfl⟩, hres⟩ := ih hinner path hpath
          exact ⟨⟨n :: c, by rw [append_assoc]; rfl⟩, hres⟩
        · exact fun n l hl => ⟨⟨[n], rfl⟩, l, hl⟩
        · intro path hpath
          cases hpath
      · rw [if_neg hdir] at h
        cases h
        intro path hpath
        cases hpath

end

section
variable {b : Nat} {run : Run ν} {path : List ν}

def Touches (node : Lookup ν) (b : Nat) (path l : List ν) : Prop :=
  resolve node b path = some l ∨ locate node b path = some l

def Within (tree tree' : Disk ν) : Prop :=
  ∀ l k, tree.node l = some k → tree'.node l = some k

@[simp] lemma permissions_tree : (permissions b run path).tree = run.tree := by
  unfold permissions
  cases resolve run.tree.node b path <;> rfl

lemma permissions_effects : (permissions b run path).effects = run.effects ++
    ((resolve run.tree.node b path).map Effect.permissions).toList := by
  unfold permissions
  cases resolve run.tree.node b path <;> simp

lemma remove_cases : remove b run path = run ∨
    ∃ l hleaf, locate run.tree.node b path = some l ∧ l ≠ [] ∧
    remove b run path = ⟨run.tree.erase l hleaf, run.effects ++ [.removed l]⟩ := by
  unfold remove
  cases hl : locate run.tree.node b path with
  | none => exact .inl rfl
  | some l =>
    by_cases h : l ≠ [] ∧ run.tree.children l = []
    · exact .inr ⟨l, h.2, rfl, h.1, by simp only [dif_pos h]⟩
    · exact .inl (by simp only [dif_neg h])

lemma deletePath_within : Within (deletePath b run path).tree run.tree := by
  intro l k h
  unfold deletePath at h
  rcases @remove_cases _ _ b (permissions b run path) path with heq | ⟨x, hleaf, -, hx, heq⟩
  · rwa [heq, permissions_tree] at h
  · rw [heq] at h
    have hk := node_of_erase hleaf hx h
    rwa [permissions_tree] at hk

variable {e : Effect ν}

lemma deletePath_effects_mono (h : e ∈ run.effects) : e ∈ (deletePath b run path).effects := by
  have hperm : e ∈ (permissions b run path).effects := by
    rw [permissions_effects]
    exact mem_append_left _ h
  unfold deletePath
  rcases @remove_cases _ _ b (permissions b run path) path with heq | ⟨x, hleaf, -, -, heq⟩
  · rwa [heq]
  · rw [heq]
    exact mem_append_left _ hperm

lemma deletePath_effects (h : e ∈ (deletePath b run path).effects) :
    e ∈ run.effects ∨ Touches run.tree.node b path e.location := by
  have hperm (he : e ∈ (permissions b run path).effects) :
      e ∈ run.effects ∨ Touches run.tree.node b path e.location := by
    rw [permissions_effects] at he
    rcases mem_append.mp he with he | he
    · exact .inl he
    · cases hl : resolve run.tree.node b path with
      | none =>
        rw [hl] at he
        cases he
      | some l =>
        rw [hl] at he
        obtain rfl : e = .permissions l := by simpa using he
        exact .inr (.inl hl)
  unfold deletePath at h
  rcases @remove_cases _ _ b (permissions b run path) path with heq | ⟨x, hleaf, hx, -, heq⟩
  · rw [heq] at h
    exact hperm h
  · rw [heq] at h
    rcases mem_append.mp h with h | h
    · exact hperm h
    · obtain rfl : e = .removed x := by simpa using h
      rw [permissions_tree] at hx
      exact .inr (.inr hx)

lemma foldl_deletePath_effects {tree : Disk ν} {paths : List (List ν)}
    (hwithin : Within run.tree tree) (h : e ∈ (paths.foldl (deletePath b) run).effects) :
    e ∈ run.effects ∨ ∃ path ∈ paths, Touches tree.node b path e.location := by
  induction paths generalizing run with
  | nil => exact .inl h
  | cons path rest ih =>
    have hnext : Within (deletePath b run path).tree tree :=
      fun l k hk => hwithin l k (deletePath_within l k hk)
    rcases ih hnext h with hold | ⟨p, hp, ht⟩
    · rcases deletePath_effects hold with hold | ht
      · exact .inl hold
      · exact .inr ⟨path, mem_cons_self, ht.imp (resolve_mono hwithin) (locate_mono hwithin)⟩
    · exact .inr ⟨p, mem_cons_of_mem _ hp, ht⟩

lemma foldl_deletePath_effects_mono {paths : List (List ν)} (h : e ∈ run.effects) :
    e ∈ (paths.foldl (deletePath b) run).effects := by
  induction paths generalizing run with
  | nil => exact h
  | cons path rest ih => exact ih (deletePath_effects_mono h)

end

def deletionOrder {tree : Disk ν} (u : Unspecified tree) (collected : Collected ν)
    (root : List ν) : List (List ν) :=
  collected.files ++ u.sort collected.dirs ++ [root]

lemma safeRemoveDirectory_eq (tree : Disk ν) (b : Nat) (u : Unspecified tree) (fuel : Nat)
    (root : List ν) :
    safeRemoveDirectory tree b u fuel root =
    (collectPaths tree.node b u.order fuel root).map fun collected =>
        (deletionOrder u collected root).foldl (deletePath b) ⟨tree, []⟩ := by
  simp [safeRemoveDirectory, deletionOrder]

lemma mem_deletionOrder {u : Unspecified tree} {collected : Collected ν} {path : List ν} :
    path ∈ deletionOrder u collected root ↔
    path ∈ collected.files ++ collected.dirs ∨ path = root := by
  simp only [deletionOrder, mem_append, mem_singleton, (u.sort_perm _).mem_iff]

lemma safeRemoveDirectory_terminates (tree : Disk ν) (b : Nat) (u : Unspecified tree)
    (root : List ν) : ∃ fuel run, safeRemoveDirectory tree b u fuel root = some run := by
  have hcollect : ∃ fuel, (collectPaths tree.node b u.order fuel root).isSome := by
    cases hroot : resolve tree.node b root with
    | none => exact ⟨1, by rw [collectPaths, hroot]; rfl⟩
    | some =>
      obtain ⟨j, hw⟩ := resolve_eq_some_iff.mp hroot
      exact ⟨_, collectPaths_isSome (fun l k => length_le_depth) hw (Nat.lt_succ_self _)⟩
  obtain ⟨fuel, hfuel⟩ := hcollect
  obtain ⟨collected, hcollected⟩ := isSome_iff_exists.mp hfuel
  exact ⟨fuel, _, by rw [safeRemoveDirectory_eq, hcollected]; rfl⟩

section
variable {tree : Disk ν} {b : Nat} {p d : List ν} {n : ν} {b₀ : Nat}

lemma walks_root_link_iff (hpar : Walks tree.node b [] p d b₀) {w t q : List ν}
    (hlink : tree.node (d ++ [n] ++ w) = some (.link t)) :
    (∃ j, Walks tree.node b [] (p ++ [n] ++ w) q j) ↔
    ∃ b' j, b' < b₀ ∧ Walks tree.node b' [] t q j := by
  rw [append_assoc] at hlink ⊢
  constructor
  · rintro ⟨j, hw⟩
    obtain ⟨d', k, hd, hrest⟩ := walks_append_iff.mp hw
    obtain ⟨rfl, rfl⟩ := hpar.unique hd
    obtain ⟨b', rfl, ht⟩ := (walks_link_iff (by simp) hlink).mp hrest
    exact ⟨b', j, Nat.lt_succ_self _, ht⟩
  · rintro ⟨b', j, hlt, ht⟩
    obtain ⟨j', ht'⟩ := ht.of_le (Nat.le_sub_one_of_lt hlt)
    refine ⟨j', walks_append_iff.mpr ⟨d, b₀, hpar, ?_⟩⟩
    exact (walks_link_iff (by simp) hlink).mpr ⟨b₀ - 1, by omega, ht'⟩

lemma linksStay_of_linksInside (hin : LinksInside tree b (p ++ [n]))
    (hpar : Walks tree.node b [] p d b₀) (hroot : (tree.node (d ++ [n])).isSome) :
    LinksStay tree.node (d ++ [n]) b₀ := by
  rintro l t q b' j ⟨w, rfl⟩ hlink hlt ht
  have hlocate : locate tree.node b (p ++ [n]) = some (d ++ [n]) :=
    locate_append_eq_some_iff.mpr ⟨d, b₀, hpar, rfl, hroot⟩
  have hresolve : resolve tree.node b (p ++ [n] ++ w) = some q :=
    resolve_eq_some_iff.mpr ((walks_root_link_iff hpar hlink).mpr ⟨b', j, hlt, ht⟩)
  exact (ownTree_iff.mp (hin _ w t q hlocate hlink hresolve)).1

lemma walks_inside (hin : LinksInside tree b (p ++ [n])) {c q : List ν} {j : Nat}
    (hw : Walks tree.node b [] (p ++ [n] ++ c) q j) :
    ∃ r, locate tree.node b (p ++ [n]) = some r ∧ r <+: q := by
  rw [append_assoc] at hw
  obtain ⟨d, b₀, hpar, hrest⟩ := walks_append_iff.mp hw
  have hroot : (tree.node (d ++ [n])).isSome := by
    cases hrest with
    | real hk => rw [hk]; rfl
    | link hl => rw [hl]; rfl
  exact ⟨d ++ [n], locate_append_eq_some_iff.mpr ⟨d, b₀, hpar, rfl, hroot⟩,
    hrest.stays_entry (linksStay_of_linksInside hin hpar hroot)⟩

lemma isSome_of_touches {path l : List ν} (h : Touches tree.node b path l) :
    (tree.node l).isSome := by
  rcases h with h | h
  · obtain ⟨j, hw⟩ := resolve_eq_some_iff.mp h
    exact isSome_of_walks (by rfl) hw
  · cases path using List.reverseRecOn with
    | nil =>
      cases h
      rfl
    | append_singleton =>
      obtain ⟨-, -, -, -, hsome⟩ := locate_append_eq_some_iff.mp h
      exact hsome

lemma touches_own {root c l : List ν} (hin : LinksInside tree b root)
    (h : Touches tree.node b (root ++ c) l) :
    ∃ r, locate tree.node b root = some r ∧ OwnTree tree.node r l := by
  have hsome := isSome_of_touches h
  cases root using List.reverseRecOn with
  | nil => exact ⟨[], rfl, ownTree_iff.mpr ⟨List.nil_prefix, hsome⟩⟩
  | append_singleton p n =>
    have hprefix : ∃ r, locate tree.node b (p ++ [n]) = some r ∧ r <+: l := by
      rcases h with h | h
      · obtain ⟨j, hw⟩ := resolve_eq_some_iff.mp h
        exact walks_inside hin hw
      · cases c using List.reverseRecOn with
        | nil => exact ⟨l, by rwa [append_nil] at h, prefix_rfl⟩
        | append_singleton =>
          rw [← append_assoc] at h
          obtain ⟨d, j, hw, rfl, -⟩ := locate_append_eq_some_iff.mp h
          obtain ⟨r, hr, hpre⟩ := walks_inside hin hw
          exact ⟨r, hr, hpre.trans (prefix_append _ _)⟩
    obtain ⟨r, hr, hpre⟩ := hprefix
    exact ⟨r, hr, ownTree_iff.mpr ⟨hpre, hsome⟩⟩

end

lemma confined_of_linksInside (hin : LinksInside tree b root) : Confined tree b root := by
  intro u
  obtain ⟨fuel, run, hrun⟩ := safeRemoveDirectory_terminates tree b u root
  refine ⟨fuel, run, hrun, ?_⟩
  rw [safeRemoveDirectory_eq, map_eq_some_iff] at hrun
  obtain ⟨collected, hcollected, rfl⟩ := hrun
  intro e he
  have hwithin : Within tree tree := fun l k h => h
  rcases foldl_deletePath_effects hwithin he with hold | ⟨path, hpath, ht⟩
  · cases hold
  · obtain ⟨c, rfl⟩ : ∃ c, path = root ++ c := by
      rcases mem_deletionOrder.mp hpath with hmem | rfl
      · exact (collectPaths_sound hcollected path hmem).1
      · exact ⟨[], (append_nil _).symm⟩
    exact touches_own hin ht

/-- A directory order that lists the next name on the way to `target` first. -/
def orderTowards (tree : Disk ν) (target : List ν) (l : List ν) : List ν :=
  (tree.children l).filter (fun x => l ++ [x] <+: target) ++
    (tree.children l).filter fun x => ¬ l ++ [x] <+: target

lemma orderTowards_perm (tree : Disk ν) (target l : List ν) :
    (orderTowards tree target l).Perm (tree.children l) := by
  have h := filter_append_perm (fun x => decide (l ++ [x] <+: target)) (tree.children l)
  simpa [orderTowards] using h

def sortByLength (dirs : List (List ν)) : List (List ν) :=
  dirs.insertionSort fun a c => c.length ≤ a.length

def towards (tree : Disk ν) (target : List ν) : Unspecified tree where
  order := orderTowards tree target
  order_perm := orderTowards_perm tree target
  sort := sortByLength
  sort_perm := fun dirs => perm_insertionSort _ dirs
  sort_sorted := fun dirs => by
    have : Std.Total fun a c : List ν => c.length ≤ a.length :=
      ⟨fun a c => Nat.le_total _ _⟩
    have : IsTrans (List ν) fun a c => c.length ≤ a.length :=
      ⟨fun a c e h₁ h₂ => Nat.le_trans h₂ h₁⟩
    exact pairwise_insertionSort _ dirs

lemma orderTowards_eq_cons {v : List ν} {x : ν} (h : (tree.node (l ++ [x])).isSome) :
    ∃ rest, orderTowards tree (l ++ x :: v) l = x :: rest := by
  have hmem : x ∈ (tree.children l).filter fun y => l ++ [y] <+: l ++ x :: v :=
    mem_filter.mpr ⟨mem_children_iff.mpr h, by simp⟩
  cases hf : (tree.children l).filter fun y => l ++ [y] <+: l ++ x :: v with
  | nil =>
    rw [hf] at hmem
    cases hmem
  | cons y =>
    have hy : y ∈ (tree.children l).filter fun y => l ++ [y] <+: l ++ x :: v := by
      rw [hf]
      exact mem_cons_self
    have hpre : l ++ [y] <+: l ++ x :: v := by simpa using (mem_filter.mp hy).2
    obtain rfl : y = x := by
      rw [prefix_append_right_inj, cons_prefix_cons] at hpre
      exact hpre.1
    exact ⟨_, by rw [orderTowards, hf]; rfl⟩

lemma collectEntries_acc {node : Lookup ν} {descend : List ν → Option (Collected ν)}
    {cur : List ν} {names : List ν} {acc out : Collected ν}
    (h : collectEntries node b descend cur names acc = some out) {path : List ν}
    (hpath : path ∈ acc.files ++ acc.dirs) : path ∈ out.files ++ out.dirs := by
  induction names generalizing acc with
  | nil =>
    cases h
    exact hpath
  | cons n rest ih =>
    rw [collectEntries] at h
    rw [mem_append] at hpath
    cases hl : resolve node b (cur ++ [n]) with
    | none =>
      rw [hl] at h
      cases h
      exact mem_append.mpr hpath
    | some l =>
      simp only [hl] at h
      by_cases hdir : node l = some .dir
      · simp only [if_pos hdir, bind_eq_bind, bind_eq_some_iff] at h
        obtain ⟨inner, -, h⟩ := h
        refine ih h ?_
        simp only [mem_append]
        exact hpath.imp .inl (fun hp => .inl (.inl hp))
      · simp only [if_neg hdir] at h
        refine ih h ?_
        simp only [mem_append]
        exact hpath.imp_left .inl

lemma collectPaths_towards {fuel j : Nat} {cur v target q : List ν} {out : Collected ν}
    (hv : v ≠ []) (htarget : target = l ++ v) (hsome : (tree.node target).isSome)
    (hcur : Walks tree.node b [] cur l j) (hq : resolve tree.node b (cur ++ v) = some q)
    (h : collectPaths tree.node b (orderTowards tree target) fuel cur = some out) :
    cur ++ v ∈ out.files ++ out.dirs := by
  induction v generalizing cur l j fuel out with
  | nil => exact absurd rfl hv
  | cons x v ih =>
    cases fuel with
    | zero => cases h
    | succ =>
      subst htarget
      have hl : tree.node l = some .dir := node_of_below hv hsome
      have hx : (tree.node (l ++ [x])).isSome := by
        cases v with
        | nil => exact hsome
        | cons y v =>
          rw [append_cons] at hsome
          rw [node_of_below (cons_ne_nil y v) hsome]
          rfl
      obtain ⟨rest, horder⟩ := orderTowards_eq_cons (v := v) hx
      rw [collectPaths, resolve_eq_some_iff.mpr ⟨j, hcur⟩] at h
      simp only [if_pos hl, horder] at h
      rw [collectEntries] at h
      cases v with
      | nil =>
        -- the target itself: its path is added on either branch
        simp only [hq] at h
        by_cases hdir : tree.node q = some .dir
        · simp only [if_pos hdir, bind_eq_bind, bind_eq_some_iff] at h
          obtain ⟨inner, -, h⟩ := h
          exact collectEntries_acc h (by simp)
        · simp only [if_neg hdir] at h
          exact collectEntries_acc h (by simp)
      | cons y v =>
        have hdir : tree.node (l ++ [x]) = some .dir :=
          node_of_below (cons_ne_nil y v) (by rwa [← append_cons])
        have hstep : Walks tree.node b [] (cur ++ [x]) (l ++ [x]) j :=
          walks_append_iff.mpr ⟨l, j, hcur, .real hdir trivial (.nil _ _)⟩
        simp only [resolve_eq_some_iff.mpr ⟨j, hstep⟩, if_pos hdir, bind_eq_bind,
          bind_eq_some_iff] at h
        obtain ⟨inner, hinner, h⟩ := h
        rw [append_cons] at hq ⊢
        have hmem := ih (cons_ne_nil y v) (append_cons l x (y :: v)) hstep hq hinner
        refine collectEntries_acc h ?_
        simp only [mem_append, nil_append] at hmem ⊢
        exact hmem.imp_right .inl

/-- A link of the tree at `d ++ [n]` that leads away, on a way that does not touch it. -/
structure Leak (tree : Disk ν) (b : Nat) (p d : List ν) (n : ν) (b₀ : Nat) (w t q : List ν) :
    Prop where
  parent : Walks (outside tree.node (d ++ [n])) b [] p d b₀
  link : tree.node (d ++ [n] ++ w) = some (.link t)
  target : ∃ b' j, b' < b₀ ∧ Walks (outside tree.node (d ++ [n])) b' [] t q j
  away : ¬ d ++ [n] <+: q

/-- The deletions so far have left the link, and everything away from the tree. -/
structure Intact (tree : Disk ν) (r w t : List ν) (run : Run ν) : Prop where
  kept : ∀ l k, outside tree.node r l = some k → run.tree.node l = some k
  within : Within run.tree tree
  present : run.tree.node (r ++ w) = some (.link t)

lemma outside_within (tree : Disk ν) (r : List ν) (l : List ν) (k : Node ν)
    (h : outside tree.node r l = some k) : tree.node l = some k :=
  (outside_eq_some_iff.mp h).2

section
variable {tree : Disk ν} {b b₀ : Nat} {p d w t q : List ν} {n : ν} {run : Run ν}

variable {path : List ν}

section
variable (hleak : Leak tree b p d n b₀ w t q) (hrun : Intact tree (d ++ [n]) w t run)
include hleak hrun

/-- While the link is there, `permissions` on a path to it that once resolved follows it away. -/
lemma Leak.followed {x : List ν} (hloc : locate run.tree.node b path = some (d ++ [n] ++ w))
    (hres : resolve tree.node b path = some x) : resolve run.tree.node b path = some q := by
  cases path using List.reverseRecOn with
  | nil =>
    simp [locate] at hloc
  | append_singleton p₀ m =>
    obtain ⟨d', b', hd', heq, -⟩ := locate_append_eq_some_iff.mp hloc
    obtain ⟨j, hw⟩ := resolve_eq_some_iff.mp hres
    obtain ⟨d'', b'', hd'', hm⟩ := walks_append_iff.mp hw
    obtain ⟨rfl, rfl⟩ := (hd'.mono hrun.within).unique hd''
    have hlink : tree.node (d' ++ [m]) = some (.link t) := heq ▸ hleak.link
    obtain ⟨b₁, rfl, ht⟩ := (walks_link_iff (cons_ne_nil m []) hlink).mp hm
    obtain ⟨b₂, j₂, -, htarget⟩ := hleak.target
    obtain ⟨i, hout⟩ := htarget.of_mono (outside_within tree _) ht
    have hfollow : Walks run.tree.node (b₁ + 1) d' [m] q i :=
      (walks_link_iff (cons_ne_nil m []) (heq ▸ hrun.present)).mpr
        ⟨b₁, rfl, hout.mono hrun.kept⟩
    exact resolve_eq_some_iff.mpr ⟨i, walks_append_iff.mpr ⟨d', b₁ + 1, hd', hfollow⟩⟩

lemma Leak.step
    (hres : locate tree.node b path = some (d ++ [n] ++ w) → ∃ x, resolve tree.node b path = some x)
    (hown : ∀ e ∈ (deletePath b run path).effects, d ++ [n] <+: e.location) :
    locate run.tree.node b path ≠ some (d ++ [n] ++ w) ∧
    Intact tree (d ++ [n]) w t (deletePath b run path) := by
  have hmiss : locate run.tree.node b path ≠ some (d ++ [n] ++ w) := by
    intro hloc
    obtain ⟨x, hx⟩ := hres (locate_mono hrun.within hloc)
    have hq := hleak.followed hrun hloc hx
    have hlogged : Effect.permissions q ∈ (permissions b run path).effects := by
      rw [permissions_effects, hq]
      simp
    refine hleak.away (hown (.permissions q) ?_)
    unfold deletePath
    rcases @remove_cases _ _ b (permissions b run path) path with heq | ⟨l, hleaf, -, -, heq⟩
    · rwa [heq]
    · rw [heq]
      exact mem_append_left _ hlogged
  refine ⟨hmiss, ?_⟩
  have hwithin : Within (deletePath b run path).tree tree :=
    fun l k hk => hrun.within l k (deletePath_within l k hk)
  unfold deletePath at hown hwithin ⊢
  rcases @remove_cases _ _ b (permissions b run path) path with heq | ⟨l, hleaf, hl, hne, heq⟩
  · rw [heq] at hwithin ⊢
    exact ⟨by simpa using hrun.kept, hwithin, by simpa using hrun.present⟩
  · rw [heq] at hown hwithin ⊢
    rw [permissions_tree] at hl
    have hbelow : d ++ [n] <+: l := hown (.removed l) (by simp)
    refine ⟨?_, hwithin, ?_⟩
    · intro x k hx
      have hxl : x ≠ l := by
        rintro rfl
        exact (outside_eq_some_iff.mp hx).1 hbelow
      rw [node_erase hleaf hne, if_neg hxl, permissions_tree]
      exact hrun.kept x k hx
    · have hxl : d ++ [n] ++ w ≠ l := fun heq => hmiss (by rw [hl, heq])
      rw [node_erase hleaf hne, if_neg hxl, permissions_tree]
      exact hrun.present

lemma Leak.foldl {paths : List (List ν)}
    (hres : ∀ path ∈ paths, locate tree.node b path = some (d ++ [n] ++ w) →
    ∃ x, resolve tree.node b path = some x)
    (hown : ∀ e ∈ (paths.foldl (deletePath b) run).effects, d ++ [n] <+: e.location)
    (hpath : path ∈ paths) :
    ∃ run', Intact tree (d ++ [n]) w t run' ∧
    locate run'.tree.node b path ≠ some (d ++ [n] ++ w) := by
  induction paths generalizing run with
  | nil => cases hpath
  | cons first rest ih =>
    obtain ⟨hmiss, hnext⟩ := hleak.step hrun (hres first mem_cons_self)
      (fun e he => hown e (@foldl_deletePath_effects_mono _ _ b _ e rest he))
    rcases mem_cons.mp hpath with rfl | hpath
    · exact ⟨run, hrun, hmiss⟩
    · exact ih hnext (fun x hx => hres x (mem_cons_of_mem _ hx)) hown hpath

lemma Leak.locate_own : locate run.tree.node b (p ++ [n] ++ w) = some (d ++ [n] ++ w) := by
  have hpar := hleak.parent.mono hrun.kept
  have hsome : (run.tree.node (d ++ [n] ++ w)).isSome := by
    rw [hrun.present]
    rfl
  cases w using List.reverseRecOn with
  | nil =>
    rw [append_nil] at hsome ⊢
    rw [append_nil]
    exact locate_append_eq_some_iff.mpr ⟨d, b₀, hpar, rfl, hsome⟩
  | append_singleton w =>
    rw [← append_assoc] at hsome ⊢
    rw [← append_assoc]
    have hdir := node_parent hsome
    rw [append_assoc] at hdir
    refine locate_append_eq_some_iff.mpr ⟨d ++ [n] ++ w, b₀, ?_, rfl, hsome⟩
    rw [append_assoc, append_assoc]
    exact walks_append_iff.mpr ⟨d, b₀, hpar, walks_dirs hdir trivial⟩

end

lemma Leak.not_confined (hleak : Leak tree b p d n b₀ w t q) : ¬ Confined tree b (p ++ [n]) := by
  intro hconf
  have hstart : Intact tree (d ++ [n]) w t ⟨tree, []⟩ :=
    ⟨outside_within tree _, fun l k h => h, hleak.link⟩
  have hpar := hleak.parent.mono (outside_within tree _)
  have hroot : (tree.node (d ++ [n])).isSome := by
    cases w with
    | nil =>
      have hlink := hleak.link
      rw [append_nil] at hlink
      rw [hlink]
      rfl
    | cons m w =>
      rw [node_of_below (cons_ne_nil m w) (by rw [hleak.link]; rfl)]
      rfl
  have hlocate : locate tree.node b (p ++ [n]) = some (d ++ [n]) :=
    locate_append_eq_some_iff.mpr ⟨d, b₀, hpar, rfl, hroot⟩
  have hresolve : resolve tree.node b (p ++ [n] ++ w) = some q := by
    obtain ⟨b', j, hlt, htarget⟩ := hleak.target
    exact resolve_eq_some_iff.mpr ((walks_root_link_iff hpar hleak.link).mpr
      ⟨b', j, hlt, htarget.mono (outside_within tree _)⟩)
  obtain ⟨fuel, final, hfinal, hown⟩ := hconf (towards tree (d ++ [n] ++ w))
  rw [safeRemoveDirectory_eq, map_eq_some_iff] at hfinal
  obtain ⟨collected, hcollected, rfl⟩ := hfinal
  -- the link's own path is among those deleted
  have hmem : p ++ [n] ++ w ∈ deletionOrder (towards tree (d ++ [n] ++ w)) collected (p ++ [n]) := by
    rw [mem_deletionOrder]
    by_cases hw : w = []
    · exact .inr (by rw [hw, append_nil])
    · refine .inl ?_
      have hdir : tree.node (d ++ [n]) = some .dir :=
        node_of_below hw (by rw [hleak.link]; rfl)
      have hcur : Walks tree.node b [] (p ++ [n]) (d ++ [n]) b₀ :=
        walks_append_iff.mpr ⟨d, b₀, hpar, .real hdir trivial (.nil _ _)⟩
      exact collectPaths_towards hw rfl (by rw [hleak.link]; rfl) hcur hresolve hcollected
  -- every other path resolved when it was collected
  have hres : ∀ path ∈ deletionOrder (towards tree (d ++ [n] ++ w)) collected (p ++ [n]),
      locate tree.node b path = some (d ++ [n] ++ w) → ∃ x, resolve tree.node b path = some x := by
    intro path hpath hloc
    rcases mem_deletionOrder.mp hpath with hpath | rfl
    · exact (collectPaths_sound hcollected path hpath).2
    · have hw : w = [] := by simpa using hlocate.symm.trans hloc
      rw [hw, append_nil] at hresolve
      exact ⟨q, hresolve⟩
  obtain ⟨run', hrun', hmiss⟩ := hleak.foldl hstart hres (fun e he => by
    obtain ⟨r, hr, hown⟩ := hown e he
    obtain rfl : d ++ [n] = r := by simpa using hlocate.symm.trans hr
    exact (ownTree_iff.mp hown).1) hmem
  exact hmiss (hleak.locate_own hrun')

end

/-- Confinement needs every link to stay inside, unless the way to the root runs through the root.
-/
lemma linksInside_of_confined (hpar : ParentOutside tree b root) (hconf : Confined tree b root) :
    LinksInside tree b root := by
  intro r w t q hr hlink hq
  obtain ⟨j, hw⟩ := resolve_eq_some_iff.mp hq
  have hsome : (tree.node q).isSome := isSome_of_walks (by rfl) hw
  cases root using List.reverseRecOn with
  | nil =>
    obtain rfl : [] = r := by simpa [locate] using hr
    exact ownTree_iff.mpr ⟨List.nil_prefix, hsome⟩
  | append_singleton p n =>
    refine ownTree_iff.mpr ⟨?_, hsome⟩
    by_contra haway
    have hsame := hpar r hr
    obtain ⟨d, b₀, hd, rfl, -⟩ := locate_append_eq_some_iff.mp hr
    rw [dropLast_concat, resolve_eq_some_iff.mpr ⟨b₀, hd⟩] at hsame
    obtain ⟨j₀, hout⟩ := resolve_eq_some_iff.mp hsame
    obtain ⟨-, rfl⟩ := hd.unique (hout.mono (outside_within tree _))
    rw [append_assoc] at hw
    obtain ⟨d', k, hd', hrest⟩ := walks_append_iff.mp hw
    obtain ⟨rfl, rfl⟩ := hd.unique hd'
    rcases hrest.outside_or_escapes haway with ⟨-, hno⟩ | ⟨b', hb', hesc⟩
    · -- a walk that starts with the root itself touches the root
      cases hno with
      | real hk => exact (outside_eq_some_iff.mp hk).1 prefix_rfl
      | link hl => exact (outside_eq_some_iff.mp hl).1 prefix_rfl
    · obtain ⟨l, t', q', j', ⟨w', rfl⟩, hlink', htarget, haway'⟩ := hesc
      have hleak : Leak tree b p d n b₀ w' t' q' :=
        ⟨hout, hlink', ⟨b', j', hb', htarget⟩, haway'⟩
      exact hleak.not_confined hconf

/-- Where the way to the root does not run through the root, the call is confined to
the root's own tree exactly when no link of that tree leads out of it. -/
theorem safe_remove_confined_iff (tree : Disk ν) (b : Nat) (root : List ν)
    (hparent : ParentOutside tree b root) :
    Confined tree b root ↔ LinksInside tree b root :=
  ⟨linksInside_of_confined hparent, confined_of_linksInside⟩

def linkedPlugin : Disk String where
  entries :=
    [(["home"], .dir), (["home", "notes"], .file), (["plugins"], .dir), (["plugins", "p"], .dir),
      (["plugins", "p", "docs"], .link ["home"])]
  nodup := by decide
  closed := by decide

lemma linkedPlugin_parentOutside : ParentOutside linkedPlugin 40 ["plugins", "p"] := by
  intro r hr
  have hlocate : locate linkedPlugin.node 40 ["plugins", "p"] = some ["plugins", "p"] := by decide
  obtain rfl : ["plugins", "p"] = r := by simpa using hlocate.symm.trans hr
  decide

theorem linkedPlugin_confined_iff :
    Confined linkedPlugin 40 ["plugins", "p"] ↔ LinksInside linkedPlugin 40 ["plugins", "p"] :=
  safe_remove_confined_iff linkedPlugin 40 ["plugins", "p"] linkedPlugin_parentOutside

theorem linkedPlugin_not_confined : ¬ Confined linkedPlugin 40 ["plugins", "p"] := by
  intro hconf
  have hin := linksInside_of_confined linkedPlugin_parentOutside hconf
  have hown := hin ["plugins", "p"] ["docs"] ["home"] ["home"] (by decide) (by decide) (by decide)
  exact absurd (ownTree_iff.mp hown).1 (by decide)

-- the file behind the link is removed, and the directory behind it made writable
example :
    (safeRemoveDirectory linkedPlugin 40 (towards linkedPlugin []) 90 ["plugins", "p"]).map
        Run.effects =
      some [.permissions ["home", "notes"], .removed ["home", "notes"], .permissions ["home"],
        .removed ["plugins", "p", "docs"], .permissions ["plugins", "p"],
        .removed ["plugins", "p"]] := by decide

end Millennium.System
