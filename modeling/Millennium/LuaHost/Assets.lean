import Mathlib.Data.List.DropRight
import Mathlib.Data.List.Lex
import Mathlib.Data.List.Nodup
import Mathlib.Data.String.Basic
import Millennium.Lib.Fields

/-!
# Names of assets

The assets of a plugin are a flat map. `assets_list` takes the parts of the names for directories
and marks them by a slash, and `assets_type` is asked about names without it.
-/

namespace Millennium.LuaHost.Assets

open List Fields

/-- The keys of `g_asset_index` in the order of the map. Names of files have no NUL. -/
structure AssetIndex where
  names : List (List Char)
  nodup : names.Nodup
  nulFree : ∀ name ∈ names, '\x00' ∉ name

inductive AssetKind where
  | file
  | directory
  deriving DecidableEq

def assetsType (index : AssetIndex) (path : List Char) : Option AssetKind :=
  if index.names.contains path then some .file
  else if index.names.any (fun key => key.take (path ++ ['/']).length = path ++ ['/']) then
    some .directory
  else none

/-- The directory without slashes at its end, and with one. -/
def dirPrefix (dir : List Char) : List Char :=
  let dir := dir.rdropWhile (· = '/')
  if dir = [] then [] else dir ++ ['/']

def addChild (pre : List Char) (children : List (List Char)) (key : List Char) : List (List Char) :=
  if pre ≠ [] ∧ key.take pre.length ≠ pre then children
  else
    match cutAt '/' (key.drop pre.length) with
    | none => children ++ [key.drop pre.length]
    | some (before, _) =>
      if children.contains (before ++ ['/']) then children else children ++ [before ++ ['/']]

def pushString (s : List Char) : List Char := s.takeWhile (· ≠ '\x00')

def assetsList (index : AssetIndex) (dir : List Char) : List (List Char) :=
  ((index.names.foldl (addChild (dirPrefix dir)) []).mergeSort (· ≤ ·)).map pushString

/-- A file in a directory, or with a slash a directory in it that some name goes through. -/
def Child (names : List (List Char)) (pre c : List Char) : Prop :=
  '/' ∉ c ∧ pre ++ c ∈ names ∨
    ∃ before, '/' ∉ before ∧ c = before ++ ['/'] ∧ ∃ rest, pre ++ (c ++ rest) ∈ names

def Below (names : List (List Char)) (path : List Char) : Prop :=
  ∃ name ∈ names, name ≠ path ∧ path.rdropWhile (· = '/') ++ ['/'] <+: name

/-- The immediate children are listed once and in order. -/
structure ListsChildren (index : AssetIndex) (dir : List Char) : Prop where
  sorted : (assetsList index dir).Pairwise (· < ·)
  children : ∀ c, c ∈ assetsList index dir ↔ Child index.names (dirPrefix dir) c

/-- The type of a child, as it is listed, is that of a directory or a file. -/
structure Agrees (index : AssetIndex) (dir : List Char) : Prop
    extends ListsChildren index dir where
  directory : ∀ c ∈ assetsList index dir, Below index.names (dirPrefix dir ++ c) →
    assetsType index (dirPrefix dir ++ c) = some .directory
  file : ∀ c ∈ assetsList index dir, dirPrefix dir ++ c ∈ index.names →
    assetsType index (dirPrefix dir ++ c) = some .file

def childPath (dir c : List Char) : List Char := dirPrefix dir ++ c.rdropWhile (· = '/')

section
variable {names : List (List Char)} {pre c rel key : List Char}

lemma child_concat : Child (names ++ [key]) pre c ↔ Child names pre c ∨ Child [key] pre c := by
  simp only [Child, mem_append]
  grind

def firstPart (rel : List Char) : List Char :=
  match cutAt '/' rel with
  | none => rel
  | some (before, _) => before ++ ['/']

lemma child_append : Child [pre ++ rel] pre c ↔ c = firstPart rel := by
  simp only [Child, mem_singleton, append_right_inj, firstPart]
  constructor
  · rintro (⟨hc, rfl⟩ | ⟨before, hbefore, rfl, rest, rfl⟩)
    · rw [cutAt_eq_none_iff.mpr hc]
    · rw [append_assoc, singleton_append, cutAt_append_cons hbefore]
  · rintro rfl
    cases hcut : cutAt '/' rel with
    | none => exact .inl ⟨cutAt_eq_none_iff.mp hcut, rfl⟩
    | some halves =>
      obtain ⟨heq, hbefore⟩ := cutAt_eq_some_iff.mp hcut
      exact .inr ⟨halves.1, hbefore, rfl, halves.2, by simp [heq]⟩

lemma addChild_append (children : List (List Char)) : addChild pre children (pre ++ rel) =
    if '/' ∈ rel ∧ firstPart rel ∈ children then children else children ++ [firstPart rel] := by
  rw [addChild, if_neg (by simp), drop_left, firstPart]
  cases hcut : cutAt '/' rel with
  | none => simp [cutAt_eq_none_iff.mp hcut]
  | some halves =>
    obtain ⟨rfl, -⟩ := cutAt_eq_some_iff.mp hcut
    simp

lemma children_spec (pre : List Char) (h : names.Nodup) :
    (names.foldl (addChild pre) []).Nodup ∧
      ∀ c, c ∈ names.foldl (addChild pre) [] ↔ Child names pre c := by
  induction names using reverseRecOn with
  | nil => simp [Child]
  | append_singleton names key ih =>
    obtain ⟨hnames, hkey⟩ : names.Nodup ∧ key ∉ names := by grind
    obtain ⟨hnodup, hmem⟩ := ih hnames
    rw [foldl_concat]
    generalize names.foldl (addChild pre) [] = children at hnodup hmem
    simp only [child_concat]
    by_cases hpre : pre <+: key
    · obtain ⟨rel, rfl⟩ := hpre
      -- a file of this name would be the same asset
      have hnew : '/' ∉ rel → firstPart rel ∉ children := by
        intro hrel hold
        rw [firstPart, cutAt_eq_none_iff.mpr hrel] at hold
        rcases (hmem rel).mp hold with ⟨-, hname⟩ | ⟨before, -, rfl, -⟩
        · exact hkey hname
        · exact hrel (by simp)
      simp only [child_append, addChild_append]
      grind
    · have hnot : ∀ c, ¬ Child [key] pre c := by
        rintro c (⟨-, hc⟩ | ⟨before, -, -, rest, hc⟩)
        · exact hpre ⟨_, mem_singleton.mp hc⟩
        · exact hpre ⟨_, mem_singleton.mp hc⟩
      rw [addChild,
        if_pos ⟨fun hnil => hpre (hnil ▸ nil_prefix), fun htake => hpre (htake ▸ take_prefix _ _)⟩]
      simpa [hnot] using ⟨hnodup, hmem⟩

lemma Child.sublist (h : Child names pre c) : ∃ name ∈ names, c.Sublist name := by
  rcases h with ⟨-, hname⟩ | ⟨before, -, -, rest, hname⟩
  · exact ⟨_, hname, sublist_append_right _ _⟩
  · exact ⟨_, hname, (sublist_append_left c rest).trans (sublist_append_right _ _)⟩

lemma rdropWhile_of_not_mem (h : '/' ∉ c) : c.rdropWhile (· = '/') = c := by
  rw [rdropWhile_eq_self_iff]
  intro hne hslash
  rw [decide_eq_true_eq] at hslash
  exact h (hslash ▸ getLast_mem hne)

end

lemma assetsList_eq (index : AssetIndex) (dir : List Char) : assetsList index dir =
    (index.names.foldl (addChild (dirPrefix dir)) []).mergeSort (· ≤ ·) := by
  have hwhole : ∀ c ∈ (index.names.foldl (addChild (dirPrefix dir)) []).mergeSort (· ≤ ·),
      pushString c = id c := by
    intro c hc
    rw [mem_mergeSort, (children_spec _ index.nodup).2] at hc
    obtain ⟨name, hname, hsub⟩ := hc.sublist
    refine takeWhile_eq_self_iff.mpr fun x hx => ?_
    have := index.nulFree name hname
    grind
  rw [assetsList, map_congr_left hwhole, map_id]

lemma mem_assetsList {index : AssetIndex} {dir c : List Char} :
    c ∈ assetsList index dir ↔ Child index.names (dirPrefix dir) c := by
  rw [assetsList_eq, mem_mergeSort, (children_spec _ index.nodup).2]

lemma assetsList_sorted (index : AssetIndex) (dir : List Char) :
    (assetsList index dir).Pairwise (· < ·) := by
  obtain ⟨hnodup, -⟩ := children_spec (dirPrefix dir) index.nodup
  have hle := @pairwise_mergeSort (List Char) (· ≤ ·) (by simpa using fun _ _ _ => le_trans)
    (by simpa using le_total) (index.names.foldl (addChild (dirPrefix dir)) [])
  rw [assetsList_eq]
  exact (hle.and ((mergeSort_perm _ _).nodup_iff.mpr hnodup)).imp fun h =>
    lt_of_le_of_ne (of_decide_eq_true h.1) h.2

/-- The immediate children are listed once and in order. Without the slash of a directory, the
type of a child is that of a file if it is one, and that of a directory otherwise. -/
theorem assetsList_children (index : AssetIndex) (dir : List Char) : ListsChildren index dir ∧
    ∀ c ∈ assetsList index dir, assetsType index (childPath dir c) =
      some (if childPath dir c ∈ index.names then .file else .directory) := by
  refine ⟨⟨assetsList_sorted index dir, fun _ => mem_assetsList⟩, fun c hc => ?_⟩
  simp only [assetsType, contains_iff_mem]
  split_ifs with hfile hdir
  · rfl
  · rfl
  · rcases mem_assetsList.mp hc with ⟨hc, hname⟩ | ⟨before, hbefore, rfl, rest, hname⟩
    · rw [childPath, rdropWhile_of_not_mem hc] at hfile
      exact absurd hname hfile
    · rw [childPath, rdropWhile_concat_pos _ _ _ (by simp), rdropWhile_of_not_mem hbefore] at hdir
      refine absurd (any_eq_true.mpr ⟨_, hname, decide_eq_true ?_⟩) hdir
      exact (prefix_iff_eq_take.mp ⟨rest, by simp⟩).symm

/-- A directory is listed with a slash, and nothing is found when its type is asked with it. -/
theorem listed_directory_untyped :
    ¬ Agrees ⟨["d/sub/x".toList], by decide, by decide⟩ ['d'] := by
  intro h
  have htype := h.directory "sub/".toList
    (mem_assetsList.mpr (.inr ⟨"sub".toList, by decide, by decide, ['x'], by decide⟩))
    ⟨"d/sub/x".toList, by decide, by decide, by decide⟩
  revert htype
  decide

end Millennium.LuaHost.Assets
