import Millennium.Loopback.Regions

/-!
# Conflicts

`apply_patches` looks for matched patches of different plugins whose ranges overlap in the file as
it is, and says that one of the two will be skipped. The loop that follows does not ask for it.
-/

namespace Millennium.Loopback

open Bytes Outcome Utf8 List

structure Conflict where
  winner : String
  loser : String
  first : Nat × Nat
  second : Nat × Nat
  loserIndex : Nat
  deriving Repr, DecidableEq

section
variable {Regex : Type} (engine : TextEngine Regex)

def conflictAt (patches : List (CompiledPatch Regex)) (content : Octets) (i j : Nat) :
    Option Conflict :=
  match patches[i]?, patches[j]? with
  | some p, some q =>
    if p.plugin = q.plugin then none
    else
      match engine.find p.find content, engine.find q.find content with
      | some (a, b), some (c, d) =>
        if a < d ∧ c < b then
          if p.plugin < q.plugin then some ⟨p.plugin, q.plugin, (a, b), (c, d), j⟩
          else some ⟨q.plugin, p.plugin, (a, b), (c, d), i⟩
        else none
      | _, _ => none
  | _, _ => none

def detectConflicts (patches : List (CompiledPatch Regex)) (content : Octets) : List Conflict :=
  (range patches.length).flatMap fun i =>
    (range' (i + 1) (patches.length - (i + 1))).filterMap
      (conflictAt engine patches content i)

/-- The patch at a position contributes when its turn has come. -/
def appliedAt (patches : List (CompiledPatch Regex)) (content : Octets) (n : Nat) : Bool :=
  match (patches.take n).foldlM (applyPatch engine) (content, []), patches[n]? with
  | .ok state, some patch =>
    match applyPatch engine state patch with
    | .ok state' => state'.2 != state.2
    | .error _ => false
  | _, _ => false

end

section
variable {Regex : Type} (engine : TextEngine Regex)

/-- No patch that was reported to be skipped is applied. -/
def ReportsTrue (set : PatchSet Regex) (content : Octets) (filename : String) : Prop :=
  engine.isUtf8 content = true → ∀ matched, matchedPatches engine set filename = .ok matched →
    ∀ conflict ∈ detectConflicts engine (byPlugin matched) content,
      appliedAt engine (byPlugin matched) content conflict.loserIndex = false

/-- The patches before a loser leave a buffer in which it finds nothing. -/
def LosersUnmatched (set : PatchSet Regex) (content : Octets) (filename : String) : Prop :=
  engine.isUtf8 content = true → ∀ matched, matchedPatches engine set filename = .ok matched →
    ∀ conflict ∈ detectConflicts engine (byPlugin matched) content, ∀ patch state,
      (byPlugin matched)[conflict.loserIndex]? = some patch →
      ((byPlugin matched).take conflict.loserIndex).foldlM (applyPatch engine) (content, []) =
        .ok state →
      engine.find patch.find state.1 = none

end

section
variable {Regex : Type} (engine : Utf8Engine Regex) {content : Octets}

lemma appliedAt_eq_false_iff {patches : List (CompiledPatch Regex)} {n : Nat}
    {patch : CompiledPatch Regex} {state : Octets × List String} (hcontent : IsUtf8 content)
    (hpatch : patches[n]? = some patch)
    (hstate : (patches.take n).foldlM (applyPatch engine.toTextEngine) (content, []) = .ok state) :
    appliedAt engine.toTextEngine patches content n = false ↔
    engine.find patch.find state.1 = none := by
  obtain ⟨state₀, hrun, hutf8⟩ := foldlM_applyPatch_utf8 engine (patches.take n) hcontent
  have hsame : state₀ = state := Except.ok.inj (hrun.symm.trans hstate)
  subst hsame
  obtain ⟨state', hturn⟩ := exists_goodTurn engine state₀ patch hutf8
  simp only [appliedAt, hrun, hpatch, hturn.turn]
  cases hfind : engine.find patch.find state₀.1 with
  | none => simp [hturn.unmatched hfind]
  | some range =>
    obtain ⟨start, stop⟩ := range
    obtain ⟨region, _, _, hlast⟩ := hturn.kept start stop hfind patch.transforms.length
    simp [hlast (Nat.le_refl _)]

end

section
variable {Regex : Type} {engine : TextEngine Regex} {patches : List (CompiledPatch Regex)}
  {content : Octets} {conflict : Conflict}

lemma conflictAt_eq_some {i j : Nat} (h : conflictAt engine patches content i j = some conflict) :
    ∃ p q, patches[i]? = some p ∧ patches[j]? = some q ∧ p.plugin ≠ q.plugin ∧
    engine.find p.find content = some conflict.first ∧
    engine.find q.find content = some conflict.second ∧
    conflict.first.1 < conflict.second.2 ∧ conflict.second.1 < conflict.first.2 ∧
    (conflict.loserIndex = j ∧ conflict.loser = q.plugin ∧ p.plugin < q.plugin ∨
    conflict.loserIndex = i ∧ conflict.loser = p.plugin ∧ ¬ p.plugin < q.plugin) := by
  cases hp : patches[i]? with
  | none => simp [conflictAt, hp] at h
  | some p =>
  cases hq : patches[j]? with
  | none => simp [conflictAt, hq] at h
  | some q =>
  by_cases hplugin : p.plugin = q.plugin
  · simp [conflictAt, hp, hq, hplugin] at h
  cases hfirst : engine.find p.find content with
  | none => simp [conflictAt, hp, hq, hfirst] at h
  | some first =>
  cases hsecond : engine.find q.find content with
  | none => simp [conflictAt, hp, hq, hsecond] at h
  | some second =>
  refine ⟨p, q, rfl, rfl, hplugin, ?_⟩
  simp only [conflictAt, hp, hq, hplugin, hfirst, hsecond] at h
  by_cases hoverlap : first.1 < second.2 ∧ second.1 < first.2
  · rw [if_pos hoverlap] at h
    by_cases horder : p.plugin < q.plugin
    · rw [if_pos horder] at h
      cases h
      exact ⟨hfirst, hsecond, hoverlap.1, hoverlap.2, Or.inl ⟨rfl, rfl, horder⟩⟩
    · rw [if_neg horder] at h
      cases h
      exact ⟨hfirst, hsecond, hoverlap.1, hoverlap.2, Or.inr ⟨rfl, rfl, horder⟩⟩
  · rw [if_neg hoverlap] at h
    contradiction

lemma exists_loser (h : conflict ∈ detectConflicts engine patches content) :
    ∃ patch, patches[conflict.loserIndex]? = some patch ∧ patch.plugin = conflict.loser := by
  obtain ⟨i, _, hi⟩ := mem_flatMap.mp h
  obtain ⟨j, _, hj⟩ := mem_filterMap.mp hi
  obtain ⟨p, q, hp, hq, _, _, _, _, _, hloser⟩ := conflictAt_eq_some hj
  obtain ⟨hindex, hname, _⟩ | ⟨hindex, hname, _⟩ := hloser
  · exact ⟨q, by rw [hindex, hq], hname.symm⟩
  · exact ⟨p, by rw [hindex, hp], hname.symm⟩

end

end Millennium.Loopback
