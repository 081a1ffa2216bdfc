import Millennium.Lib.Utf8
import Millennium.Loopback.PatchSet

/-!
# The region of a patch

The transforms of a patch rewrite the range that it finds one after the other; the end of the range
moves with each. What stands around it stays, and the buffer stays UTF-8.
-/

namespace Millennium.Loopback

open Bytes Outcome Utf8 List

/-- `regex` and `std::str` on UTF-8: matches are on character boundaries, replacements are texts. -/
structure Utf8Engine (Regex : Type) extends TextEngine Regex where
  isUtf8_eq : ∀ text, isUtf8 text = text.toByteArray.validateUTF8
  find_boundaries : ∀ {r text start stop}, IsUtf8 text → find r text = some (start, stop) →
    IsBoundary text start ∧ IsBoundary text stop
  replaceAll_utf8 : ∀ {r text rep}, IsUtf8 text → IsUtf8 (replaceAll r text rep)

section
variable {Regex : Type}

/-- The range lies in the buffer, and what was around the first range is unchanged and in place. -/
structure KeepsRegion (buf : Octets) (start stop : Nat) (region : Octets × Nat) : Prop where
  start_le : start ≤ region.2
  le_length : region.2 ≤ region.1.length
  before : region.1.take start = buf.take start
  after : region.1.drop region.2 = buf.drop stop

def byPlugin (matched : List (CompiledPatch Regex)) : List (CompiledPatch Regex) :=
  matched.mergeSort fun a b => a.plugin ≤ b.plugin

/-- A turn of the loop: every transform keeps the range, and the buffer stays UTF-8. -/
structure GoodTurn (engine : TextEngine Regex) (patch : CompiledPatch Regex)
    (state state' : Octets × List String) : Prop where
  turn : applyPatch engine state patch = .ok state'
  unmatched : engine.find patch.find state.1 = none → state' = state
  kept : ∀ start stop, engine.find patch.find state.1 = some (start, stop) →
    ∀ n, ∃ region, (patch.transforms.take n).foldlM (applyScoped engine start) (state.1, stop) =
        .ok region ∧ KeepsRegion state.1 start stop region ∧
      (patch.transforms.length ≤ n → state' = (region.1, state.2 ++ [patch.plugin]))
  utf8 : IsUtf8 state'.1

/-- Every patch that is reached takes a good turn, and the last buffer is what is served. -/
structure KeepsRegions (engine : TextEngine Regex) (matched : List (CompiledPatch Regex))
    (content : Octets) : Prop where
  turns : ∀ n patch, (byPlugin matched)[n]? = some patch → ∃ state state',
    ((byPlugin matched).take n).foldlM (applyPatch engine) (content, []) = .ok state ∧
      GoodTurn engine patch state state'
  served : ∀ final, runPatches engine content matched = .ok (some final) →
    (byPlugin matched).foldlM (applyPatch engine) (content, []) = .ok final ∧ IsUtf8 final.1

end

section
variable {Regex : Type} (engine : Utf8Engine Regex)

lemma Utf8Engine.isUtf8_iff {text : Octets} : engine.isUtf8 text = true ↔ IsUtf8 text := by
  rw [engine.isUtf8_eq]
  exact validateUTF8_iff text

def HasRegion (before after : Octets) (region : Octets × Nat) : Prop :=
  ∃ middle, IsUtf8 middle ∧ region = (before ++ middle ++ after, before.length + middle.length)

variable {before after : Octets} {region : Octets × Nat}

lemma HasRegion.keeps {middle : Octets} (h : HasRegion before after region) :
    KeepsRegion (before ++ middle ++ after) before.length (before.length + middle.length)
      region := by
  obtain ⟨middle', _, rfl⟩ := h
  refine ⟨Nat.le_add_right _ _, ?_, ?_, ?_⟩
  · simp only [length_append]
    omega
  · simp only [append_assoc, take_left]
  · rw [← length_append, ← length_append, drop_left, drop_left]

lemma applyScoped_region (region : Octets × Nat) (transform : Regex × String)
    (h : HasRegion before after region) :
    ∃ region', applyScoped engine.toTextEngine before.length region transform = .ok region' ∧
    HasRegion before after region' := by
  obtain ⟨middle, hmiddle, rfl⟩ := h
  have hslice : sliceOf (before ++ middle ++ after) before.length
      (before.length + middle.length) = .ok middle := by
    rw [sliceOf_ok ⟨Nat.le_add_right _ _, by simp only [length_append]; omega⟩,
      Nat.add_sub_cancel_left, slice_middle]
  refine ⟨_, ?_, engine.replaceAll transform.1 middle transform.2,
    engine.replaceAll_utf8 hmiddle, rfl⟩
  simp only [applyScoped, hslice, ok_bind, engine.isUtf8_iff.mpr hmiddle]
  rw [← length_append, drop_left, append_assoc before, take_left]
  rfl

lemma foldlM_applyScoped_region (transforms : List (Regex × String))
    (h : HasRegion before after region) :
    ∃ region', transforms.foldlM (applyScoped engine.toTextEngine before.length) region =
    .ok region' ∧ HasRegion before after region' :=
  foldlM_ok (HasRegion before after) (applyScoped_region engine)
    transforms h

lemma HasRegion.utf8 (h : HasRegion before after region) (hbefore : IsUtf8 before)
    (hafter : IsUtf8 after) :
    IsUtf8 region.1 := by
  obtain ⟨middle, hmiddle, rfl⟩ := h
  exact (hbefore.append hmiddle).append hafter

lemma exists_goodTurn (state : Octets × List String) (patch : CompiledPatch Regex)
    (hutf8 : IsUtf8 state.1) : ∃ state', GoodTurn engine.toTextEngine patch state state' := by
  have hcheck := engine.isUtf8_iff.mpr hutf8
  cases hfind : engine.find patch.find state.1 with
  | none =>
    refine ⟨state, ?_, fun _ => rfl, fun start stop hsome => ?_, hutf8⟩
    · simp [applyPatch, hfind]
    · rw [hfind] at hsome
      contradiction
  | some range =>
    obtain ⟨start, stop⟩ := range
    have hin := engine.find_inside hfind
    obtain ⟨hstart, hstop⟩ := engine.find_boundaries hutf8 hfind
    obtain ⟨before, middle, after, hbefore, hmiddle, hafter, htext, rfl, rfl⟩ :=
      split_at_boundaries hin.1 hstart hstop
    have hfirst : HasRegion before after (state.1, before.length + middle.length) :=
      ⟨middle, hmiddle, by rw [htext]⟩
    obtain ⟨last, hrun, hlast⟩ := foldlM_applyScoped_region engine
      patch.transforms hfirst
    refine ⟨(last.1, state.2 ++ [patch.plugin]), ?_, fun hnone => ?_, fun start stop hsome n => ?_,
      hlast.utf8 hbefore hafter⟩
    · have hkeeps : KeepsRegion state.1 before.length (before.length + middle.length) last :=
        htext ▸ hlast.keeps
      simp only [applyPatch, hcheck, hfind]
      rw [sliceOf_ok hin, ok_bind, hrun, ok_bind,
        sliceOf_ok ⟨hkeeps.start_le, hkeeps.le_length⟩]
      rfl
    · rw [hfind] at hnone
      contradiction
    · rw [hfind] at hsome
      cases hsome
      obtain ⟨region, hregion, hhas⟩ := foldlM_applyScoped_region engine
        (patch.transforms.take n) hfirst
      refine ⟨region, hregion, htext ▸ hhas.keeps, fun hall => ?_⟩
      rw [take_of_length_le hall, hrun] at hregion
      rw [Except.ok.inj hregion]

end

section
variable {Regex : Type} (engine : Utf8Engine Regex)

lemma foldlM_applyPatch_utf8 (patches : List (CompiledPatch Regex)) {content : Octets}
    (hcontent : IsUtf8 content) : ∃ state,
    patches.foldlM (applyPatch engine.toTextEngine) (content, []) = .ok state ∧
    IsUtf8 state.1 := by
  apply foldlM_ok (fun state : Octets × List String => IsUtf8 state.1) ?_ patches hcontent
  intro state patch hutf8
  obtain ⟨state', hturn⟩ := exists_goodTurn engine state patch hutf8
  exact ⟨state', hturn.turn, hturn.utf8⟩

lemma keepsRegions_of_utf8 (matched : List (CompiledPatch Regex)) {content : Octets}
    (hcontent : IsUtf8 content) : KeepsRegions engine.toTextEngine matched content := by
  constructor
  · intro n patch _
    obtain ⟨state, hrun, hutf8⟩ := foldlM_applyPatch_utf8 engine
      ((byPlugin matched).take n) hcontent
    obtain ⟨state', hturn⟩ := exists_goodTurn engine state patch hutf8
    exact ⟨state, state', hrun, hturn⟩
  · intro final hserved
    obtain ⟨state, hrun, hutf8⟩ := foldlM_applyPatch_utf8 engine (byPlugin matched) hcontent
    have hstate : runPatches engine.toTextEngine content matched =
        if state.2 = [] then .ok none else .ok (some state) := by
      change ((byPlugin matched).foldlM (applyPatch engine.toTextEngine) (content, []) >>= _) = _
      rw [hrun, ok_bind]
    rw [hstate] at hserved
    by_cases hnobody : state.2 = []
    · rw [if_pos hnobody] at hserved
      cases hserved
    · rw [if_neg hnobody] at hserved
      cases hserved
      exact ⟨hrun, hutf8⟩

end

/-- Whatever the patterns find and put in place, `apply_patches` changes a UTF-8 file only in the
ranges that the patches find, one patch after the other, and keeps it UTF-8. -/
theorem patches_keep_regions {Regex : Type} (engine : Utf8Engine Regex) (set : PatchSet Regex)
    (content : Octets) (filename : String) (hcontent : IsUtf8 content)
    {matched : List (CompiledPatch Regex)}
    (hmatched : matchedPatches engine.toTextEngine set filename = .ok matched) :
    applyPatches engine.toTextEngine set content filename =
        runPatches engine.toTextEngine content matched ∧
      KeepsRegions engine.toTextEngine matched content := by
  refine ⟨?_, keepsRegions_of_utf8 engine matched hcontent⟩
  have hcheck := engine.isUtf8_iff.mpr hcontent
  simp only [applyPatches, hcheck, Bool.not_true, Bool.false_eq_true, if_false]
  by_cases hnone : matchedIndices engine.toTextEngine set filename = []
  · rw [if_pos hnone]
    rw [matchedPatches, hnone, mapM_nil] at hmatched
    rw [← Except.ok.inj hmatched, runPatches_nil]
  · rw [if_neg hnone, hmatched, ok_bind]

def wholeEngine : Utf8Engine String where
  isUtf8 text := text.toByteArray.validateUTF8
  compile := some
  isMatch pattern text := pattern = text
  find _ text := some (0, text.length)
  replaceAll _ text rep := text ++ encode rep.toList
  find_inside h := by
    cases h
    exact ⟨Nat.zero_le _, Nat.le_refl _⟩
  isUtf8_eq _ := rfl
  find_boundaries hutf8 h := by
    cases h
    obtain ⟨chars, rfl⟩ := hutf8
    exact ⟨⟨[], chars, rfl, rfl⟩, ⟨chars, [], (append_nil _).symm, rfl⟩⟩
  replaceAll_utf8 hutf8 := hutf8.append (isUtf8_encode _)

/-- A file of one character, and a patch with two transforms. -/
theorem wholeEngine_keeps_regions :
    applyPatches wholeEngine.toTextEngine ⟨["f.js"], [⟨"p", "x", [("y", "a"), ("z", "b")]⟩]⟩
          [0xC3, 0xA9] "f.js" =
        runPatches wholeEngine.toTextEngine [0xC3, 0xA9] [⟨"p", "x", [("y", "a"), ("z", "b")]⟩] ∧
      KeepsRegions wholeEngine.toTextEngine [⟨"p", "x", [("y", "a"), ("z", "b")]⟩] [0xC3, 0xA9] :=
  patches_keep_regions wholeEngine _ _ _ ⟨['é'], by decide⟩ rfl

end Millennium.Loopback
