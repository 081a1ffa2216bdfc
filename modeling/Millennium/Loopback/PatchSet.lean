import Millennium.Lib.Alignment
import Millennium.Lib.Bytes
import Millennium.Lib.Outcome

/-!
# Patches and the files they name

`PatchSet::build` compiles the file patterns of all definitions into one set, and `apply_patches`
takes the patches at the positions that match. A definition whose `find` pattern does not compile is
in the set, but has no patch.
-/

namespace Millennium.Loopback

open Bytes Outcome Millennium.Alignment

/-- What the source uses of `regex` and `std::str`. A match lies in the text that was searched. -/
structure TextEngine (Regex : Type) where
  isUtf8 : Octets → Bool
  compile : String → Option Regex
  isMatch : Regex → String → Bool
  find : Regex → Octets → Option (Nat × Nat)
  replaceAll : Regex → Octets → String → Octets
  find_inside : ∀ {r text start stop}, find r text = some (start, stop) →
    start ≤ stop ∧ stop ≤ text.length

structure PatchDef where
  plugin : String
  file : String
  find : String
  transforms : List (String × String)
  deriving Repr, DecidableEq

structure CompiledPatch (Regex : Type) where
  plugin : String
  find : Regex
  transforms : List (Regex × String)

structure PatchSet (Regex : Type) where
  fileSet : List Regex
  patches : List (CompiledPatch Regex)

inductive Panic where
  | index (i : Nat)
  | range (start stop : Nat)
  deriving Repr, DecidableEq

def expandSelf (s plugin : String) : String :=
  s.replace "#\x7b\x7bself\x7d\x7d" ("window.PLUGIN_LIST['" ++ plugin ++ "']")

def re2ToRustRepChars : List Char → List Char
  | [] => []
  | '$' :: rest => '$' :: '$' :: re2ToRustRepChars rest
  | '\\' :: d :: rest =>
    if d.isDigit then '$' :: d :: re2ToRustRepChars rest
    else '\\' :: re2ToRustRepChars (d :: rest)
  | c :: rest => c :: re2ToRustRepChars rest

/-- Back references in the syntax of the `regex` crate; a dollar sign stands for itself. -/
def re2ToRustRep (s : String) : String := String.ofList (re2ToRustRepChars s.toList)

def sliceOf (buf : Octets) (start stop : Nat) : Except Panic Octets :=
  if stop < start ∨ buf.length < stop then .error (.range start stop)
  else .ok (slice buf start (stop - start))

section
variable {Regex : Type} (engine : TextEngine Regex)

/-- The patch of a definition. Transforms that do not compile are left out. -/
def compilePatch (d : PatchDef) : Option (CompiledPatch Regex) :=
  (engine.compile d.find).map fun find =>
    { plugin := d.plugin
      find := find
      transforms := d.transforms.filterMap fun (m, r) =>
        (engine.compile m).map fun pat => (pat, re2ToRustRep (expandSelf r d.plugin)) }

/-- `PatchSet::build`. One file pattern that does not compile discards the whole list. -/
def PatchSet.build (defs : List PatchDef) : Option (PatchSet Regex) :=
  (defs.mapM fun d => engine.compile d.file).map fun fileSet =>
    ⟨fileSet, defs.filterMap (compilePatch engine)⟩

/-- `apply_scoped`: the buffer and the new end of the region. -/
def applyScoped (start : Nat) (region : Octets × Nat) (transform : Regex × String) :
    Except Panic (Octets × Nat) := do
  let text ← sliceOf region.1 start region.2
  if !engine.isUtf8 text then .ok region
  else
    let replaced := engine.replaceAll transform.1 text transform.2
    .ok (region.1.take start ++ replaced ++ region.1.drop region.2, start + replaced.length)

/-- One turn of the loop over the patches: the buffer, and the plugins that contributed. -/
def applyPatch (state : Octets × List String) (patch : CompiledPatch Regex) :
    Except Panic (Octets × List String) :=
  if !engine.isUtf8 state.1 then .ok state
  else
    match engine.find patch.find state.1 with
    | none => .ok state
    | some (start, stop) => do
        let _ ← sliceOf state.1 start stop
        let region ← patch.transforms.foldlM (applyScoped engine start) (state.1, stop)
        let _ ← sliceOf region.1 start region.2
        .ok (region.1, state.2 ++ [patch.plugin])

def matchedIndices (set : PatchSet Regex) (filename : String) : List Nat :=
  positions (engine.isMatch · filename) set.fileSet

def matchedPatches (set : PatchSet Regex) (filename : String) :
    Except Panic (List (CompiledPatch Regex)) :=
  (matchedIndices engine set filename).mapM fun i => orError (.index i) set.patches[i]?

def runPatches (content : Octets) (matched : List (CompiledPatch Regex)) :
    Except Panic (Option (Octets × List String)) := do
  let sorted := matched.mergeSort fun a b => a.plugin ≤ b.plugin
  let final ← sorted.foldlM (applyPatch engine) (content, [])
  if final.2 = [] then .ok none else .ok (some final)

/-- `apply_patches`, without the events it sends and the conflicts it logs. -/
def applyPatches (set : PatchSet Regex) (content : Octets) (filename : String) :
    Except Panic (Option (Octets × List String)) :=
  if !engine.isUtf8 content then .ok none
  else if matchedIndices engine set filename = [] then .ok none
  else do
    let matched ← matchedPatches engine set filename
    runPatches engine content matched

/-- What a file becomes when the definitions are loaded. Without a set nothing is applied. -/
def patchFile (defs : List PatchDef) (content : Octets) (filename : String) :
    Except Panic (Option (Octets × List String)) :=
  match PatchSet.build engine defs with
  | none => .ok none
  | some set => applyPatches engine set content filename

end

section
variable {Regex : Type} (engine : TextEngine Regex)

def fileMatches (filename : String) (d : PatchDef) : Bool :=
  (engine.compile d.file).any (engine.isMatch · filename)

def origins (defs : List PatchDef) : List Nat :=
  (keptFrom (compilePatch engine) 0 defs).map Prod.snd

/-- Nothing is indexed out of range, and the patches are those of the definitions whose file pattern
matches. -/
def FollowsDefinitions (defs : List PatchDef) (filename : String) : Prop :=
  ∀ set, PatchSet.build engine defs = some set →
    (∀ content, ∃ r, applyPatches engine set content filename = .ok r) ∧
      matchedPatches engine set filename =
        .ok ((defs.filter (fileMatches engine filename)).filterMap (compilePatch engine)) ∧
      ∀ i ∈ matchedIndices engine set filename, (origins engine defs)[i]? = some i

/-- The `find` patterns compile, up to the last definition whose file pattern matches. -/
def FindsCompile (defs : List PatchDef) (filename : String) : Prop :=
  defs.Pairwise (fun d' d => fileMatches engine filename d → (engine.compile d'.find).isSome) ∧
    ∀ d ∈ defs, fileMatches engine filename d → (engine.compile d.find).isSome

end

open List

section
variable {Regex : Type} {engine : TextEngine Regex}

lemma sliceOf_ok {buf : Octets} {start stop : Nat} (h : start ≤ stop ∧ stop ≤ buf.length) :
    sliceOf buf start stop = .ok (slice buf start (stop - start)) :=
  if_neg (by omega)

lemma applyScoped_ok {start : Nat} (region : Octets × Nat) (transform : Regex × String)
    (h : start ≤ region.2 ∧ region.2 ≤ region.1.length) :
    ∃ region', applyScoped engine start region transform = .ok region' ∧
    start ≤ region'.2 ∧ region'.2 ≤ region'.1.length := by
  rw [applyScoped, sliceOf_ok h, ok_bind]
  split_ifs
  · exact ⟨region, rfl, h⟩
  · refine ⟨_, rfl, Nat.le_add_right _ _, ?_⟩
    simp only [length_append, length_take]
    omega

lemma applyPatch_ok (state : Octets × List String) (patch : CompiledPatch Regex) :
    ∃ state', applyPatch engine state patch = .ok state' := by
  unfold applyPatch
  split_ifs
  · exact ⟨state, rfl⟩
  split
  · exact ⟨state, rfl⟩
  · rename_i start stop hfind
    have hin := engine.find_inside hfind
    obtain ⟨region, hregion, hafter⟩ := foldlM_ok
      (fun region : Octets × Nat => start ≤ region.2 ∧ region.2 ≤ region.1.length)
      (fun region transform => applyScoped_ok region transform) patch.transforms
      (b := (state.1, stop)) hin
    rw [sliceOf_ok hin, ok_bind, hregion, ok_bind, sliceOf_ok hafter]
    exact ⟨_, rfl⟩

lemma runPatches_ok (text : Octets) (matched : List (CompiledPatch Regex)) :
    ∃ r, runPatches engine text matched = .ok r := by
  have hturn (state : Octets × List String) (patch : CompiledPatch Regex) (_ : True) :
      ∃ state', applyPatch engine state patch = .ok state' ∧ True :=
    (applyPatch_ok state patch).imp fun _ h => ⟨h, trivial⟩
  obtain ⟨final, hfinal, -⟩ := foldlM_ok (fun _ => True) hturn
    (matched.mergeSort fun a b => a.plugin ≤ b.plugin) (b := (text, [])) trivial
  rw [runPatches, hfinal, ok_bind]
  split_ifs
  · exact ⟨_, rfl⟩
  · exact ⟨_, rfl⟩

end

section
variable {Regex : Type} {engine : TextEngine Regex} {defs : List PatchDef}
  {set : PatchSet Regex} {filename : String}

lemma build_eq_some_iff : PatchSet.build engine defs = some set ↔
    List.Forall₂ (fun d r => engine.compile d.file = some r) defs set.fileSet ∧
    set.patches = defs.filterMap (compilePatch engine) := by
  rw [PatchSet.build, Option.map_eq_some_iff]
  constructor
  · rintro ⟨fileSet, hfiles, rfl⟩
    exact ⟨mapM_eq_some_iff.mp hfiles, rfl⟩
  · rintro ⟨hfiles, hpatches⟩
    exact ⟨set.fileSet, mapM_eq_some_iff.mpr hfiles, by rw [← hpatches]⟩

lemma build_isSome_iff :
    (PatchSet.build engine defs).isSome ↔ ∀ d ∈ defs, (engine.compile d.file).isSome := by
  rw [PatchSet.build, Option.isSome_map, mapM_isSome_iff]

lemma matchedIndices_eq (h : PatchSet.build engine defs = some set) :
    matchedIndices engine set filename = positions (fileMatches engine filename) defs := by
  refine (positions_congr ((build_eq_some_iff.mp h).1.imp fun d r hr => ?_)).symm
  rw [fileMatches, hr, Option.any_some]

lemma compilePatch_isSome {d : PatchDef} :
    (compilePatch engine d).isSome ↔ (engine.compile d.find).isSome := by
  rw [compilePatch, Option.isSome_map]

lemma matchedPatches_eq (h : PatchSet.build engine defs = some set)
    (hkept : ∀ i ∈ positions (fileMatches engine filename) defs, ∀ d ∈ defs.take (i + 1),
    (compilePatch engine d).isSome) :
    matchedPatches engine set filename =
    .ok ((defs.filter (fileMatches engine filename)).filterMap (compilePatch engine)) := by
  rw [matchedPatches, matchedIndices_eq h, (build_eq_some_iff.mp h).2]
  exact mapM_orError (map_getElem?_filterMap hkept)

lemma applyPatches_ok {matched : List (CompiledPatch Regex)}
    (h : matchedPatches engine set filename = .ok matched) (text : Octets) :
    ∃ r, applyPatches engine set text filename = .ok r := by
  unfold applyPatches
  split_ifs
  · exact ⟨_, rfl⟩
  · exact ⟨_, rfl⟩
  · rw [h]
    exact runPatches_ok text matched

lemma origins_getElem?_iff {i : Nat} (hi : i < defs.length) : (origins engine defs)[i]? = some i ↔
    ∀ d ∈ defs.take (i + 1), (compilePatch engine d).isSome := by
  have hiff := @getElem?_keptFrom_iff _ _ (compilePatch engine) defs 0 i
  rw [Nat.zero_add] at hiff
  rw [origins, getElem?_map, Option.map_eq_some_iff]
  constructor
  · rintro ⟨⟨patch, j⟩, hget, rfl⟩
    exact (hiff.mp ⟨patch, hget⟩).2
  · intro hall
    obtain ⟨patch, hget⟩ := hiff.mpr ⟨hi, hall⟩
    exact ⟨(patch, i), hget, rfl⟩

lemma findsCompile_iff : FindsCompile engine defs filename ↔
    ∀ i ∈ positions (fileMatches engine filename) defs, ∀ d ∈ defs.take (i + 1),
    (compilePatch engine d).isSome := by
  simp only [compilePatch_isSome]
  exact forall_take_positions_iff.symm

end

/-- Patches are applied to the files they name exactly when, if the file patterns compile,
so do the `find` patterns of the matching definitions and of all before them. -/
theorem follows_definitions_iff {Regex : Type} (engine : TextEngine Regex)
    (defs : List PatchDef) (filename : String) :
    FollowsDefinitions engine defs filename ↔
      ((∀ d ∈ defs, (engine.compile d.file).isSome) → FindsCompile engine defs filename) := by
  constructor
  · intro hfollows hfiles
    obtain ⟨set, hset⟩ := Option.isSome_iff_exists.mp (build_isSome_iff.mpr hfiles)
    obtain ⟨-, -, horigins⟩ := hfollows set hset
    rw [matchedIndices_eq hset] at horigins
    refine findsCompile_iff.mpr fun i hi => ?_
    obtain ⟨d, hget, -⟩ := mem_positions.mp hi
    exact (origins_getElem?_iff (List.getElem?_eq_some_iff.mp hget).1).mp (horigins i hi)
  · intro hcompile set hset
    have hfiles := build_isSome_iff.mp (Option.isSome_iff_exists.mpr ⟨set, hset⟩)
    have hkept := findsCompile_iff.mp (hcompile hfiles)
    have hmatched := matchedPatches_eq hset hkept
    refine ⟨applyPatches_ok hmatched, hmatched, fun i hi => ?_⟩
    rw [matchedIndices_eq hset] at hi
    obtain ⟨d, hget, -⟩ := mem_positions.mp hi
    exact (origins_getElem?_iff (List.getElem?_eq_some_iff.mp hget).1).mpr (hkept i hi)

def literalEngine : TextEngine String where
  isUtf8 _ := true
  compile pattern := if pattern = "(" then none else some pattern
  isMatch pattern text := pattern = text
  find _ _ := some (0, 0)
  replaceAll _ _ rep := rep.toList.map fun c => UInt8.ofNat c.toNat
  find_inside h := by
    cases h
    exact ⟨Nat.le_refl _, Nat.zero_le _⟩

/-- The second definition's patch stands first: index 1 is out of range. -/
theorem droppedPatch_not_followed : ¬ FollowsDefinitions literalEngine
      [⟨"a", "a.js", "(", []⟩, ⟨"b", "b.js", "b", []⟩] "b.js" := by
  intro hfollows
  obtain ⟨hok, -⟩ := hfollows ⟨["a.js", "b.js"], [⟨"b", "b", []⟩]⟩ rfl
  obtain ⟨r, hr⟩ := hok []
  cases hr

/-- Definitions, marked where they are added to the others. -/
abbrev MarkedDefs := List (PatchDef × Bool)

def MarkedDefs.before (marked : MarkedDefs) : List PatchDef :=
  (marked.filter fun x => !x.2).map Prod.fst

def MarkedDefs.after (marked : MarkedDefs) : List PatchDef := marked.map Prod.fst

section
variable {Regex : Type} {engine : TextEngine Regex} {marked : MarkedDefs} {filename : String}

lemma MarkedDefs.before_sublist : marked.before.Sublist marked.after :=
  filter_sublist.map _

lemma filter_after {p : PatchDef → Bool} (h : ∀ x ∈ marked, x.2 = true → p x.1 = false) :
    marked.after.filter p = marked.before.filter p := by
  rw [MarkedDefs.after, MarkedDefs.before, filter_map, filter_map, filter_filter]
  congr 1
  refine filter_congr fun x hx => ?_
  cases hmark : x.2 with
  | false => simp
  | true => simp [h x hx hmark]

lemma FindsCompile.sublist {defs defs' : List PatchDef} (h : FindsCompile engine defs filename)
    (hsub : defs'.Sublist defs) : FindsCompile engine defs' filename :=
  ⟨h.1.sublist hsub, fun d hd => h.2 d (hsub.subset hd)⟩

lemma runPatches_nil (text : Octets) : runPatches engine text [] = .ok none := by
  simp [runPatches]

lemma patchFile_eq {defs : List PatchDef} (hfiles : ∀ d ∈ defs, (engine.compile d.file).isSome)
    (hfinds : FindsCompile engine defs filename) (text : Octets) :
    patchFile engine defs text filename =
      if !engine.isUtf8 text then .ok none
      else runPatches engine text
        ((defs.filter (fileMatches engine filename)).filterMap (compilePatch engine)) := by
  obtain ⟨set, hset⟩ := Option.isSome_iff_exists.mp (build_isSome_iff.mpr hfiles)
  have hmatched := matchedPatches_eq hset (findsCompile_iff.mp hfinds)
  rw [patchFile, hset]
  change applyPatches engine set text filename = _
  rw [applyPatches]
  split_ifs with hutf hnone
  · rfl
  · rw [matchedPatches, hnone, mapM_nil] at hmatched
    rw [← Except.ok.inj hmatched, runPatches_nil]
  · rw [hmatched, ok_bind]

lemma patchFile_none {defs : List PatchDef} (h : ∃ d ∈ defs, engine.compile d.file = none)
    (text : Octets) : patchFile engine defs text filename = .ok none := by
  have hbuild : PatchSet.build engine defs = none := by
    refine Option.not_isSome_iff_eq_none.mp fun hsome => ?_
    obtain ⟨d, hd, hnone⟩ := h
    have hcompiles := build_isSome_iff.mp hsome d hd
    rw [hnone] at hcompiles
    cases hcompiles
  rw [patchFile, hbuild]

end

end Millennium.Loopback
