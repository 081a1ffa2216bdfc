import Mathlib.Data.String.Basic
import Millennium.Lib.StableSort
import Millennium.Loopback.PatchSet

/-!
# The order of the registry

`patch_registry.cc` keeps the patches of each plugin in an unordered map and lists them
block by block. `apply_patches` sorts what matches by plugin, and the sort is stable.
-/

namespace Millennium.Loopback

open Bytes StableSort List

/-- A patch as a plugin registers it: its file pattern, its `find` pattern, its transforms. -/
abbrev PatchEntry := String × String × List (String × String)

/-- The registry as the map lists it, each entry with its plugin. -/
structure Registry where
  blocks : List (String × List PatchDef)
  plugins_nodup : (blocks.map Prod.fst).Nodup
  owned : ∀ block ∈ blocks, ∀ d ∈ block.2, d.plugin = block.1

/-- What `PATCHES` registers: an entry without a file or `find` pattern is left out. -/
def registeredEntries (plugin : String) (entries : List PatchEntry) : List PatchDef :=
  (entries.filter fun e => !e.1.isEmpty && !e.2.1.isEmpty).map fun e => ⟨plugin, e.1, e.2.1, e.2.2⟩

def patchRegistryRemove (registry : Registry) (plugin : String) : Registry where
  blocks := registry.blocks.filter (·.1 ≠ plugin)
  plugins_nodup := registry.plugins_nodup.sublist (filter_sublist.map _)
  owned block h := registry.owned block (mem_of_mem_filter h)

def patchRegistrySet (registry : Registry) (plugin : String) (entries : List PatchEntry) :
    Registry where
  blocks := (plugin, registeredEntries plugin entries) ::
    (patchRegistryRemove registry plugin).blocks
  plugins_nodup := by
    refine nodup_cons.mpr ⟨fun h => ?_, (patchRegistryRemove registry plugin).plugins_nodup⟩
    obtain ⟨block, hblock, hplugin⟩ := mem_map.mp h
    exact of_decide_eq_true (mem_filter.mp hblock).2 hplugin
  owned := forall_mem_cons.mpr
    ⟨fun d hd => by
      obtain ⟨e, -, rfl⟩ := mem_map.mp hd
      rfl, (patchRegistryRemove registry plugin).owned⟩

/-- The registry after plugins have registered, the last one listed first. -/
def registered (plugins : List (String × List PatchEntry)) : Registry :=
  plugins.foldl (fun registry p => patchRegistrySet registry p.1 p.2) ⟨[], nodup_nil, by simp⟩

def patchRegistryToJson (registry : Registry) : List PatchDef := registry.blocks.flatMap Prod.snd

section
variable {Regex : Type} {engine : TextEngine Regex}

lemma compilePatch_plugin {d : PatchDef} {patch : CompiledPatch Regex}
    (h : compilePatch engine d = some patch) : patch.plugin = d.plugin := by
  obtain ⟨find, -, rfl⟩ := Option.map_eq_some_iff.mp h
  rfl

lemma filter_plugin_filterMap (defs : List PatchDef) (p : PatchDef → Bool) (plugin : String) :
    ((defs.filter p).filterMap (compilePatch engine)).filter (·.plugin = plugin) =
    ((defs.filter (·.plugin = plugin)).filter p).filterMap (compilePatch engine) := by
  rw [filter_filterMap, filter_filter, filterMap_filter, filterMap_filter]
  refine filterMap_congr fun d _ => ?_
  cases hpatch : compilePatch engine d with
  | none => simp
  | some patch =>
    rw [Option.filter_some, compilePatch_plugin hpatch]
    cases hp : p d with
    | false => simp
    | true => simp

end

/-- The order in which the map lists the plugins does not matter. -/
theorem patchFile_registry_order {Regex : Type} (engine : TextEngine Regex)
    {registry registry' : Registry} (hperm : registry.blocks.Perm registry'.blocks)
    (hfiles : ∀ d ∈ patchRegistryToJson registry, (engine.compile d.file).isSome)
    (hfinds : ∀ d ∈ patchRegistryToJson registry, (engine.compile d.find).isSome)
    (content : Octets) (filename : String) :
    ∃ r, patchFile engine (patchRegistryToJson registry) content filename = .ok r ∧
      patchFile engine (patchRegistryToJson registry') content filename = .ok r := by
  have hdefs : (patchRegistryToJson registry).Perm (patchRegistryToJson registry') :=
    hperm.flatMap_right _
  have hcompile {defs : List PatchDef} (h : ∀ d ∈ defs, (engine.compile d.find).isSome) :
      FindsCompile engine defs filename :=
    ⟨pairwise_of_forall_mem_list fun d hd _ _ _ => h d hd, fun d hd _ => h d hd⟩
  have hsorted : runPatches engine content (((patchRegistryToJson registry).filter
        (fileMatches engine filename)).filterMap (compilePatch engine)) =
      runPatches engine content (((patchRegistryToJson registry').filter
        (fileMatches engine filename)).filterMap (compilePatch engine)) := by
    have hle (a b : CompiledPatch Regex) :
        decide (a.plugin ≤ b.plugin) = true ↔ a.plugin ≤ b.plugin := decide_eq_true_iff
    rw [runPatches, runPatches, mergeSort_congr hle fun plugin => ?_]
    rw [filter_plugin_filterMap, filter_plugin_filterMap, patchRegistryToJson,
      filter_flatMap_perm hperm registry.plugins_nodup registry.owned]
    rfl
  obtain ⟨r, hr⟩ := @runPatches_ok _ engine content (((patchRegistryToJson registry).filter
    (fileMatches engine filename)).filterMap (compilePatch engine))
  rw [patchFile_eq hfiles (hcompile hfinds),
    patchFile_eq (fun d hd => hfiles d (hdefs.mem_iff.mpr hd))
      (hcompile fun d hd => hfinds d (hdefs.mem_iff.mpr hd)), ← hsorted, hr]
  split_ifs
  · exact ⟨_, rfl, rfl⟩
  · exact ⟨_, rfl, rfl⟩

theorem patchFile_two_plugins : ∃ r, patchFile literalEngine (patchRegistryToJson
        (registered [("a", [("f", "x", [])]), ("b", [("f", "y", [])])])) [] "f" = .ok r ∧
      patchFile literalEngine (patchRegistryToJson
        (registered [("b", [("f", "y", [])]), ("a", [("f", "x", [])])])) [] "f" = .ok r :=
  patchFile_registry_order literalEngine (List.Perm.swap _ _ _) (by decide) (by decide) [] "f"

end Millennium.Loopback
