import Millennium.System.ConfigStore

/-!
# Enabling and disabling plugins

Enabling adds a name that is not in the config's list, disabling takes out its first place. A name
that is there twice is still enabled after that.
-/

namespace Millennium.Engine.PluginManager

open Bytes Millennium.System List ConfigManager Json

def enabledPluginsPath : Segments := ⟨[ascii "plugins"], ascii "enabledPlugins"⟩

/-- `CONFIG.get` of the list, which is empty if there is none. -/
def enabledPluginsJson (data : Json) : Json :=
  get data enabledPluginsPath.toList (.array [])

def stringOf : Json → Option Octets
  | .string s => some s
  | _ => none

def stringsOf : Json → List Octets
  | .array items => items.filterMap stringOf
  | _ => []

def setPluginEnabled (data : Json) (pluginName : Octets) (enabled : Bool) :
    Except Json.AccessError Json := do
  let enabledPlugins := stringsOf (enabledPluginsJson data)
  let enabledPlugins :=
    if enabled then
      if enabledPlugins.contains pluginName then enabledPlugins
      else enabledPlugins ++ [pluginName]
    -- `erase` of the place that `std::find` gives
    else enabledPlugins.erase pluginName
  let out ← set data enabledPluginsPath (.array (enabledPlugins.map .string))
  return out.data

def isEnabled (data : Json) (pluginName : Octets) : Bool :=
  match enabledPluginsJson data with
  | .array items => items.any fun plugin => stringOf plugin == some pluginName
  | _ => false

/-- The plugin is enabled or disabled as asked for, and the others are as they were. -/
def SetsExactly (data : Json) (pluginName : Octets) (enabled : Bool) : Prop :=
  ∃ data', setPluginEnabled data pluginName enabled = .ok data' ∧
    isEnabled data' pluginName = enabled ∧
    ∀ other, other ≠ pluginName → isEnabled data' other = isEnabled data other

def enabledNames (data : Json) : List Octets := stringsOf (enabledPluginsJson data)

lemma isEnabled_iff {data : Json} {name : Octets} :
    isEnabled data name = true ↔ name ∈ enabledNames data := by
  rw [isEnabled, enabledNames, stringsOf.eq_def]
  cases enabledPluginsJson data with
  | array => simp [mem_filterMap]
  | _ => simp

lemma stringsOf_map (names : List Octets) : stringsOf (.array (names.map .string)) = names := by
  simp [stringsOf, Function.comp_def, stringOf]

lemma eq_of_eqvItems_strings {items : List Json} {names : List Octets}
    (h : eqvItems items (names.map .string) = true) : items = names.map .string := by
  induction items generalizing names with
  | nil =>
    cases names with
    | nil => rfl
    | cons => simp [eqvItems] at h
  | cons item items ih =>
    cases names with
    | nil => simp [eqvItems] at h
    | cons =>
      rw [map_cons, eqvItems, Bool.and_eq_true] at h
      rw [eqv_string_iff.mp h.1, ih h.2, map_cons]

lemma eq_of_eqv_strings {j : Json} {names : List Octets}
    (h : j.eqv (.array (names.map .string)) = true) : j = .array (names.map .string) := by
  obtain ⟨items, rfl, hitems⟩ := eqv_array_iff.mp h
  rw [eq_of_eqvItems_strings hitems]

lemma set_names (fields : List (Octets × Json)) (names : List Octets) :
    ∃ out, set (.object fields) enabledPluginsPath (.array (names.map .string)) =
    .ok out ∧ enabledNames out.data = names := by
  obtain ⟨out, hset, hwrites⟩ :=
    set_writes fields enabledPluginsPath (.array (names.map .string))
  refine ⟨out, hset, ?_⟩
  have hwritten : out.data.path? enabledPluginsPath.toList = some (.array (names.map .string)) := by
    rw [hwrites.written, afterSet]
    split_ifs with heqv
    · cases hold : (object fields).path? enabledPluginsPath.toList with
      | none =>
        rw [hold] at heqv
        cases eq_of_eqv_strings heqv
      | some =>
        rw [hold, Option.getD_some] at heqv
        rw [eq_of_eqv_strings heqv]
    · rfl
  rw [enabledNames, enabledPluginsJson, get_eq (by simp [Segments.toList]), hwritten,
    Option.getD_some, stringsOf_map]

def namesAfter (names : List Octets) (pluginName : Octets) (enabled : Bool) : List Octets :=
  if enabled then if names.contains pluginName then names else names ++ [pluginName]
  else names.erase pluginName

lemma setPluginEnabled_names (fields : List (Octets × Json)) (plugin : Octets)
    (enabled : Bool) : ∃ data', setPluginEnabled (.object fields) plugin enabled = .ok data' ∧
    enabledNames data' = namesAfter (enabledNames (.object fields)) plugin enabled := by
  obtain ⟨out, hset, hnames⟩ :=
    set_names fields (namesAfter (enabledNames (.object fields)) plugin enabled)
  refine ⟨out.data, ?_, hnames⟩
  rw [namesAfter, enabledNames] at hset
  simp only [setPluginEnabled, hset]
  rfl

lemma mem_namesAfter_of_ne {names : List Octets} {plugin other : Octets} {enabled : Bool}
    (h : other ≠ plugin) : other ∈ namesAfter names plugin enabled ↔ other ∈ names := by
  rw [namesAfter]
  split_ifs
  · rfl
  · simp [h]
  · exact mem_erase_of_ne h

lemma mem_namesAfter_self {names : List Octets} {plugin : Octets} {enabled : Bool} :
    plugin ∈ namesAfter names plugin enabled ↔
    enabled = true ∨ 2 ≤ names.count plugin := by
  rw [namesAfter]
  split_ifs with henabled hmem
  · exact iff_of_true (contains_iff_mem.mp hmem) (Or.inl henabled)
  · exact iff_of_true (by simp) (Or.inl henabled)
  · rw [or_iff_right henabled, ← count_pos_iff, count_erase_self]
    omega

/-- Enabling always does what it should. Disabling does, unless the name is in the list more
than once. -/
theorem setPluginEnabled_exact_iff (fields : List (Octets × Json)) (pluginName : Octets)
    (enabled : Bool) : SetsExactly (.object fields) pluginName enabled ↔
      (enabled = false → (enabledNames (.object fields)).count pluginName ≤ 1) := by
  obtain ⟨data', hset, hnames⟩ := setPluginEnabled_names fields pluginName enabled
  have hself : isEnabled data' pluginName = enabled ↔
      (enabled = false → (enabledNames (.object fields)).count pluginName ≤ 1) := by
    cases enabled with
    | true =>
      rw [isEnabled_iff, hnames, mem_namesAfter_self]
      simp
    | false =>
      rw [← Bool.not_eq_true, isEnabled_iff, hnames, mem_namesAfter_self]
      simp only [Bool.false_eq_true, false_or, forall_const]
      omega
  have hother : ∀ other, other ≠ pluginName →
      isEnabled data' other = isEnabled (.object fields) other := by
    intro other hne
    rw [Bool.eq_iff_iff, isEnabled_iff, isEnabled_iff, hnames, mem_namesAfter_of_ne hne]
  rw [← hself]
  constructor
  · rintro ⟨data'', hset', hexact, -⟩
    rw [hset] at hset'
    rw [Except.ok.inj hset']
    exact hexact
  · exact fun hexact => ⟨data', hset, hexact, hother⟩

def enabledTwice : Json :=
  .object [(ascii "plugins", .object [(ascii "enabledPlugins",
    .array [.string (ascii "a"), .string (ascii "a")])])]

/-- The plugin stays enabled when it is disabled. -/
theorem enabledTwice_not_disabled : ¬ SetsExactly enabledTwice (ascii "a") false := by
  rintro ⟨data', hset, hself, -⟩
  have hleft : setPluginEnabled enabledTwice (ascii "a") false =
      .ok (.object [(ascii "plugins", .object [(ascii "enabledPlugins",
        .array [.string (ascii "a")])])]) := rfl
  rw [← Except.ok.inj hset] at hself
  cases hself

end Millennium.Engine.PluginManager
