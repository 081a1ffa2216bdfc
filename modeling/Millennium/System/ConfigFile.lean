import Millennium.Lib.Transitions
import Millennium.Lib.Utf8
import Millennium.System.ConfigStore

/-!
# The config file

`config_manager::load_from_disk` replaces a file that is no JSON by the defaults, but takes JSON of
any kind. The defaults are merged by `operator[]`, which throws where the root is neither an object
nor null. Listeners, the temporary file and the backup are left out.
-/

namespace Millennium.System

open Bytes Outcome Transitions Utf8 List Json Option

mutual

/-- Every text in the value is UTF-8, so that it can be printed. -/
def Printable : Json → Prop
  | .string s => IsUtf8 s
  | .array items => PrintableItems items
  | .object fields => PrintableFields fields
  | _ => True

def PrintableItems : List Json → Prop
  | [] => True
  | item :: rest => Printable item ∧ PrintableItems rest

def PrintableFields : List (Octets × Json) → Prop
  | [] => True
  | (key, v) :: rest => IsUtf8 key ∧ Printable v ∧ PrintableFields rest

end

/-- The parser and the printer of JSON: UTF-8 is printed, and an object is read back as one. -/
structure TextFormat where
  parse : Octets → Option Json
  dump : Json → Option Octets
  printable_of_parse : ∀ {text j}, parse text = some j → Printable j
  exists_dump : ∀ {j}, Printable j → ∃ text, dump j = some text
  parse_dump : ∀ {fields text}, dump (.object fields) = some text →
    ∃ fields', parse text = some (.object fields')

/-- A parser and a printer that keep the kind of the root only. -/
def TextFormat.rootOnly : TextFormat where
  parse text :=
    if text = ascii "\x7b\x7d" then some (.object [])
    else if text = ascii "[]" then some (.array [])
    else if text = ascii "null" then some .null
    else none
  dump
    | .object _ => some (ascii "\x7b\x7d")
    | .array _ => some (ascii "[]")
    | _ => some (ascii "null")
  printable_of_parse := by
    intro text j h
    split_ifs at h <;> cases h <;> exact trivial
  exists_dump := by
    intro j _
    cases j <;> exact ⟨_, rfl⟩
  parse_dump := by
    intro fields text h
    cases h
    exact ⟨[], rfl⟩

inductive ConfigFault where
  | access (e : Json.AccessError)
  | type316
  deriving Repr, DecidableEq

/-- The defaults: an object with at least one key, and UTF-8. -/
structure Defaults where
  fields : List (Octets × Json)
  ne_nil : fields ≠ []
  printable : PrintableFields fields

lemma isUtf8_ascii {s : String} (h : s.toList.all (·.toNat < 128) = true) : IsUtf8 (ascii s) := by
  refine ⟨s.toList, ?_⟩
  rw [ascii, map_eq_flatMap]
  apply flatMap_congr
  intro c hc
  have hlt : c.toNat < 128 := by simpa using all_eq_true.mp h c hc
  have hle : c.val.toNat ≤ 127 := Nat.le_of_lt_succ hlt
  rw [String.utf8EncodeChar]
  simp only [hle]
  rfl

/-- `head::get_default_config`. Updates are installed on Windows, and notified elsewhere. -/
def getDefaultConfig (windows hasShownWelcomeModal : Bool) : Defaults where
  fields :=
    [(ascii "general", .object
        [(ascii "injectJavascript", .boolean true),
          (ascii "injectCSS", .boolean true),
          (ascii "checkForMillenniumUpdates", .boolean true),
          (ascii "checkForPluginAndThemeUpdates", .boolean true),
          (ascii "onMillenniumUpdate", .integer (if windows then 2 else 1)),
          (ascii "millenniumUpdateChannel", .string (ascii "stable")),
          (ascii "shouldShowThemePluginUpdateNotifications", .boolean true),
          (ascii "accentColor", .string (ascii "DEFAULT_ACCENT_COLOR"))]),
      (ascii "misc", .object
        [(ascii "hasShownWelcomeModal", .boolean hasShownWelcomeModal)]),
      (ascii "network", .object
        [(ascii "proxy", .string (ascii "")),
          (ascii "proxyUsername", .string (ascii "")),
          (ascii "proxyPassword", .string (ascii ""))]),
      (ascii "themes", .object
        [(ascii "activeTheme", .string (ascii "default")),
          (ascii "allowedStyles", .boolean true),
          (ascii "allowedScripts", .boolean true)]),
      (ascii "notifications", .object
        [(ascii "showNotifications", .boolean true),
          (ascii "showUpdateNotifications", .boolean true),
          (ascii "showPluginNotifications", .boolean true)])]
  ne_nil := cons_ne_nil _ _
  printable := by
    simp (disch := decide) only [PrintableFields, Printable, isUtf8_ascii, and_self]

/-- What becomes of the temporary file of `save_to_disk`. -/
inductive SaveOutcome where
  | notOpened
  | notWritten
  | renamed
  deriving Repr, DecidableEq

structure ConfigState where
  data : Json
  saveDisabled : Bool
  file : Option Octets

namespace ConfigManager

mutual

def mergeDefaultConfig (current : Json) : List (Octets × Json) → Except Json.AccessError Json
  | [] => .ok current
  | (key, value) :: rest => do
      let current ← mergeDefault current key value
      mergeDefaultConfig current rest

def mergeDefault (current : Json) (key : Octets) : Json → Except Json.AccessError Json
  | .object incoming => do
      let next := object (inside current key)
      let current ← current.assign key next
      let merged ← mergeDefaultConfig next incoming
      current.assign key merged
  | value => if current.contains key then .ok current else current.assign key value

end

section
variable (format : TextFormat) (defaults : Defaults)

abbrev Leaves := Except ConfigFault Unit × ConfigState

def saveToDisk (saved : SaveOutcome) (s : ConfigState) : Leaves :=
  if s.saveDisabled then (.ok (), s)
  else if saved = .notOpened then (.ok (), s)
  else
    match format.dump s.data with
    | none => (.error .type316, s)
    | some text => (.ok (), if saved = .renamed then { s with file := some text } else s)

/-- The first part of `load_from_disk`; `opened` says whether a file could be opened. -/
def readFromDisk (opened : Bool) (s : ConfigState) : ConfigState :=
  match s.file with
  | none => { s with data := .object [] }
  | some text =>
    if opened then { s with data := (format.parse text).getD (.object []) }
    else { s with data := .object [], saveDisabled := true }

def loadFromDisk (opened : Bool) (saved : SaveOutcome) (s : ConfigState) : Leaves :=
  let s := readFromDisk format opened s
  match mergeDefaultConfig s.data defaults.fields with
  | .error e => (.error (.access e), s)
  | .ok merged => saveToDisk format saved { s with data := merged }

def setAndSave (q : Segments) (value : Json) (skipPropagation : Bool) (saved : SaveOutcome)
    (s : ConfigState) : Leaves :=
  match set s.data q value with
  | .error e => (.error (.access e), s)
  | .ok out =>
    let s := { s with data := out.data }
    if out.replaced.isSome && !skipPropagation then saveToDisk format saved s else (.ok (), s)

def hasItems : Json → Bool
  | .null | .object [] | .array [] => false
  | _ => true

/-- `config_manager::set_all`, which returns an empty object where something was thrown. -/
def setAll (newConfig : Json) (skipPropagation : Bool) (saved : SaveOutcome) (s : ConfigState) :
    Json × ConfigState :=
  let s' := { s with data := newConfig }
  -- `old_data.value` throws
  if !skipPropagation && hasItems newConfig && !s.data.isObject then (.object [], s')
  else
    match saveToDisk format saved s' with
    | (.error _, s') => (.object [], s')
    | (.ok (), s') => (s'.data, s')

def beforeLoad (content : Option Octets) (created : Bool) : ConfigState where
  data := .null
  saveDisabled := false
  file :=
    match content with
    | some text => some text
    | none => if created then format.dump (.object defaults.fields) else none

end

def Covers (j j' : Json) : Prop :=
  ∀ p, (j.path? p).isSome → (j'.path? p).isSome

section
variable {j j' j'' : Json} {key : Octets} {v : Json} {fields rest : List (Octets × Json)}

lemma Covers.refl (j : Json) : Covers j j := fun _ h => h

lemma Covers.trans (h : Covers j j') (h' : Covers j' j'') : Covers j j'' :=
  fun p hp => h' p (h p hp)

lemma covers_of_not_isObject (h : j.isObject = false) : Covers j j' := by
  intro p hp
  cases p with
  | nil => rfl
  | cons =>
    rw [path?_cons, field?_eq_none h] at hp
    cases hp

lemma covers_cons (hfirst : Covers (.object [(key, v)]) j) (hrest : Covers (.object rest) j) :
    Covers (.object ((key, v) :: rest)) j := by
  intro p hp
  cases p with
  | nil => rfl
  | cons key' =>
    cases hkey : key' == key with
    | true =>
      apply hfirst
      simpa only [path?_cons, field?_object, lookup_cons, hkey] using hp
    | false =>
      apply hrest
      simpa only [path?_cons, field?_object, lookup_cons, hkey] using hp

lemma covers_single {w : Json} (hw : j.field? key = some w) (h : Covers v w) :
    Covers (.object [(key, v)]) j := by
  intro p hp
  cases p with
  | nil => rfl
  | cons key' =>
    cases hkey : key' == key with
    | true =>
      rw [beq_iff_eq.mp hkey, path?_cons, hw]
      apply h
      simpa only [path?_cons, field?_object, lookup_cons, hkey, bind_some] using hp
    | false =>
      simp only [path?_cons, field?_object, lookup_cons, hkey] at hp
      cases hp

lemma covers_insertField (h : ∀ w, fields.lookup key = some w → Covers w v) :
    Covers (.object fields) (.object (insertField key v fields)) := by
  intro p hp
  cases p with
  | nil => rfl
  | cons key' inner =>
    by_cases hkey : key' = key
    · subst hkey
      rw [path?_cons, field?_object] at hp ⊢
      rw [lookup_insertField_self]
      cases hw : fields.lookup key' with
      | none =>
        rw [hw] at hp
        cases hp
      | some w =>
        rw [hw] at hp
        exact h w hw inner hp
    · rw [path?_cons, field?_object] at hp ⊢
      rwa [lookup_insertField_of_ne hkey]

lemma covers_inside {cur w : Json} (hw : cur.field? key = some w) :
    Covers w (.object (inside cur key)) := by
  cases hobject : w.isObject with
  | false => exact covers_of_not_isObject hobject
  | true =>
    obtain ⟨inner, rfl⟩ := exists_object hobject
    rw [inside, hw]
    exact Covers.refl _

end

section
variable {fields : List (Octets × Json)} {key : Octets} {v : Json}

lemma printableFields_insertField (h : PrintableFields fields) (hkey : IsUtf8 key)
    (hv : Printable v) : PrintableFields (insertField key v fields) := by
  induction fields with
  | nil => exact ⟨hkey, hv, trivial⟩
  | cons e rest ih =>
    obtain ⟨k, w⟩ := e
    obtain ⟨hk, hw, hrest⟩ := h
    by_cases heq : k = key
    · simp only [insertField, heq]
      exact ⟨hkey, hv, hrest⟩
    · simp only [insertField, heq]
      exact ⟨hk, hw, ih hrest⟩

lemma printable_of_lookup {w : Json} (h : PrintableFields fields)
    (hw : fields.lookup key = some w) : Printable w := by
  induction fields with
  | nil => cases hw
  | cons e rest ih =>
    obtain ⟨k, w'⟩ := e
    obtain ⟨hk, hw', hrest⟩ := h
    cases heq : key == k with
    | true =>
      simp only [lookup_cons, heq, some.injEq] at hw
      exact hw ▸ hw'
    | false =>
      simp only [lookup_cons, heq] at hw
      exact ih hrest hw

lemma printableFields_inside (h : PrintableFields fields) :
    PrintableFields (inside (.object fields) key) := by
  simp only [inside]
  split
  · next inner hinner => exact printable_of_lookup h hinner
  · exact trivial

end

/-- A merge into an object: an object again, with all paths of both, and UTF-8 if both are. -/
structure Merged (fields incoming : List (Octets × Json)) (out : Except Json.AccessError Json)
    (merged : List (Octets × Json)) : Prop where
  eq : out = .ok (.object merged)
  old : Covers (.object fields) (.object merged)
  new : Covers (.object incoming) (.object merged)
  printable : PrintableFields fields → PrintableFields incoming → PrintableFields merged

lemma mergeDefault_of_not_isObject {cur value : Json} {key : Octets}
    (h : value.isObject = false) :
    mergeDefault cur key value =
      if cur.contains key then .ok cur else cur.assign key value := by
  cases value <;> first | rfl | cases h

lemma mergeDefault_scalar (fields : List (Octets × Json)) (key : Octets) {value : Json}
    (h : value.isObject = false) :
    ∃ merged, Merged fields [(key, value)] (mergeDefault (.object fields) key value) merged := by
  rw [mergeDefault_of_not_isObject h, contains_eq, field?_object]
  cases hfield : fields.lookup key with
  | some =>
    exact ⟨fields, rfl, Covers.refl _, covers_single hfield (covers_of_not_isObject h),
      fun hfields _ => hfields⟩
  | none =>
    refine ⟨insertField key value fields, rfl, ?_, ?_, ?_⟩
    · apply covers_insertField
      intro w hw
      rw [hfield] at hw
      cases hw
    · exact covers_single lookup_insertField_self (Covers.refl value)
    · rintro hfields ⟨hkey, hvalue, _⟩
      exact printableFields_insertField hfields hkey hvalue

mutual

theorem mergeDefaultConfig_merged (fields : List (Octets × Json)) : ∀ incoming, ∃ merged,
      Merged fields incoming (mergeDefaultConfig (.object fields) incoming) merged
  | [] => by
    refine ⟨fields, by simp only [mergeDefaultConfig], Covers.refl _, ?_, fun h _ => h⟩
    intro p hp
    cases p with
    | nil => rfl
    | cons => cases hp
  | (key, value) :: rest => by
    obtain ⟨first, hfirst⟩ := mergeDefault_merged fields key value
    obtain ⟨merged, hmerged⟩ := mergeDefaultConfig_merged first rest
    refine ⟨merged, ?_, hfirst.old.trans hmerged.old,
      covers_cons (hfirst.new.trans hmerged.old) hmerged.new, ?_⟩
    · rw [mergeDefaultConfig, hfirst.eq, ok_bind, hmerged.eq]
    · rintro h ⟨hkey, hvalue, hrest⟩
      exact hmerged.printable (hfirst.printable h ⟨hkey, hvalue, trivial⟩) hrest

theorem mergeDefault_merged (fields : List (Octets × Json)) (key : Octets) : ∀ value, ∃ merged,
      Merged fields [(key, value)] (mergeDefault (.object fields) key value) merged
  | .object incoming => by
    obtain ⟨inner, hinner⟩ := mergeDefaultConfig_merged (inside (.object fields) key) incoming
    refine ⟨insertField key (.object inner)
      (insertField key (.object (inside (.object fields) key)) fields), ?_, ?_, ?_, ?_⟩
    · simp [mergeDefault, assign, hinner.eq]
    · have hin : ∀ w, fields.lookup key = some w →
          Covers w (.object (inside (.object fields) key)) := fun w hw => covers_inside hw
      apply (covers_insertField hin).trans
      apply covers_insertField
      intro w hw
      rw [lookup_insertField_self, some.injEq] at hw
      exact hw ▸ hinner.old
    · exact covers_single lookup_insertField_self hinner.new
    · rintro h ⟨hkey, hvalue, _⟩
      have hin : PrintableFields (inside (.object fields) key) := printableFields_inside h
      exact printableFields_insertField (printableFields_insertField h hkey hin) hkey
        (hinner.printable hin hvalue)
  | .null | .boolean _ | .integer _ | .unsigned _ | .float _ | .string _ | .binary _ | .array _ =>
    mergeDefault_scalar fields key rfl

end

/-- The defaults have an object at a path. -/
inductive ObjectAt : List (Octets × Json) → List Octets → Prop
  | here {defaults incoming key} (h : (key, .object incoming) ∈ defaults) : ObjectAt defaults [key]
  | deeper {defaults incoming key p} (h : (key, .object incoming) ∈ defaults)
      (hp : ObjectAt incoming p) : ObjectAt defaults (key :: p)

lemma ObjectAt.mono {defaults defaults' : List (Octets × Json)} {p : List Octets}
    (h : ObjectAt defaults p) (hsub : defaults ⊆ defaults') : ObjectAt defaults' p := by
  cases h with
  | here h => exact .here (hsub h)
  | deeper h hp => exact .deeper (hsub h) hp

lemma path?_insertField_of_ne {fields : List (Octets × Json)} {key key' : Octets} {w : Json}
    {p : List Octets} (h : key' ≠ key) :
    (object (insertField key w fields)).path? (key' :: p) = (object fields).path? (key' :: p) := by
  rw [path?_cons, path?_cons, field?_object, field?_object, lookup_insertField_of_ne h]

section
variable {v : Json}

lemma mergeDefault_scalar_keeps (hv : v.isObject = false) (fields : List (Octets × Json))
    (key : Octets) {value merged : Json} (h : value.isObject = false)
    (hmerged : mergeDefault (.object fields) key value = .ok merged)
    {p : List Octets} (hp : (object fields).path? p = some v) : merged.path? p = some v := by
  rw [mergeDefault_of_not_isObject h, contains_eq, field?_object] at hmerged
  cases hfield : fields.lookup key with
  | some => simp_all
  | none =>
    rw [hfield] at hmerged
    obtain rfl := Except.ok.inj hmerged
    cases p with
    | nil => cases hp; cases hv
    | cons k rest =>
      have hk : k ≠ key := by
        rintro rfl
        rw [path?_cons, field?_object, hfield] at hp
        cases hp
      rw [path?_insertField_of_ne hk, hp]

mutual

theorem mergeDefaultConfig_keeps (hv : v.isObject = false) (fields : List (Octets × Json)) :
    ∀ incoming merged, mergeDefaultConfig (.object fields) incoming = .ok merged → ∀ p,
    (object fields).path? p = some v → ¬ ObjectAt incoming p → merged.path? p = some v
  | [], merged, h, p, hp, _ => by
    obtain rfl := Except.ok.inj h
    exact hp
  | (key, value) :: rest, merged, h, p, hp, hnot => by
    obtain ⟨first, hfirst⟩ := mergeDefault_merged fields key value
    rw [mergeDefaultConfig, hfirst.eq, ok_bind] at h
    refine mergeDefaultConfig_keeps hv first rest merged h p ?_ fun hat => hnot (hat.mono (by simp))
    exact mergeDefault_keeps hv fields key value _ hfirst.eq p hp fun hat => hnot (hat.mono (by simp))

theorem mergeDefault_keeps (hv : v.isObject = false) (fields : List (Octets × Json)) (key : Octets) :
    ∀ value merged, mergeDefault (.object fields) key value = .ok merged → ∀ p,
    (object fields).path? p = some v → ¬ ObjectAt [(key, value)] p → merged.path? p = some v
  | .object incoming, merged, h, p, hp, hnot => by
    obtain ⟨inner, hinner⟩ := mergeDefaultConfig_merged (inside (.object fields) key) incoming
    simp only [mergeDefault, assign, hinner.eq, ok_bind] at h
    obtain rfl := Except.ok.inj h
    cases p with
    | nil => cases hp; cases hv
    | cons k rest =>
      by_cases hk : k = key
      · subst hk
        cases rest with
        | nil => exact absurd (.here (mem_singleton_self _)) hnot
        | cons k' rest =>
          rw [path?_cons, field?_object, lookup_insertField_self]
          exact mergeDefaultConfig_keeps hv _ incoming _ hinner.eq _ (path?_inside.trans hp)
            fun hat => hnot (.deeper (mem_singleton_self _) hat)
      · rw [path?_insertField_of_ne hk, path?_insertField_of_ne hk, hp]
  | .null, _, h, _, hp, _ | .boolean _, _, h, _, hp, _ | .integer _, _, h, _, hp, _
  | .unsigned _, _, h, _, hp, _ | .float _, _, h, _, hp, _ | .string _, _, h, _, hp, _
  | .binary _, _, h, _, hp, _ | .array _, _, h, _, hp, _ =>
    mergeDefault_scalar_keeps hv fields key rfl h hp

end

end

/-- Merging the defaults into an object does not throw. The paths of both are there afterwards, and a
value that is no object is as before, unless the defaults have an object in its place. -/
theorem merge_conservative (current defaults : List (Octets × Json)) : ∃ merged,
    mergeDefaultConfig (.object current) defaults = .ok (.object merged) ∧
      Covers (.object current) (.object merged) ∧ Covers (.object defaults) (.object merged) ∧
      ∀ p v, v.isObject = false → (object current).path? p = some v → ¬ ObjectAt defaults p →
        (object merged).path? p = some v := by
  obtain ⟨merged, h⟩ := mergeDefaultConfig_merged current defaults
  exact ⟨merged, h.eq, h.old, h.new,
    fun p v hv => mergeDefaultConfig_keeps hv current defaults _ h.eq p⟩

def IsRoot (j : Json) : Prop := j.isObject = true ∨ j = .null

lemma mergeDefault_null (key : Octets) (value : Json) :
    mergeDefault .null key value = mergeDefault (.object []) key value := by
  cases value <;> rfl

lemma mergeDefault_error {cur : Json} (h : ¬ IsRoot cur) (key : Octets) (value : Json) :
    mergeDefault cur key value = .error .type305 := by
  have hassign : ∀ v, cur.assign key v = .error .type305 := by
    intro v
    cases cur <;> first | rfl | exact absurd (Or.inl rfl) h | exact absurd (Or.inr rfl) h
  have hcontains : cur.contains key = false := by
    cases cur <;> first | rfl | exact absurd (Or.inl rfl) h
  cases hvalue : value.isObject with
  | true =>
    obtain ⟨incoming, rfl⟩ := exists_object hvalue
    rw [mergeDefault, hassign]
    rfl
  | false =>
    rw [mergeDefault_of_not_isObject hvalue, hcontains, hassign]
    rfl

lemma mergeDefaultConfig_ok {cur : Json} (dflt : Defaults) (h : IsRoot cur)
    (hprintable : Printable cur) :
    ∃ merged, mergeDefaultConfig cur dflt.fields = .ok (.object merged) ∧
    Covers (.object dflt.fields) (.object merged) ∧ PrintableFields merged := by
  rcases h with hobject | rfl
  · obtain ⟨fields, rfl⟩ := exists_object hobject
    obtain ⟨merged, hmerged⟩ := mergeDefaultConfig_merged fields dflt.fields
    exact ⟨merged, hmerged.eq, hmerged.new, hmerged.printable hprintable dflt.printable⟩
  · obtain ⟨merged, hmerged⟩ := mergeDefaultConfig_merged [] dflt.fields
    refine ⟨merged, ?_, hmerged.new, hmerged.printable trivial dflt.printable⟩
    rw [← hmerged.eq]
    obtain ⟨⟨key, value⟩, rest, hfields⟩ := exists_cons_of_ne_nil dflt.ne_nil
    rw [hfields, mergeDefaultConfig, mergeDefaultConfig, mergeDefault_null]

lemma mergeDefaultConfig_error {cur : Json} (dflt : Defaults) (h : ¬ IsRoot cur) :
    mergeDefaultConfig cur dflt.fields = .error .type305 := by
  obtain ⟨⟨key, value⟩, rest, hfields⟩ := exists_cons_of_ne_nil dflt.ne_nil
  rw [hfields, mergeDefaultConfig, mergeDefault_error h]
  rfl

section
variable (format : TextFormat) (defaults : Defaults)

/-- What is called after the constructor, where `allowed` says what `set_all` is given. -/
inductive Step (allowed : Json → Prop) (s : ConfigState) : ConfigState → Prop where
  | set (q : Segments) (value : Json) (skipPropagation : Bool) (saved : SaveOutcome) :
      Step allowed s (setAndSave format q value skipPropagation saved s).2
  | setAll {newConfig : Json} (h : allowed newConfig) (skipPropagation : Bool)
      (saved : SaveOutcome) : Step allowed s (setAll format newConfig skipPropagation saved s).2
  | reload (opened : Bool) (saved : SaveOutcome) :
      Step allowed s (loadFromDisk format defaults opened saved s).2

/-- `load_from_disk` does not throw, and the root is an object with every path of the defaults. -/
structure Loads (opened : Bool) (saved : SaveOutcome) (s : ConfigState) : Prop where
  returns : (loadFromDisk format defaults opened saved s).1 = .ok ()
  isObject : (loadFromDisk format defaults opened saved s).2.data.isObject = true
  covers : Covers (.object defaults.fields) (loadFromDisk format defaults opened saved s).2.data

/-- The store starts from any config file, and loads again after whatever was called. -/
def StaysUsable (allowed : Json → Prop) (content : Option Octets) : Prop :=
  ∀ created opened saved,
    Loads format defaults opened saved (beforeLoad format defaults content created) ∧
    ∀ s, Reachable (Step format defaults allowed) (· = (loadFromDisk format defaults opened saved
        (beforeLoad format defaults content created)).2) s →
      ∀ opened saved, Loads format defaults opened saved s

def ReadsRoot (text : Octets) : Prop := ∀ j, format.parse text = some j → IsRoot j

def SavesRoot (j : Json) : Prop := ∀ text, format.dump j = some text → ReadsRoot format text

/-- What is in the file can be loaded, and what is in memory once it is saved. -/
structure Reloadable (s : ConfigState) : Prop where
  file : ∀ text, s.file = some text → ReadsRoot format text
  data : SavesRoot format s.data

end

section
variable {format : TextFormat} {dflt : Defaults} {s : ConfigState} {opened : Bool}
  {saved : SaveOutcome}

lemma savesRoot_of_isObject {j : Json} (h : j.isObject = true) : SavesRoot format j := by
  obtain ⟨fields, rfl⟩ := exists_object h
  intro text htext j hj
  obtain ⟨fields', hfields'⟩ := format.parse_dump htext
  rw [hfields', some.injEq] at hj
  exact Or.inl (hj ▸ rfl)

lemma saveToDisk_cases (format : TextFormat) (saved : SaveOutcome) (s : ConfigState) :
    (saveToDisk format saved s).2 = s ∨ ∃ text, format.dump s.data = some text ∧
    (saveToDisk format saved s).2 = { s with file := some text } := by
  cases hdisabled : s.saveDisabled with
  | true =>
    rw [saveToDisk, hdisabled]
    exact Or.inl rfl
  | false =>
    rw [saveToDisk, hdisabled]
    cases format.dump s.data with
    | none => cases saved <;> exact Or.inl rfl
    | some text =>
      cases saved with
      | notOpened | notWritten => exact Or.inl rfl
      | renamed => exact Or.inr ⟨text, rfl, rfl⟩

lemma saveToDisk_saveDisabled : (saveToDisk format saved s).2.saveDisabled = s.saveDisabled := by
  rcases saveToDisk_cases format saved s with h | ⟨text, _, h⟩ <;> rw [h]

lemma saveToDisk_data : (saveToDisk format saved s).2.data = s.data := by
  rcases saveToDisk_cases format saved s with h | ⟨text, _, h⟩ <;>
    rw [h]

lemma Reloadable.saveToDisk (h : Reloadable format s) :
    Reloadable format (saveToDisk format saved s).2 := by
  rcases saveToDisk_cases format saved s with hs | ⟨text, htext, hs⟩
  · rw [hs]
    exact h
  · rw [hs]
    refine ⟨?_, h.data⟩
    intro text' htext'
    cases htext'
    exact h.data text htext

lemma saveToDisk_returns (h : Printable s.data) : (saveToDisk format saved s).1 = .ok () := by
  obtain ⟨text, htext⟩ := format.exists_dump h
  cases hdisabled : s.saveDisabled with
  | true =>
    rw [saveToDisk, hdisabled]
    rfl
  | false =>
    rw [saveToDisk, hdisabled, htext]
    cases saved <;> rfl

lemma readFromDisk_file : (readFromDisk format opened s).file = s.file := by
  simp only [readFromDisk]
  split
  · rfl
  · split_ifs <;> rfl

lemma printable_readFromDisk : Printable (readFromDisk format opened s).data := by
  simp only [readFromDisk]
  split
  · exact trivial
  · next text _ =>
      split_ifs
      · cases hparse : format.parse text with
        | none => exact trivial
        | some => exact format.printable_of_parse hparse
      · exact trivial

lemma isRoot_readFromDisk (h : ∀ text, s.file = some text → ReadsRoot format text) :
    IsRoot (readFromDisk format opened s).data := by
  simp only [readFromDisk]
  split
  · exact Or.inl rfl
  · next text htext =>
      split_ifs
      · cases hparse : format.parse text with
        | none => exact Or.inl rfl
        | some j => exact h text htext j hparse
      · exact Or.inl rfl

lemma readFromDisk_of_parse {text : Octets} {j : Json} (hfile : s.file = some text)
    (hj : format.parse text = some j) : (readFromDisk format true s).data = j := by
  simp [readFromDisk, hfile, hj]

lemma loads_iff :
    Loads format dflt opened saved s ↔ IsRoot (readFromDisk format opened s).data := by
  constructor
  · intro h
    by_contra hroot
    have hreturns := h.returns
    rw [loadFromDisk, mergeDefaultConfig_error dflt hroot] at hreturns
    cases hreturns
  · intro hroot
    obtain ⟨merged, hmerged, hcovers, hprintable⟩ :=
      mergeDefaultConfig_ok dflt hroot printable_readFromDisk
    constructor
    · rw [loadFromDisk, hmerged]
      exact saveToDisk_returns hprintable
    · simp only [loadFromDisk, hmerged, saveToDisk_data, isObject]
    · simp only [loadFromDisk, hmerged, saveToDisk_data]
      exact hcovers

lemma Reloadable.loadFromDisk (h : ∀ text, s.file = some text → ReadsRoot format text) :
    Reloadable format (loadFromDisk format dflt opened saved s).2 := by
  obtain ⟨merged, hmerged, _, _⟩ :=
    mergeDefaultConfig_ok dflt (isRoot_readFromDisk h) printable_readFromDisk
  rw [ConfigManager.loadFromDisk, hmerged]
  apply Reloadable.saveToDisk
  exact ⟨fun text htext => h text (readFromDisk_file ▸ htext), savesRoot_of_isObject rfl⟩

lemma loadFromDisk_saveDisabled :
    (loadFromDisk format dflt true saved s).2.saveDisabled = s.saveDisabled := by
  have hread : (readFromDisk format true s).saveDisabled = s.saveDisabled := by
    simp only [readFromDisk]
    split <;> rfl
  simp only [loadFromDisk]
  split
  · exact hread
  · exact saveToDisk_saveDisabled.trans hread

lemma setAll_file {newConfig : Json} {text : Octets} (hdisabled : s.saveDisabled = false)
    (htext : format.dump newConfig = some text) :
    (setAll format newConfig true .renamed s).2.file = some text := by
  simp [setAll, saveToDisk, hdisabled, htext]

lemma isObject_of_assign {j j' v : Json} {key : Octets} (h : j.assign key v = .ok j') :
    j'.isObject = true := by
  cases j <;> cases h <;> rfl

lemma set_isObject {data : Json} {q : Segments} {value : Json} {out : SetOutcome}
    (h : set data q value = .ok out) : out.data.isObject = true := by
  obtain ⟨before, last⟩ := q
  cases before with
  | nil =>
    simp only [set, setFrom] at h
    split_ifs at h with hobject heq heq
    · cases h
      exact hobject
    · obtain ⟨data', hassign, hout⟩ := bind_eq_ok_iff.mp h
      cases hout
      exact isObject_of_assign hassign
    · cases h
      rfl
    · obtain ⟨data', hassign, hout⟩ := bind_eq_ok_iff.mp h
      cases hout
      exact isObject_of_assign hassign
  | cons =>
    obtain ⟨current', _, h⟩ := bind_eq_ok_iff.mp h
    obtain ⟨inner, _, h⟩ := bind_eq_ok_iff.mp h
    obtain ⟨data', hassign, hout⟩ := bind_eq_ok_iff.mp h
    cases hout
    exact isObject_of_assign hassign

lemma Reloadable.setAndSave {q : Segments} {value : Json} {skip : Bool}
    (h : Reloadable format s) :
    Reloadable format (setAndSave format q value skip saved s).2 := by
  simp only [ConfigManager.setAndSave]
  cases hset : set s.data q value with
  | error => exact h
  | ok out =>
    have hout : Reloadable format { s with data := out.data } :=
      ⟨h.file, savesRoot_of_isObject (set_isObject hset)⟩
    dsimp only
    split_ifs
    · exact hout.saveToDisk
    · exact hout

lemma Reloadable.setAll {newConfig : Json} {skip : Bool} (h : Reloadable format s)
    (hnew : SavesRoot format newConfig) :
    Reloadable format (setAll format newConfig skip saved s).2 := by
  have hdata : Reloadable format { s with data := newConfig } := ⟨h.file, hnew⟩
  have hsaved : Reloadable format
      (ConfigManager.saveToDisk format saved { s with data := newConfig }).2 := hdata.saveToDisk
  simp only [ConfigManager.setAll]
  split_ifs
  · exact hdata
  · cases hsave : ConfigManager.saveToDisk format saved { s with data := newConfig } with
    | mk result =>
      rw [hsave] at hsaved
      cases result <;> exact hsaved

lemma Reloadable.step {allowed : Json → Prop} {s' : ConfigState} (h : Reloadable format s)
    (hallowed : ∀ v, allowed v → SavesRoot format v) (hstep : Step format dflt allowed s s') :
    Reloadable format s' := by
  cases hstep with
  | set => exact h.setAndSave
  | setAll hnew => exact h.setAll (hallowed _ hnew)
  | reload => exact Reloadable.loadFromDisk h.file

end

section
variable (format : TextFormat) (defaults : Defaults)

/-- The store starts and stays usable exactly if the file holds no JSON but an object or null, and
`set_all` is given nothing that is saved as other JSON. -/
theorem staysUsable_iff (allowed : Json → Prop) (content : Option Octets) :
    StaysUsable format defaults allowed content ↔
      (∀ text, content = some text → ReadsRoot format text) ∧
      ∀ v, allowed v → SavesRoot format v := by
  constructor
  · intro h
    obtain ⟨hfirst, hlater⟩ := h true true .renamed
    constructor
    · rintro text rfl j hj
      have hroot := loads_iff.mp hfirst
      rwa [readFromDisk_of_parse rfl hj] at hroot
    · intro v hv text htext j hj
      let s := (loadFromDisk format defaults true .renamed
        (beforeLoad format defaults content true)).2
      have hdisabled : s.saveDisabled = false := loadFromDisk_saveDisabled
      have hstep : Step format defaults allowed s (setAll format v true .renamed s).2 :=
        .setAll hv true .renamed
      have hroot := loads_iff.mp (hlater _ (Reachable.tail ⟨s, rfl, .refl⟩ hstep) true .renamed)
      rwa [readFromDisk_of_parse (setAll_file hdisabled htext) hj] at hroot
  · rintro ⟨hcontent, hallowed⟩ created opened saved
    have hfile : ∀ text, (beforeLoad format defaults content created).file = some text →
        ReadsRoot format text := by
      intro text htext
      cases hcase : content with
      | some =>
        rw [hcase] at htext
        cases htext
        exact hcontent text hcase
      | none =>
        rw [hcase] at htext
        cases created with
        | false => cases htext
        | true => exact savesRoot_of_isObject rfl text htext
    refine ⟨loads_iff.mpr (isRoot_readFromDisk hfile), ?_⟩
    intro s hreach opened' saved'
    have hreloadable : Reloadable format s := by
      apply hreach.invariant
      · rintro s rfl
        exact Reloadable.loadFromDisk hfile
      · intro s s' hs hstep
        exact hs.step hallowed hstep
    exact loads_iff.mpr (isRoot_readFromDisk hreloadable.file)

end

/-- A file that holds an empty array is JSON, and the first load throws. -/
theorem emptyArray_not_staysUsable :
    ¬ StaysUsable .rootOnly (getDefaultConfig false false) (fun _ => False)
      (some (ascii "[]")) := by
  intro h
  obtain ⟨hfirst, _⟩ := h false true .renamed
  cases hfirst.returns

end ConfigManager

end Millennium.System
