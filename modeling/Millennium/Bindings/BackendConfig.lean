import Millennium.System.ConfigFile

/-!
# What the front end sees of the config

`Core_GetBackendConfig` replaces a stored proxy password by a mark; `Core_GetStartConfig` sends the
config as it is.
-/

namespace Millennium.Bindings

open Bytes Outcome Millennium.System Json ConfigManager

def storedSentinel : Octets := ascii "__SET__"

/-- `cfg["network"]["proxyPassword"] = v`. -/
def assignProxyPassword (cfg v : Json) : Except Json.AccessError Json := do
  let network ← ((cfg.field? (ascii "network")).getD .null).assign (ascii "proxyPassword") v
  cfg.assign (ascii "network") network

def coreGetBackendConfig (defaults : List (Octets × Json)) (data : Json) :
    Except Json.AccessError Json :=
  let cfg := getAll defaults data
  match cfg.path? [ascii "network", ascii "proxyPassword"] with
  | some (.string stored) =>
    assignProxyPassword cfg (.string (if stored = [] then [] else storedSentinel))
  | _ => .ok cfg

structure StartInputs where
  accentColor : Octets → Json
  /-- The `skin.json` of a theme, if there is one that is JSON. -/
  skin : Octets → Option Json
  steamPath : Octets
  installPath : Octets
  themesPath : Octets
  millenniumVersion : Octets
  plugins : List Octets
  millenniumUpdates : Json
  buildDate : Octets
  gitCommitOid : Octets
  platformType : Json
  /-- The updater script depends on the config on Linux only. -/
  linux : Bool
  /-- The command of the package manager that Millennium was installed with, if any. -/
  managedScript : Option Octets
  quickCss : Octets
  pendingCrashes : Json

section
variable (inputs : StartInputs) (defaults : List (Octets × Json)) (data : Json)

def getAccentColor : Except TypeError Json := do
  let color ← (get data [ascii "general", ascii "accentColor"] .null).getString
  .ok (inputs.accentColor color)

def getActiveTheme : Except TypeError Json := do
  let active ← (get data [ascii "themes", ascii "activeTheme"] .null).getString
  match inputs.skin active with
  | some skin => .ok (.object [(ascii "native", .string active), (ascii "data", skin)])
  | none => .ok (.object [(ascii "failed", .boolean true)])

def isEnabled (pluginName : Octets) : Bool :=
  match get data [ascii "plugins", ascii "enabledPlugins"] (.array []) with
  | .array enabledPlugins => enabledPlugins.any fun
      | .string plugin => plugin == pluginName
      | _ => false
  | _ => false

def getEnabledPluginNames : Json :=
  .array ((inputs.plugins.filter (isEnabled data)).map .string)

def getMillenniumUpdaterScript : Except TypeError Octets :=
  if inputs.linux then do
    let channel ← (get data [ascii "general", ascii "millenniumUpdateChannel"]
      (.string (ascii "stable"))).getString
    let script := ascii "curl -fsSL 'https://steambrew.app/install.sh' | bash" ++
      if channel = ascii "beta" then ascii " -s -- --beta" else []
    .ok (inputs.managedScript.getD script)
  else .ok []

def coreGetStartConfig : Except TypeError Json := do
  let accentColor ← getAccentColor inputs data
  let activeTheme ← getActiveTheme inputs data
  let script ← getMillenniumUpdaterScript inputs data
  .ok (.object [(ascii "accent_color", accentColor),
    (ascii "conditions",
      get data [ascii "themes", ascii "conditions"] (.object [])),
    (ascii "active_theme", activeTheme),
    (ascii "settings", getAll defaults data),
    (ascii "steamPath", .string inputs.steamPath),
    (ascii "installPath", .string inputs.installPath),
    (ascii "themesPath", .string inputs.themesPath),
    (ascii "millenniumVersion", .string inputs.millenniumVersion),
    (ascii "enabledPlugins", getEnabledPluginNames inputs data),
    (ascii "millenniumUpdates", inputs.millenniumUpdates),
    (ascii "buildDate", .string inputs.buildDate),
    (ascii "gitCommitOid", .string inputs.gitCommitOid),
    (ascii "platformType", inputs.platformType),
    (ascii "millenniumLinuxUpdateScript", .string script),
    (ascii "quickCss", .string inputs.quickCss),
    (ascii "pendingCrashes", inputs.pendingCrashes)])

end

/-- A store but for the password: its fields, and those of `network`. -/
structure StoreFrame where
  fields : List (Octets × Json)
  network : List (Octets × Json)
  nodup : (fields.map Prod.fst).Nodup

namespace StoreFrame

def networkWith (store : StoreFrame) (password : Octets) : List (Octets × Json) :=
  insertField (ascii "proxyPassword") (.string password) store.network

def withPassword (store : StoreFrame) (password : Octets) : Json :=
  .object (insertField (ascii "network") (.object (store.networkWith password)) store.fields)

variable {store : StoreFrame} {dflt : List (Octets × Json)} {password password' : Octets}

lemma get_withPassword {key : Octets} {rest : List Octets} {default : Json}
    (h : key ≠ ascii "network") :
    get (store.withPassword password) (key :: rest) default =
    get (.object store.fields) (key :: rest) default := by
  apply get_congr
  simp [withPassword, path?_cons, lookup_insertField_of_ne h]

lemma getAll_withPassword : getAll dflt (store.withPassword password) =
    .object (insertField (ascii "network") (.object (store.networkWith password))
        (overlay dflt store.fields)) := by
  rw [getAll, withPassword, items, overlay_insertField store.nodup]

lemma coreGetBackendConfig_withPassword (h : password ≠ []) :
    coreGetBackendConfig dflt (store.withPassword password) =
    .ok (.object (insertField (ascii "network") (.object (store.networkWith storedSentinel))
        (overlay dflt store.fields))) := by
  have hpath : (getAll dflt (store.withPassword password)).path?
      [ascii "network", ascii "proxyPassword"] = some (.string password) := by
    simp [getAll_withPassword, path?_cons, networkWith]
  rw [coreGetBackendConfig, hpath]
  simp [if_neg h, assignProxyPassword, getAll_withPassword, assign, networkWith, insertField_insertField]

lemma getAll_injective (h : getAll dflt (store.withPassword password) =
    getAll dflt (store.withPassword password')) : password = password' := by
  have hpath := congrArg (path? · [ascii "network", ascii "proxyPassword"]) h
  simpa [getAll_withPassword, path?_cons, networkWith] using hpath

variable {inputs : StartInputs}

lemma getAccentColor_withPassword : getAccentColor inputs (store.withPassword password) =
    getAccentColor inputs (.object store.fields) := by
  rw [getAccentColor, getAccentColor, get_withPassword (by decide)]

lemma getActiveTheme_withPassword : getActiveTheme inputs (store.withPassword password) =
    getActiveTheme inputs (.object store.fields) := by
  rw [getActiveTheme, getActiveTheme, get_withPassword (by decide)]

lemma getEnabledPluginNames_withPassword :
    getEnabledPluginNames inputs (store.withPassword password) =
    getEnabledPluginNames inputs (.object store.fields) := by
  have hisEnabled : isEnabled (store.withPassword password) = isEnabled (.object store.fields) := by
    funext pluginName
    rw [isEnabled, isEnabled, get_withPassword (by decide)]
  rw [getEnabledPluginNames, getEnabledPluginNames, hisEnabled]

lemma getMillenniumUpdaterScript_withPassword :
    getMillenniumUpdaterScript inputs (store.withPassword password) =
    getMillenniumUpdaterScript inputs (.object store.fields) := by
  rw [getMillenniumUpdaterScript, getMillenniumUpdaterScript, get_withPassword (by decide)]

lemma coreGetStartConfig_eq_iff : coreGetStartConfig inputs dflt (store.withPassword password) =
    coreGetStartConfig inputs dflt (store.withPassword password') ↔
    password = password' ∨
    ∃ e, coreGetStartConfig inputs dflt (store.withPassword password) = .error e := by
  have hconditions : ∀ password, get (store.withPassword password)
      [ascii "themes", ascii "conditions"] (.object []) =
        get (.object store.fields) [ascii "themes", ascii "conditions"]
          (.object []) := fun password => get_withPassword (by decide)
  simp only [coreGetStartConfig, getAccentColor_withPassword, getActiveTheme_withPassword,
    getEnabledPluginNames_withPassword, getMillenniumUpdaterScript_withPassword, hconditions]
  cases getAccentColor inputs (.object store.fields) with
  | error e => exact ⟨fun _ => Or.inr ⟨e, rfl⟩, fun _ => rfl⟩
  | ok =>
    cases getActiveTheme inputs (.object store.fields) with
    | error e => exact ⟨fun _ => Or.inr ⟨e, rfl⟩, fun _ => rfl⟩
    | ok =>
      cases getMillenniumUpdaterScript inputs (.object store.fields) with
      | error e => exact ⟨fun _ => Or.inr ⟨e, rfl⟩, fun _ => rfl⟩
      | ok =>
        constructor
        · intro h
          simp only [ok_bind, Except.ok.injEq, object.injEq, List.cons.injEq,
            Prod.mk.injEq, true_and, and_true] at h
          exact Or.inl (getAll_injective h)
        · rintro (rfl | ⟨e, he⟩)
          · rfl
          · cases he

end StoreFrame

def defaultStore : StoreFrame where
  fields := (getDefaultConfig false false).fields
  network := []
  nodup := by decide

def someInputs : StartInputs where
  accentColor color := .string color
  skin _ := none
  steamPath := []
  installPath := []
  themesPath := []
  millenniumVersion := []
  plugins := []
  millenniumUpdates := .null
  buildDate := []
  gitCommitOid := []
  platformType := .null
  linux := true
  managedScript := none
  quickCss := []
  pendingCrashes := .array []

end Millennium.Bindings
