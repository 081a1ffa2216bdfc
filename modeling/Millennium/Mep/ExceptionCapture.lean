import Mathlib.Data.List.Infix
import Millennium.Lib.JsonObject

/-!
# Who is to blame for an exception

`attribute_plugin` looks for the base directories of the plugins in the URLs of an exception. It
looks for them as texts, not as directories.
-/

namespace Millennium.Mep

open Bytes Json List

structure PluginEntry where
  pluginName : Octets
  isInternal : Bool
  base : Octets
  deriving DecidableEq

def PluginEntry.occursIn (url : Octets) (p : PluginEntry) : Bool :=
  !p.isInternal && p.base ≠ [] && decide (p.base <:+: url)

/-- `check_url`, with the plugin itself for its name. An empty name counts as none. -/
def checkUrl (plugins : List PluginEntry) (url : Octets) : Option PluginEntry :=
  (plugins.find? (·.occursIn url)).filter (·.pluginName ≠ [])

def urlOf (j : Json) : Option Octets :=
  match j.field? (ascii "url") with
  | some (.string url) => some url
  | _ => none

def urlsOf (params : Json) : List Octets :=
  match params.field? (ascii "exceptionDetails") with
  | none => []
  | some details => (urlOf details).toList ++
    ((details.path? [ascii "stackTrace", ascii "callFrames"]).elim [] items).filterMap
      fun frame => urlOf frame.2

/-- The plugin whose name `attribute_plugin` returns, with the URL that decides. -/
def blamed (plugins : List PluginEntry) (params : Json) : Option (Octets × PluginEntry) :=
  (urlsOf params).findSome? fun url => (checkUrl plugins url).map (url, ·)

def attributePlugin (plugins : List PluginEntry) (params : Json) : Octets :=
  (blamed plugins params).elim (ascii "millennium") (·.2.pluginName)

/-- The directory is in the URL, with a separator or the end of the path behind it. -/
def Mentions (url base : Octets) : Prop :=
  ∃ rest ∈ url.tails, base <+: rest ∧ rest[base.length]?.all (· ∈ ascii "/?#")

def BlamesRightly (plugins : List PluginEntry) (params : Json) : Prop :=
  ∀ url p, blamed plugins params = some (url, p) → Mentions url p.base

/-- The first plugin of the list whose directory occurs in the URL as a text. -/
def FirstIn (plugins : List PluginEntry) (url : Octets) (p : PluginEntry) : Prop :=
  p.occursIn url ∧ ∃ front back, plugins = front ++ p :: back ∧ ∀ q ∈ front, ¬ q.occursIn url

section
variable {plugins : List PluginEntry} {url : Octets} {p : PluginEntry}

lemma checkUrl_eq_some_iff :
    checkUrl plugins url = some p ↔ FirstIn plugins url p ∧ p.pluginName ≠ [] := by
  simp [checkUrl, FirstIn, Option.filter_eq_some_iff, find?_eq_some_iff_append]

lemma checkUrl_eq_none_iff :
    checkUrl plugins url = none ↔ ∀ p, FirstIn plugins url p → p.pluginName = [] := by
  rw [Option.eq_none_iff_forall_ne_some]
  simp [checkUrl_eq_some_iff]

end

end Millennium.Mep
