import Mathlib.Logic.Function.Basic
import Mathlib.Tactic.SplitIfs

/-!
# The contexts of plugins

`ffi_binder` finds the plugin of an isolated context by the context's number alone, but the browser
counts the contexts of each session on their own.
-/

namespace Millennium.Engine

open Function Option

structure PluginCtx where
  isolatedCtxId : Int := -1
  isolatedSessionId : String := ""
  mainCtxId : Int := -1
  mainSessionId : String := ""

/-- The maps of the binder, and the plugin for which each session has registered a context. -/
structure Binder where
  pluginCtxs : String → Option PluginCtx := fun _ => none
  ctxToPlugin : Int → Option String := fun _ => none
  registered : String → Int → Option String := fun _ _ => none

namespace Binder

def registerIsolatedCtx (b : Binder) (plugin : String) (id : Int) (session : String) : Binder where
  pluginCtxs := update b.pluginCtxs plugin (some
    { (b.pluginCtxs plugin).getD {} with isolatedCtxId := id, isolatedSessionId := session })
  ctxToPlugin := update b.ctxToPlugin id (some plugin)
  registered := update b.registered session (update (b.registered session) id (some plugin))

def noteMainCtx (b : Binder) (plugin : String) (id : Int) (session : String) : Binder :=
  { b with pluginCtxs := update b.pluginCtxs plugin (some
      { (b.pluginCtxs plugin).getD {} with mainCtxId := id, mainSessionId := session }) }

/-- `execution_ctx_destroyed_hdlr`, which does not read the session. -/
def executionCtxDestroyed (b : Binder) (id : Int) (session : String) : Binder where
  pluginCtxs name := (b.pluginCtxs name).map fun ctx =>
    if ctx.mainCtxId = id then { ctx with mainCtxId := -1 } else ctx
  ctxToPlugin := update b.ctxToPlugin id none
  registered := update b.registered session (update (b.registered session) id none)

def relayTarget (b : Binder) (id : Int) : Option String := do
  let plugin ← b.ctxToPlugin id
  let ctx ← b.pluginCtxs plugin
  if ctx.mainCtxId = -1 then none else some plugin

end Binder

inductive CtxEvent where
  | registered (plugin : String) (id : Int) (session : String)
  | called (plugin : String) (id : Int) (session : String)
  | destroyed (id : Int) (session : String)

def Binder.handle (b : Binder) : CtxEvent → Binder
  | .registered plugin id session => b.registerIsolatedCtx plugin id session
  | .called plugin id session => b.noteMainCtx plugin id session
  | .destroyed id session => b.executionCtxDestroyed id session

def Binder.after (events : List CtxEvent) : Binder := events.foldl Binder.handle {}

namespace Binder

/-- The contexts of other sessions and the main contexts of plugins are as before. -/
def KeepsOthers (session : String) (b b' : Binder) : Prop :=
  (∀ other id plugin, other ≠ session → b.registered other id = some plugin →
    b.ctxToPlugin id = some plugin → b'.ctxToPlugin id = some plugin) ∧
  ∀ plugin ctx, b.pluginCtxs plugin = some ctx → ctx.mainSessionId ≠ session →
    b'.pluginCtxs plugin = some ctx

/-- A context can be destroyed, and it can send a relay. -/
def Separates (b : Binder) (id : Int) (session : String) : Prop :=
  KeepsOthers session b (b.executionCtxDestroyed id session) ∧
    ∀ plugin, b.relayTarget id = some plugin → b.registered session id = some plugin

/-- No other session uses the number for its plugin, or for the main context of one. -/
def Unshared (b : Binder) (id : Int) (session : String) : Prop :=
  (∀ other plugin, other ≠ session → b.ctxToPlugin id = some plugin →
    b.registered other id ≠ some plugin) ∧
  ∀ plugin ctx, b.pluginCtxs plugin = some ctx → ctx.mainCtxId = id → id ≠ -1 →
    ctx.mainSessionId = session

/-- A number stands for a plugin that some session has registered it for. -/
def Owned (b : Binder) : Prop :=
  ∀ id plugin, b.ctxToPlugin id = some plugin → ∃ session, b.registered session id = some plugin

variable {b : Binder}

lemma Owned.handle (h : b.Owned) (e : CtxEvent) : (b.handle e).Owned := by
  intro id plugin hid
  cases e with
  | registered plugin' id' session =>
    by_cases heq : id = id'
    · refine ⟨session, ?_⟩
      subst heq
      simpa [Binder.handle, registerIsolatedCtx] using hid
    · obtain ⟨s, hs⟩ := h id plugin (by simpa [Binder.handle, registerIsolatedCtx, heq] using hid)
      exact ⟨s, by by_cases hsession : s = session <;>
        simp_all [Binder.handle, registerIsolatedCtx]⟩
  | called plugin' id' session => exact h id plugin hid
  | destroyed id' session =>
    by_cases heq : id = id'
    · simp [Binder.handle, executionCtxDestroyed, heq] at hid
    · obtain ⟨s, hs⟩ := h id plugin (by simpa [Binder.handle, executionCtxDestroyed, heq] using hid)
      exact ⟨s, by by_cases hsession : s = session <;>
        simp_all [Binder.handle, executionCtxDestroyed]⟩

lemma owned_after (events : List CtxEvent) : (after events).Owned :=
  List.foldlRecOn events handle (fun _ _ h => by cases h) fun _ h e _ => h.handle e

lemma ctxToPlugin_of_relayTarget {id : Int} {plugin : String}
    (h : b.relayTarget id = some plugin) : b.ctxToPlugin id = some plugin := by
  obtain ⟨plugin', hplugin, h⟩ := bind_eq_some_iff.mp h
  obtain ⟨ctx, -, h⟩ := bind_eq_some_iff.mp h
  split_ifs at h
  rwa [← some.inj h]

lemma separates_iff_of_owned (h : b.Owned) (id : Int) (session : String) :
    b.Separates id session ↔ b.Unshared id session := by
  constructor
  · rintro ⟨⟨hkeeps, hmain⟩, -⟩
    refine ⟨fun other plugin hother hid hreg => ?_, fun plugin ctx hctx hid hne => ?_⟩
    · have hkept := hkeeps other id plugin hother hreg hid
      simp [executionCtxDestroyed] at hkept
    · by_contra hsession
      have hkept := hmain plugin ctx hctx hsession
      simp only [executionCtxDestroyed, hctx, map_some, if_pos hid] at hkept
      exact hne (by rw [← hid, ← some.inj hkept])
  · rintro ⟨hunshared, hmain⟩
    refine ⟨⟨fun other id' plugin hother hreg hid => ?_, fun plugin ctx hctx hsession => ?_⟩,
      fun plugin hrelay => ?_⟩
    · have hne : id' ≠ id := by
        rintro rfl
        exact hunshared other plugin hother hid hreg
      simpa [executionCtxDestroyed, hne] using hid
    · have hsame : (if ctx.mainCtxId = id then { ctx with mainCtxId := -1 } else ctx) = ctx := by
        split_ifs with hid
        · by_cases hne : id = -1
          · rw [← hne, ← hid]
          · exact absurd (hmain plugin ctx hctx hid hne) hsession
        · rfl
      simp [executionCtxDestroyed, hctx, hsame]
    · have hid := ctxToPlugin_of_relayTarget hrelay
      obtain ⟨owner, howner⟩ := h id plugin hid
      by_cases hsession : owner = session
      · rwa [← hsession]
      · exact absurd howner (hunshared owner plugin hsession hid)

end Binder

end Millennium.Engine
