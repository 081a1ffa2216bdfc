import Mathlib.Data.Fintype.Basic
import Millennium.Lib.Template

/-!
# The template around a bundle

The text of `shim.js`, cut at its placeholders. These begin with two underscores and a capital
letter and are made of capital letters, underscores and semicolons, so that none goes across the end
of a stretch.
-/

namespace Millennium.Starlight

open TextReplace Template List Option

inductive Placeholder where
  | isClient | pluginName | ffiStubs | frontendProxy | inspectPolyfill | postMessage
  | sourceTag | depth | colors | showHidden | bundle
  deriving DecidableEq, Repr

def Placeholder.text : Placeholder → List Char
  | .isClient => "__IS_CLIENT__".toList
  | .pluginName => "__PLUGIN_NAME__".toList
  | .ffiStubs => "__FFI_STUBS__;".toList
  | .frontendProxy => "__FRONTEND_PROXY__;".toList
  | .inspectPolyfill => "__INSPECT_POLYFILL__;".toList
  | .postMessage => "__POST_MESSAGE__;".toList
  | .sourceTag => "__SOURCE_TAG__".toList
  | .depth => "__DEPTH__".toList
  | .colors => "__COLORS__".toList
  | .showHidden => "__SHOW_HIDDEN__".toList
  | .bundle => "__BUNDLE__".toList

namespace Placeholder

def isLetter (c : Char) : Bool := c.isUpper || c == '_' || c == ';'

/-- No placeholder begins in the text: all begin with two underscores and a capital letter. -/
def noneBegins : List Char → Bool
  | '_' :: '_' :: c :: rest => !c.isUpper && noneBegins ('_' :: c :: rest)
  | _ :: rest => noneBegins rest
  | [] => true

end Placeholder

def shimFront : List (Piece Placeholder) :=
  [ .own "const MILLENNIUM_IS_CLIENT_MODULE = ".toList,
    .hole .isClient,
    .own ";\nconst pluginName = ".toList,
    .hole .pluginName,
    .own (";\n(window.PLUGIN_LIST ||= \x7b\x7d)[pluginName] ||= \x7b\x7d;\n" ++
      "window.MILLENNIUM_SIDEBAR_NAVIGATION_PANELS ||= \x7b\x7d;\n").toList,
    .hole .ffiStubs,
    .own "\n".toList,
    .hole .frontendProxy,
    .own "\nvar __millennium_plugin_console__ = (function () \x7b\n\t".toList,
    .hole .inspectPolyfill,
    .own ("\n\n\treturn function (level, file, line) \x7b\n" ++
      "\t\tvar args = Array.prototype.slice.call(arguments, 3);\n\t\ttry \x7b\n" ++
      "\t\t\tvar MAX_MSG = 65536;\n\t\t\tvar msg = args\n\t\t\t\t.map(function (a) \x7b\n" ++
      "\t\t\t\t\ttry \x7b\n\t\t\t\t\t\tif (typeof a === 'string') return a;\n" ++
      "\t\t\t\t\t\tif (a === null) return 'null';\n" ++
      "\t\t\t\t\t\tif (a === undefined) return 'undefined';\n" ++
      "\t\t\t\t\t\tif (typeof a === 'number' || typeof a === 'boolean') return String(a);\n" ++
      "\t\t\t\t\t\treturn __inspect(a, \x7b\n\t\t\t\t\t\t\tdepth: ").toList,
    .hole .depth,
    .own ",\n\t\t\t\t\t\t\tcolors: ".toList,
    .hole .colors,
    .own ",\n\t\t\t\t\t\t\tshowHidden: ".toList,
    .hole .showHidden,
    .own (",\n\t\t\t\t\t\t\x7d);\n\t\t\t\t\t\x7d catch (e) \x7b\n" ++
      "\t\t\t\t\t\treturn '[' + (e && e.message ? e.message : String(e)) + ']';\n" ++
      "\t\t\t\t\t\x7d\n\t\t\t\t\x7d)\n\t\t\t\t.join(' ');\n" ++
      "\t\t\tif (msg.length > MAX_MSG) msg = msg.slice(0, MAX_MSG) + ' [truncated]';\n" ++
      "\t\t\tvar payload = \x7b\n\t\t\t\tplugin: ").toList,
    .hole .pluginName,
    .own ",\n\t\t\t\tlevel: level,\n\t\t\t\tmessage: msg,\n\t\t\t\tsource: '".toList,
    .hole .sourceTag,
    .own ("',\n\t\t\t\x7d;\n\t\t\tif (file !== undefined) \x7b\n\t\t\t\tpayload.file = file;\n" ++
      "\t\t\t\tpayload.line = line;\n\t\t\t\x7d\n" ++
      "\t\t\twindow.__millennium_plugin_console_binding__(JSON.stringify(payload));\n" ++
      "\t\t\x7d catch (e) \x7b\n\t\t\ttry \x7b\n\t\t\t\tvar errPayload = \x7b\n" ++
      "\t\t\t\t\tplugin: ").toList,
    .hole .pluginName,
    .own (",\n\t\t\t\t\tlevel: 'error',\n" ++
      "\t\t\t\t\tmessage: '[console] ' + (e && e.message ? e.message : String(e)),\n" ++
      "\t\t\t\t\tsource: '").toList,
    .hole .sourceTag,
    .own ("',\n\t\t\t\t\x7d;\n" ++
      "\t\t\t\twindow.__millennium_plugin_console_binding__(JSON.stringify(errPayload));\n" ++
      "\t\t\t\x7d catch (_) \x7b\x7d\n\t\t\x7d\n\t\x7d;\n\x7d)();\n\n" ++
      "let PluginEntryPointMain = function () \x7b\n\tconst __exports = \x7b\x7d;\n" ++
      "\tconst __bundle = ").toList]

def shimBack : List (Piece Placeholder) :=
  [ .own (";\n\tif (__bundle && typeof __bundle === 'object' && 'default' in __bundle) \x7b\n" ++
      "\t\tObject.assign(__exports, __bundle);\n\t\x7d else \x7b\n" ++
      "\t\t__exports.default = __bundle;\n\t\x7d\n\treturn __exports;\n\x7d;\n\n" ++
      "(async () => \x7b\n\tconst PluginModule = PluginEntryPointMain();\n" ++
      "\tObject.assign(window.PLUGIN_LIST[pluginName], \x7b\n\t\t...PluginModule,\n" ++
      "\t\t__millennium_internal_plugin_name_do_not_use_or_change__: pluginName,\n" ++
      "\t\x7d);\n\tconst pluginProps = await PluginModule.default();\n" ++
      "\tif (pluginProps && pluginProps.content !== undefined && pluginProps.icon !== undefined) \x7b\n" ++
      "\t\twindow.MILLENNIUM_SIDEBAR_NAVIGATION_PANELS[pluginName] = pluginProps;\n\t\x7d\n" ++
      "\t").toList,
    .hole .postMessage,
    .own "\n\x7d)();\n".toList]

def shim : List (Piece Placeholder) := shimFront ++ .hole .bundle :: shimBack

def shimJs : List Char := (flat Placeholder.text shim).map Prod.fst

namespace Placeholder

instance : Fintype Placeholder where
  elems := {isClient, pluginName, ffiStubs, frontendProxy, inspectPolyfill, postMessage,
    sourceTag, depth, colors, showHidden, bundle}
  complete k := by cases k <;> decide

lemma isLetter_of_mem {k : Placeholder} {c : Char} (h : c ∈ k.text) : isLetter c = true := by
  have hall : ∀ k : Placeholder, k.text.all isLetter = true := by decide
  exact all_eq_true.mp (hall k) c h

lemma text_eq (k : Placeholder) : ∃ c rest, k.text = '_' :: '_' :: c :: rest ∧ c.isUpper := by
  cases k <;> exact ⟨_, _, String.toList_ofList, by decide⟩

lemma not_isInfix_of_noneBegins {s : List Char} (h : noneBegins s = true) (k : Placeholder) :
    ¬ k.text <:+: s := by
  obtain ⟨c, rest, htext, hupper⟩ := k.text_eq
  rw [htext]
  induction s using noneBegins.induct with
  | case1 d rest' ih =>
    simp only [noneBegins, Bool.and_eq_true] at h
    rw [infix_cons_iff]
    rintro (hpre | hin)
    · simp only [cons_prefix_cons, true_and] at hpre
      rw [← hpre.1, hupper] at h
      exact Bool.noConfusion h.1
    · exact ih h.2 hin
  | case2 d rest' hnot ih =>
    rw [noneBegins] at h
    · rw [infix_cons_iff]
      rintro (hpre | hin)
      · obtain ⟨tail, htail⟩ := hpre
        obtain ⟨rfl, rfl⟩ := List.cons.inj htail
        exact hnot c (rest ++ tail) rfl rfl
      · exact ih h hin
    · exact hnot
  | case3 => simp

/-- What the layout asks of the template, read off one character at a time. -/
def inOrder : List (Piece Placeholder) → Bool
  | [] => true
  | .own s :: rest => noneBegins s && s.getLast?.all (!isLetter ·) && inOrder rest
  | .hole _ :: .own (c :: s) :: rest => (!isLetter c || c == ';') && inOrder (.own (c :: s) :: rest)
  | [.hole _] => true
  | _ :: _ => false

lemma ended_of_last {s : List Char} (h : s.getLast?.all (!isLetter ·) = true) :
    Ended text s := by
  intro k c hc hmem
  rw [mem_def.mp hc, all_some, isLetter_of_mem hmem] at h
  exact Bool.noConfusion h

lemma follows {k : Placeholder} {c : Char} {s : List Char} {rest : List (Piece Placeholder)}
    (h : (!isLetter c || c == ';') = true) : Follows text k (.own (c :: s) :: rest) := by
  intro k' i hlt hpos htake hget
  rw [Bool.or_eq_true, beq_iff_eq] at h
  rcases h with hc | rfl
  · rw [isLetter_of_mem (mem_of_getElem? hget)] at hc
    exact Bool.noConfusion hc
  · -- a placeholder ends before it comes to its semicolon
    have hsemi : ∀ k k' : Placeholder, ∀ i < k'.text.length, 0 < i → k'.text[i]? = some ';' →
        ¬ k'.text.take i <:+ k.text := by decide
    exact hsemi k k' i hlt hpos hget htake

lemma laid_of_inOrder {pieces : List (Piece Placeholder)} (h : inOrder pieces = true) :
    Laid text pieces := by
  induction pieces using inOrder.induct with
  | case1 => trivial
  | case2 s rest ih =>
    simp only [inOrder, Bool.and_eq_true] at h
    exact ⟨ended_of_last h.1.2, fun k => not_isInfix_of_noneBegins h.1.1 k, ih h.2⟩
  | case3 k c s rest ih =>
    rw [inOrder, Bool.and_eq_true] at h
    exact ⟨follows h.1, ih h.2⟩
  | case4 => exact ⟨trivial, trivial⟩
  | case5 =>
    rw [inOrder] at h <;> first | exact Bool.noConfusion h | assumption

lemma markers : Markers text where
  nonempty := by decide
  distinct := by decide

end Placeholder

lemma laid_shim : Laid Placeholder.text shim := by
  refine Placeholder.laid_of_inOrder ?_
  simp only [shim, shimFront, shimBack, String.toList_append]
  repeat rw [String.toList_ofList]
  decide +kernel

lemma hole_mem_shim (k : Placeholder) : Piece.hole k ∈ shim := by
  have hall : ∀ k, Piece.hole k ∈ shim := by decide
  exact hall k

lemma hole_mem_shimFront_iff (k : Placeholder) :
    Piece.hole k ∈ shimFront ↔ k ≠ .postMessage ∧ k ≠ .bundle := by
  have hall : ∀ k, Piece.hole k ∈ shimFront ↔ k ≠ .postMessage ∧ k ≠ .bundle := by decide
  exact hall k

lemma filled_not_mem_shim (k : Placeholder) (v : List Char) : Piece.filled k v ∉ shim := by
  have hall : shim.all (fun piece => match piece with | .filled _ _ => false | _ => true) = true := by
    decide
  exact fun hmem => Bool.noConfusion (all_eq_true.mp hall _ hmem)

namespace Placeholder

lemma not_isLetter_of_mem {k : Placeholder} {c : Char} (h : isLetter c = false) :
    c ∉ k.text := fun hmem => by
  rw [isLetter_of_mem hmem] at h
  exact Bool.noConfusion h

lemma apart_of_last_not {k : Placeholder} {a b : List Char} {c : Char}
    (hlast : a.getLast? = some c) (h : isLetter c = false) : Apart k.text a b := by
  refine apart_of_last fun d hd => ?_
  rw [hlast] at hd
  obtain rfl := some.inj hd
  exact not_isLetter_of_mem h

lemma apart_of_next_not {k : Placeholder} {a b : List Char} {c : Char}
    (h : isLetter c = false) : Apart k.text a (c :: b) :=
  apart_of_next_not_mem (not_isLetter_of_mem h)

lemma text_ne_nil (k : Placeholder) : k.text ≠ [] := markers.nonempty k

/-- Text of the program, in which no placeholder begins and across whose ends none goes. -/
structure Quiet (s : List Char) : Prop where
  noneBegins : Placeholder.noneBegins s = true
  head : s.head?.all (!isLetter ·) = true
  last : s.getLast?.all (!isLetter ·) = true

lemma Quiet.apart_left {s : List Char} (h : Quiet s) (k : Placeholder) (b : List Char) :
    Apart k.text s b :=
  apart_of_last (ended_of_last h.last k)

lemma Quiet.apart_right {s : List Char} (h : Quiet s) (hne : s ≠ []) (k : Placeholder)
    (a b : List Char) : Apart k.text a (s ++ b) := by
  obtain ⟨c, rest, rfl⟩ := exists_cons_of_ne_nil hne
  exact apart_of_next_not (by simpa using h.head)

lemma Quiet.ended_append {s : List Char} (h : Quiet s) (hne : s ≠ []) (a : List Char) :
    Ended text (a ++ s) := by
  refine ended_of_last ?_
  rw [getLast?_append_of_ne_nil a hne]
  exact h.last

lemma noneBegins_of_not_mem {s : List Char} (h : '_' ∉ s) : noneBegins s = true := by
  induction s using noneBegins.induct with
  | case1 => exact (h (by simp)).elim
  | case2 c rest hnot ih =>
    rw [noneBegins]
    · exact ih fun hmem => h (mem_cons_of_mem c hmem)
    · exact hnot
  | case3 => rfl

lemma quiet_of_forall {s : List Char} (h : ∀ c ∈ s, isLetter c = false) : Quiet s where
  noneBegins := noneBegins_of_not_mem fun hmem => by simpa [isLetter] using h '_' hmem
  head := (all_eq_true _ _).mpr fun c hc => by simp [h c (mem_of_mem_head? hc)]
  last := (all_eq_true _ _).mpr fun c hc => by simp [h c (mem_of_getLast? hc)]

lemma isInfix_between_iff {before after : List Char} (hbefore : Quiet before)
    (hafter : Quiet after) (hne : after ≠ []) (k : Placeholder) (s : List Char) :
    k.text <:+: before ++ s ++ after ↔ k.text <:+: s := by
  have hright : Apart k.text s after := by simpa using hafter.apart_right hne k s []
  rw [append_assoc, (hbefore.apart_left k _).isInfix_append_iff, hright.isInfix_append_iff]
  simp [not_isInfix_of_noneBegins hbefore.noneBegins k, not_isInfix_of_noneBegins hafter.noneBegins k]

end Placeholder

end Millennium.Starlight
