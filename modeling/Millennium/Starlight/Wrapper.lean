import Millennium.Lib.Utf8
import Millennium.Starlight.Expression
import Millennium.Starlight.Shim

/-!
# The wrapper around a bundle

`wrap` fills a template by replacing one placeholder after the other in the whole text, so it also
meets placeholders in the name of the plugin or of a function.
-/

namespace Millennium.Starlight

open TextReplace Template List

def hexDigit (n : Nat) : Char := ("0123456789abcdef".toList.getD n '0')

/-- How `serde_json` writes one character of a string. -/
def escapeJson (c : Char) : List Char :=
  if c = '"' then ['\\', '"']
  else if c = '\\' then ['\\', '\\']
  else if c.toNat = 8 then ['\\', 'b']
  else if c = '\t' then ['\\', 't']
  else if c = '\n' then ['\\', 'n']
  else if c.toNat = 12 then ['\\', 'f']
  else if c = '\r' then ['\\', 'r']
  else if c.toNat < 32 then ['\\', 'u', '0', '0', hexDigit (c.toNat / 16), hexDigit (c.toNat % 16)]
  else [c]

def jsonString (s : List Char) : List Char := '"' :: s.flatMap escapeJson ++ ['"']

structure InspectConfig where
  depth : UInt32
  colors : Bool
  showHidden : Bool
  deriving Repr

def boolText (b : Bool) : List Char := if b then "true".toList else "false".toList

def ffiMethod (name : List Char) : List Char :=
  "  ".toList ++ name ++ ": window.MILLENNIUM_API.ffi(pluginName, '".toList ++ name ++
    "'),\n".toList

def ffiStubs (luaFfiNames : List (List Char)) : List Char :=
  if luaFfiNames = [] then []
  else "const backend = \x7b\n".toList ++ luaFfiNames.flatMap ffiMethod ++ "\x7d;\n".toList

def frontendProxy (isClient : Bool) (pluginNameJson : List Char) : List Char :=
  if isClient then []
  else ("const frontend = new Proxy(\x7b\x7d, \x7b\n  get(_, key) \x7b\n    " ++
      "if (typeof key !== 'string') return undefined;\n    " ++
      "return window.MILLENNIUM_API.ffi(").toList ++ pluginNameJson ++
    ", 'frontend:' + key);\n  \x7d\n\x7d);\n".toList

def postMessage (isClient : Bool) : List Char :=
  if isClient then
    ("if (MILLENNIUM_IS_CLIENT_MODULE) \x7b\n    " ++
      "MILLENNIUM_BACKEND_IPC.postMessage(1, \x7b pluginName: pluginName \x7d);\n  \x7d").toList
  else []

def sourceTag (isClient : Bool) : List Char :=
  if isClient then "frontend".toList else "webkit".toList

/-- `INSPECT_POLYFILL_JS`, a text in which no placeholder begins. -/
structure InspectPolyfill where
  text : List Char
  noneBegins : Placeholder.noneBegins text = true
  ended : text.getLast?.all (!Placeholder.isLetter ·) = true

section
variable (polyfill : InspectPolyfill) (pluginName : List Char) (isClient : Bool)
  (sourceMapUrl : Option (List Char)) (inspect : InspectConfig) (luaFfiNames : List (List Char))

def replacements : List (Placeholder × List Char) :=
  [(.isClient, boolText isClient), (.pluginName, jsonString pluginName),
    (.ffiStubs, ffiStubs luaFfiNames),
    (.frontendProxy, frontendProxy isClient (jsonString pluginName)),
    (.inspectPolyfill, polyfill.text),
    (.postMessage, postMessage isClient),
    (.sourceTag, sourceTag isClient),
    (.depth, Nat.toDigits 10 inspect.depth.toNat),
    (.colors, boolText inspect.colors),
    (.showHidden, boolText inspect.showHidden)]

def renderShim : List Char :=
  (replacements polyfill pluginName isClient inspect luaFfiNames).foldl
    (fun shim pass => replace id pass.1.text pass.2 shim) shimJs

def sourcemapComment : List Char :=
  match sourceMapUrl with
  | some url => "\n//# sourceMappingURL=".toList ++ url
  | none => []

/-- The wrapped text, and where the expression is in it, unless the template lost its last
placeholder. -/
def wrap (bundleJs : List Char) : Option (List Char × Nat × Nat) :=
  match splitFirst id Placeholder.bundle.text
    (renderShim polyfill pluginName isClient inspect luaFfiNames) with
  | some (before, after) =>
    let lineOffset := before.count '\n'
    let colOffset := (Utf8.encode (before.rtakeWhile (· != '\n'))).length
    some (before ++ iifeOf bundleJs ++ after ++ sourcemapComment sourceMapUrl ++ ['\n'],
      lineOffset % 2 ^ 32, colOffset % 2 ^ 32)
  | none => none

end

open Placeholder

section
variable {k : Placeholder}

lemma hexDigit_not_letter (n : Nat) : isLetter (hexDigit n) = false := by
  have hall : ∀ i < 16, isLetter (hexDigit i) = false := by decide
  by_cases hn : n < 16
  · exact hall n hn
  · have hlen : "0123456789abcdef".toList.length ≤ n := by
      exact Nat.le_of_not_lt hn
    rw [hexDigit, getD_eq_getElem?_getD, getElem?_eq_none hlen]
    decide

lemma escapeJson_of_letter {c : Char} (h : isLetter c = true) : escapeJson c = [c] := by
  have hrange : 32 ≤ c.toNat ∧ c ≠ '"' ∧ c ≠ '\\' := by
    simp only [isLetter, Bool.or_eq_true, beq_iff_eq] at h
    rcases h with (hupper | rfl) | rfl
    · delta Char.isUpper at hupper
      simp only [decide_eq_true_eq] at hupper
      refine ⟨le_trans (by decide) hupper.1, ?_, ?_⟩
      · rintro rfl
        exact absurd hupper.1 (by decide)
      · rintro rfl
        exact absurd hupper.2 (by decide)
    · decide
    · decide
  have htab : c ≠ '\t' ∧ c ≠ '\n' ∧ c ≠ '\r' := by
    refine ⟨?_, ?_, ?_⟩ <;> rintro rfl <;> exact absurd hrange.1 (by decide)
  rw [escapeJson, if_neg hrange.2.1, if_neg hrange.2.2, if_neg (by omega), if_neg htab.1,
    if_neg htab.2.1, if_neg (by omega), if_neg htab.2.2, if_neg (by omega)]

lemma escapeJson_not_letter {c : Char} (h : isLetter c = false) :
    ∀ d ∈ escapeJson c, isLetter d = false := by
  have hpair : ∀ x, isLetter x = false → ∀ d ∈ ['\\', x], isLetter d = false := by
    intro x hx
    exact forall_mem_cons.mpr ⟨by decide, forall_mem_singleton.mpr hx⟩
  have hhex : ∀ x y, isLetter x = false → isLetter y = false →
      ∀ d ∈ ['\\', 'u', '0', '0', x, y], isLetter d = false := by
    intro x y hx hy
    have hzero : isLetter '0' = false := by decide
    refine forall_mem_cons.mpr ⟨by decide, forall_mem_cons.mpr ⟨by decide, ?_⟩⟩
    refine forall_mem_cons.mpr ⟨hzero, forall_mem_cons.mpr ⟨hzero, ?_⟩⟩
    exact forall_mem_cons.mpr ⟨hx, forall_mem_singleton.mpr hy⟩
  rw [escapeJson]
  split_ifs
  all_goals first
    | exact hpair _ (by decide)
    | skip
  · exact hhex _ _ (hexDigit_not_letter _) (hexDigit_not_letter _)
  · simpa using h

lemma escapeJson_ne_nil (c : Char) : escapeJson c ≠ [] := by
  rw [escapeJson]
  split_ifs <;> simp

lemma isInfix_jsonString_iff (s : List Char) : k.text <:+: jsonString s ↔ k.text <:+: s := by
  have hquote : Quiet ['"'] := ⟨by decide, by decide, by decide⟩
  have hescape : ∀ c, escapeJson c = [c] ∨
      (escapeJson c ≠ [] ∧ ∀ d ∈ escapeJson c, d ∉ k.text) ∧ c ∉ k.text := by
    intro c
    by_cases hc : isLetter c = true
    · exact Or.inl (escapeJson_of_letter hc)
    · rw [Bool.not_eq_true] at hc
      exact Or.inr ⟨⟨escapeJson_ne_nil c,
        fun d hd => not_isLetter_of_mem (escapeJson_not_letter hc d hd)⟩, not_isLetter_of_mem hc⟩
  rw [← isInfix_flatMap_iff k.text_ne_nil hescape s]
  exact isInfix_between_iff hquote hquote (by simp) k _

lemma ofList_toList_ne_nil {c : Char} {rest : List Char} :
    (String.ofList (c :: rest)).toList ≠ [] := by
  rw [String.toList_ofList]
  exact cons_ne_nil c rest

lemma isInfix_ffiMethod_iff (name : List Char) : k.text <:+: ffiMethod name ↔ k.text <:+: name := by
  have hindent : Quiet "  ".toList := by
    exact ⟨by decide, by decide, by decide⟩
  have hmiddle : Quiet ": window.MILLENNIUM_API.ffi(pluginName, '".toList := by
    rw [String.toList_ofList]
    exact ⟨by decide, by decide, by decide⟩
  have hclose : Quiet "'),\n".toList := by
    exact ⟨by decide, by decide, by decide⟩
  have hsplit : ffiMethod name = "  ".toList ++ (name ++
      (": window.MILLENNIUM_API.ffi(pluginName, '".toList ++ name ++ "'),\n".toList)) := by
    simp [ffiMethod]
  have hapart : Apart k.text name
      (": window.MILLENNIUM_API.ffi(pluginName, '".toList ++ name ++ "'),\n".toList) := by
    rw [append_assoc]
    exact hmiddle.apart_right ofList_toList_ne_nil k name _
  rw [hsplit, (hindent.apart_left k _).isInfix_append_iff, hapart.isInfix_append_iff,
    isInfix_between_iff hmiddle hclose ofList_toList_ne_nil]
  simp only [not_isInfix_of_noneBegins hindent.noneBegins k, false_or, or_self]

lemma ended_ffiMethod (name : List Char) : (ffiMethod name).getLast? = some '\n' := by
  have hclose : "'),\n".toList = ['\'', ')', ','] ++ ['\n'] := String.toList_ofList
  rw [ffiMethod, hclose, getLast?_append]
  rfl

lemma isInfix_flatMap_ffiMethod_iff (names : List (List Char)) :
    k.text <:+: names.flatMap ffiMethod ↔ ∃ name ∈ names, k.text <:+: name := by
  induction names with
  | nil => simpa using k.text_ne_nil
  | cons name rest ih =>
    have hapart : Apart k.text (ffiMethod name) (rest.flatMap ffiMethod) :=
      apart_of_last_not (ended_ffiMethod name) (by decide)
    rw [flatMap_cons, hapart.isInfix_append_iff, isInfix_ffiMethod_iff, ih]
    simp

lemma quiet_ffiStubs_close : Quiet "\x7d;\n".toList := by
  exact ⟨by decide, by decide, by decide⟩

lemma isInfix_ffiStubs_iff (names : List (List Char)) :
    k.text <:+: ffiStubs names ↔ ∃ name ∈ names, k.text <:+: name := by
  have hopen : Quiet "const backend = \x7b\n".toList := by
    rw [String.toList_ofList]
    exact ⟨by decide, by decide, by decide⟩
  rw [ffiStubs]
  split_ifs with hnames
  · subst hnames
    simpa using k.text_ne_nil
  · rw [isInfix_between_iff hopen quiet_ffiStubs_close ofList_toList_ne_nil,
      isInfix_flatMap_ffiMethod_iff]

lemma quiet_frontendProxy_close : Quiet ", 'frontend:' + key);\n  \x7d\n\x7d);\n".toList := by
  rw [String.toList_ofList]
  exact ⟨by decide, by decide, by decide⟩

lemma isInfix_frontendProxy {isClient : Bool} {json : List Char}
    (h : k.text <:+: frontendProxy isClient json) : k.text <:+: json := by
  rw [frontendProxy] at h
  split_ifs at h
  · exact (k.text_ne_nil (by simpa using h)).elim
  · refine (isInfix_between_iff ?_ quiet_frontendProxy_close ofList_toList_ne_nil k json).mp h
    simp only [String.toList_append]
    repeat rw [String.toList_ofList]
    exact ⟨by decide +kernel, by decide, by decide +kernel⟩

lemma last_jsonString (s : List Char) : (jsonString s).getLast? = some '"' := by
  rw [jsonString, getLast?_append]
  rfl

lemma ended_jsonString (s : List Char) : Ended text (jsonString s) :=
  ended_of_last (by rw [last_jsonString]; decide)

lemma ended_ffiStubs (names : List (List Char)) : Ended text (ffiStubs names) := by
  rw [ffiStubs]
  split_ifs
  · exact ended_of_last rfl
  · exact quiet_ffiStubs_close.ended_append ofList_toList_ne_nil _

lemma ended_frontendProxy (isClient : Bool) (json : List Char) :
    Ended text (frontendProxy isClient json) := by
  rw [frontendProxy]
  split_ifs
  · exact ended_of_last rfl
  · exact quiet_frontendProxy_close.ended_append ofList_toList_ne_nil _

lemma quiet_boolText (b : Bool) : Quiet (boolText b) := by
  cases b
  · exact ⟨by decide, by decide, by decide⟩
  · exact ⟨by decide, by decide, by decide⟩

lemma quiet_sourceTag (isClient : Bool) : Quiet (sourceTag isClient) := by
  cases isClient
  · exact ⟨by decide, by decide, by decide⟩
  · exact ⟨by decide, by decide, by decide⟩

lemma quiet_postMessage (isClient : Bool) : Quiet (postMessage isClient) := by
  cases isClient with
  | false => exact ⟨by decide, by decide, by decide⟩
  | true =>
    simp only [postMessage, String.toList_append]
    repeat rw [String.toList_ofList]
    exact ⟨by decide +kernel, by decide, by decide +kernel⟩

lemma quiet_toDigits (n : Nat) : Quiet (Nat.toDigits 10 n) := by
  refine quiet_of_forall fun c hc => ?_
  have hdigit := Nat.isDigit_of_mem_toDigits (by decide) (by decide) hc
  by_contra hletter
  simp only [isLetter, Bool.not_eq_false, Bool.or_eq_true, beq_iff_eq] at hletter
  rcases hletter with (hupper | rfl) | rfl
  · delta Char.isUpper at hupper
    simp only [Char.isDigit, decide_eq_true_eq, Bool.and_eq_true, UInt32.le_iff_toNat_le]
      at hupper hdigit
    have h57 : ('9' : Char).val.toNat = 57 := by decide
    have h65 : ('A' : Char).val.toNat = 65 := by decide
    omega
  · exact absurd hdigit (by decide)
  · exact absurd hdigit (by decide)

end

section
variable (polyfill : InspectPolyfill) (pluginName : List Char) (isClient : Bool)
  (sourceMapUrl : Option (List Char)) (inspect : InspectConfig) (luaFfiNames : List (List Char))

/-- The steps of `wrap`, on characters that carry the placeholder they were put in for. -/
def wrapMarked (bundleJs : List Char) : Option (List (Marked Placeholder)) :=
  match splitFirst Prod.fst Placeholder.bundle.text
    (runPasses text (replacements polyfill pluginName isClient inspect luaFfiNames)
      (flat text shim)) with
  | some (before, after) =>
    some (before ++ put .bundle (iifeOf bundleJs) ++ after ++
      plain (sourcemapComment sourceMapUrl ++ ['\n']))
  | none => none

lemma wrapMarked_text (bundleJs : List Char) :
    (wrapMarked polyfill pluginName isClient sourceMapUrl inspect luaFfiNames bundleJs).map
        (List.map Prod.fst) =
    (wrap polyfill pluginName isClient sourceMapUrl inspect luaFfiNames bundleJs).map
        Prod.fst := by
  unfold wrap wrapMarked renderShim shimJs
  generalize flat text shim = s
  generalize replacements polyfill pluginName isClient inspect luaFfiNames = passes
  rw [← map_fst_splitFirst_runPasses]
  cases splitFirst Prod.fst Placeholder.bundle.text (runPasses text passes s) with
  | none => rfl
  | some halves =>
    simp [map_fst_put, map_fst_plain]

/-- The template with every placeholder replaced by its own value. -/
def filledShim (expr : List Char) : List (Marked Placeholder) :=
  flat text (fillAll (replacements polyfill pluginName isClient inspect luaFfiNames) shimFront ++
      .filled .bundle expr ::
        fillAll (replacements polyfill pluginName isClient inspect luaFfiNames) shimBack) ++
    plain (sourcemapComment sourceMapUrl ++ ['\n'])

/-- `wrap` gives the template with every placeholder replaced by its value and the expression in its
place. -/
def KeepsIntact (bundle : Bundle) : Prop :=
  wrapMarked polyfill pluginName isClient sourceMapUrl inspect luaFfiNames bundle.text =
    some (filledShim polyfill pluginName isClient sourceMapUrl inspect luaFfiNames bundle.expr)

lemma ready : Ready text (replacements polyfill pluginName isClient inspect luaFfiNames) shim where
  laid := laid_shim
  nodup := by
    change [Placeholder.isClient, .pluginName, .ffiStubs, .frontendProxy, .inspectPolyfill,
      .postMessage, .sourceTag, .depth, .colors, .showHidden].Nodup
    decide
  open_ := fun pass _ => hole_mem_shim pass.1
  ended := by
    simp only [replacements, forall_mem_cons, not_mem_nil, false_implies, implies_true, and_true]
    exact ⟨ended_of_last (quiet_boolText _).last, ended_jsonString _, ended_ffiStubs _,
      ended_frontendProxy _ _, ended_of_last polyfill.ended,
      ended_of_last (quiet_postMessage _).last, ended_of_last (quiet_sourceTag _).last,
      ended_of_last (quiet_toDigits _).last, ended_of_last (quiet_boolText _).last,
      ended_of_last (quiet_boolText _).last⟩
  fresh := fun k v hmem => (filled_not_mem_shim k v hmem).elim

/-- The template is filled as it should if and only if no value contains a later placeholder, and
the expression was found. -/
lemma wrapMarked_eq_iff (bundleJs expr : List Char) :
    wrapMarked polyfill pluginName isClient sourceMapUrl inspect luaFfiNames bundleJs =
    some (filledShim polyfill pluginName isClient sourceMapUrl inspect luaFfiNames expr) ↔
    (replacements polyfill pluginName isClient inspect luaFfiNames).Pairwise
          (fun earlier later => ¬ later.1.text <:+: earlier.2) ∧
    (∀ pass ∈ replacements polyfill pluginName isClient inspect luaFfiNames,
    Piece.hole pass.1 ∈ shimFront → ¬ Placeholder.bundle.text <:+: pass.2) ∧
    iifeOf bundleJs = expr := by
  have hready := ready polyfill pluginName isClient inspect luaFfiNames
  have hpass : ∀ pass ∈ replacements polyfill pluginName isClient inspect luaFfiNames,
      pass.1 ≠ Placeholder.bundle := by
    simp [replacements]
  have hopen : Piece.hole Placeholder.bundle ∉ shimFront := fun hmem =>
    ((hole_mem_shimFront_iff .bundle).mp hmem).2 rfl
  refine Iff.trans ?_ (filled_iff markers hready hpass hopen filled_not_mem_shim _ _
    (plain (sourcemapComment sourceMapUrl ++ ['\n'])))
  unfold wrapMarked filledShim shim
  generalize flat text (shimFront ++ Piece.hole .bundle :: shimBack) = s
  cases splitFirst Prod.fst Placeholder.bundle.text
    (runPasses text (replacements polyfill pluginName isClient inspect luaFfiNames) s) with
  | none =>
    constructor
    · intro hnone
      cases hnone
    · rintro ⟨_, _, hnone, _⟩
      cases hnone
  | some halves =>
    constructor
    · intro heq
      exact ⟨halves.1, halves.2, rfl, Option.some.inj heq⟩
    · rintro ⟨before, after, hhalves, heq⟩
      obtain rfl := Option.some.inj hhalves
      exact congrArg some heq

lemma wrap_text_of_keepsIntact {bundle : Bundle}
    (h : KeepsIntact polyfill pluginName isClient sourceMapUrl inspect luaFfiNames bundle) :
    (wrap polyfill pluginName isClient sourceMapUrl inspect luaFfiNames bundle.text).map Prod.fst =
    some ((filledShim polyfill pluginName isClient sourceMapUrl inspect luaFfiNames
        bundle.expr).map Prod.fst) := by
  rw [← wrapMarked_text, h, Option.map_some]

lemma filledShim_text_inj {expr expr' : List Char}
    (h : (filledShim polyfill pluginName isClient sourceMapUrl inspect luaFfiNames expr).map
        Prod.fst =
    (filledShim polyfill pluginName isClient sourceMapUrl inspect luaFfiNames expr').map
        Prod.fst) : expr = expr' := by
  simp only [filledShim, flat_append, flat_cons, Piece.chars, map_append, map_fst_put,
    append_assoc] at h
  exact append_cancel_right (append_cancel_left h)

/-- The placeholders that are looked for once the name of the plugin stands in the text. -/
def afterPluginName : List Placeholder :=
  [.ffiStubs, .frontendProxy, .inspectPolyfill, .postMessage, .sourceTag, .depth, .colors,
    .showHidden, .bundle]

/-- The placeholders that are looked for once the names of the functions stand in the text. -/
def afterFfiStubs : List Placeholder :=
  [.frontendProxy, .inspectPolyfill, .postMessage, .sourceTag, .depth, .colors, .showHidden,
    .bundle]

lemma values_iff : ((replacements polyfill pluginName isClient inspect luaFfiNames).Pairwise
        (fun earlier later => ¬ later.1.text <:+: earlier.2) ∧
    ∀ pass ∈ replacements polyfill pluginName isClient inspect luaFfiNames,
    Piece.hole pass.1 ∈ shimFront → ¬ Placeholder.bundle.text <:+: pass.2) ↔
    (∀ k ∈ afterPluginName, ¬ k.text <:+: pluginName) ∧
    ∀ name ∈ luaFfiNames, ∀ k ∈ afterFfiStubs, ¬ k.text <:+: name := by
  have hbool : ∀ (k : Placeholder) b, ¬ k.text <:+: boolText b := fun k b =>
    not_isInfix_of_noneBegins (quiet_boolText b).noneBegins k
  have htag : ∀ k : Placeholder, ¬ k.text <:+: sourceTag isClient := fun k =>
    not_isInfix_of_noneBegins (quiet_sourceTag _).noneBegins k
  have hpost : ∀ k : Placeholder, ¬ k.text <:+: postMessage isClient := fun k =>
    not_isInfix_of_noneBegins (quiet_postMessage _).noneBegins k
  have hdepth : ∀ k : Placeholder, ¬ k.text <:+: Nat.toDigits 10 inspect.depth.toNat := fun k =>
    not_isInfix_of_noneBegins (quiet_toDigits _).noneBegins k
  have hpolyfill : ∀ k : Placeholder, ¬ k.text <:+: polyfill.text := fun k =>
    not_isInfix_of_noneBegins polyfill.noneBegins k
  simp only [replacements, pairwise_cons, forall_mem_cons, not_mem_nil,
    false_implies, implies_true, and_true, hbool, htag, hpost, hdepth, hpolyfill,
    not_false_eq_true, true_and, isInfix_jsonString_iff, isInfix_ffiStubs_iff,
    hole_mem_shimFront_iff, ne_eq, reduceCtorEq, List.Pairwise.nil, forall_true_left,
      afterPluginName, afterFfiStubs]
  have hproxy : ∀ k : Placeholder, ¬ k.text <:+: pluginName →
      ¬ k.text <:+: frontendProxy isClient (jsonString pluginName) := fun k hnot hin =>
    hnot ((isInfix_jsonString_iff pluginName).mp (isInfix_frontendProxy hin))
  simp only [not_exists, not_and, forall_and]
  constructor
  · rintro ⟨⟨⟨n1, n2, n3, n4, n5, n6, n7, n8⟩, ⟨f2, f3, f4, f5, f6, f7, f8⟩, -⟩, n9, f9, -⟩
    exact ⟨⟨n1, n2, n3, n4, n5, n6, n7, n8, n9⟩, f2, f3, f4, f5, f6, f7, f8, f9⟩
  · rintro ⟨⟨n1, n2, n3, n4, n5, n6, n7, n8, n9⟩, f2, f3, f4, f5, f6, f7, f8, f9⟩
    exact ⟨⟨⟨n1, n2, n3, n4, n5, n6, n7, n8⟩, ⟨f2, f3, f4, f5, f6, f7, f8⟩, hproxy _ n3,
      hproxy _ n4, hproxy _ n5, hproxy _ n6, hproxy _ n7, hproxy _ n8⟩, n9, f9, hproxy _ n9⟩

/-- `wrap` keeps the bundle intact if and only if the name of the plugin and the names of the
functions contain no placeholder that is looked for after them, and the mark at which the
bundle is cut is that of its comment. -/
theorem wrap_keeps_intact_iff (bundle : Bundle) :
    KeepsIntact polyfill pluginName isClient sourceMapUrl inspect luaFfiNames bundle ↔
      (∀ k ∈ afterPluginName, ¬ k.text <:+: pluginName) ∧
        (∀ name ∈ luaFfiNames, ∀ k ∈ afterFfiStubs, ¬ k.text <:+: name) ∧
        bundle.MarkIsComment := by
  rw [KeepsIntact, wrapMarked_eq_iff, ← and_assoc, values_iff, bundle.iifeOf_eq_iff, and_assoc]

end

def commentInString : Bundle where
  name := none
  expr := "f(\"".toList ++ sourceMapMark ++ "\")".toList
  semicolon := false
  gap := []
  comment := none
  ending := []
  name_word := by simp
  expr_start := by decide
  expr_end := ⟨')', by decide, by decide, by decide⟩
  gap_white := by simp
  comment_line := by simp
  ending_white := by simp

/-- Of an expression that contains such a string, `f("` is put in. -/
theorem commentInString_cut :
    iifeOf commentInString.text = "f(\"".toList ∧ ∀ polyfill : InspectPolyfill,
      (wrap polyfill "a".toList true none ⟨2, false, false⟩ [] commentInString.text).map
          Prod.fst ≠
        some ((filledShim polyfill "a".toList true none ⟨2, false, false⟩ []
          commentInString.expr).map Prod.fst) ∧
      ¬ KeepsIntact polyfill "a".toList true none ⟨2, false, false⟩ [] commentInString := by
  have hcut : iifeOf commentInString.text = "f(\"".toList := by decide
  refine ⟨hcut, fun polyfill => ?_⟩
  have htext : (wrap polyfill "a".toList true none ⟨2, false, false⟩ []
      commentInString.text).map Prod.fst ≠
        some ((filledShim polyfill "a".toList true none ⟨2, false, false⟩ []
          commentInString.expr).map Prod.fst) := by
    have hclean := (values_iff polyfill "a".toList true ⟨2, false, false⟩ []).mpr
      ⟨by decide, by simp⟩
    have hwrapped := (wrapMarked_eq_iff polyfill "a".toList true none ⟨2, false, false⟩ []
      commentInString.text _).mpr ⟨hclean.1, hclean.2, rfl⟩
    rw [← wrapMarked_text, hwrapped]
    intro heq
    have hexpr := filledShim_text_inj _ _ _ _ _ _ (Option.some.inj heq)
    exact absurd hexpr (by decide)
  exact ⟨htext, fun hkeeps => htext (wrap_text_of_keepsIntact _ _ _ _ _ _ hkeeps)⟩

end Millennium.Starlight
