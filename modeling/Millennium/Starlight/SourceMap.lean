import Mathlib.Data.Nat.ModEq
import Millennium.Lib.LineColumn
import Millennium.Starlight.Transforms

/-!
# The source map of a wrapped bundle

`wrap` puts the expression of the bundle in the middle of a line of the template, and
`shift_sourcemap` moves every position by that place. What `wrap` took away before the expression is
not part of the shift.
-/

namespace Millennium.Starlight

open Bytes LineColumn TextReplace Template Js List Utf8 UInt32 Option Position Piece

/-- A position of the generated text, and where it comes from. -/
structure Token where
  dstLine : UInt32
  dstCol : UInt32
  srcLine : UInt32
  srcCol : UInt32
  source : Option (List Char)
  name : Option (List Char)
  deriving DecidableEq, Repr

def shiftToken (lineOffset colOffset : UInt32) (token : Token) : Token :=
  { token with
    dstLine := token.dstLine + lineOffset
    dstCol := if token.dstLine = 0 then token.dstCol + colOffset else token.dstCol }

/-- The parser gives a tree for a text in which it finds no errors. -/
structure Parser where
  parse : List Char → Option Program
  source_eq : ∀ raw, ∀ program ∈ parse raw, program.source = encode raw

/-- What `async_bundle` is called with, the parser, and the lookup in the source map. -/
structure Build where
  parser : Parser
  sourceMap : Option (Nat → Nat → Option MapToken)
  target : BundleTarget
  polyfill : InspectPolyfill
  pluginName : List Char
  sourceMapUrl : Option (List Char)
  inspect : InspectConfig
  luaFfiNames : List (List Char)

namespace Build
variable (build : Build)

def isClient : Bool := decide (build.target = .frontend)

/-- `apply_transforms`. A text with errors is left as it is. -/
def transformed (rawJs : List Char) : Octets :=
  match build.parser.parse rawJs with
  | some program => applyTransforms build.target build.sourceMap program
  | none => encode rawJs

def wrapped (bundleJs : List Char) : Option (List Char × Nat × Nat) :=
  wrap build.polyfill build.pluginName build.isClient build.sourceMapUrl build.inspect
    build.luaFfiNames bundleJs

def front : Option (List Char) :=
  (splitFirst id Placeholder.bundle.text (renderShim build.polyfill build.pluginName
    build.isClient build.inspect build.luaFfiNames)).map Prod.fst

end Build

def removed (bundleJs : List Char) : List Char :=
  bundleJs.take
    ((stripSemicolon (trimEnd (stripSourcemap bundleJs))).length - (iifeOf bundleJs).length)

def Token.dst (token : Token) : Position := ⟨token.dstLine.toNat, token.dstCol.toNat⟩

/-- The token for a position. Tokens have lines and columns of 32 bits. -/
def Token.At (token : Token) (pos : Position) : Prop :=
  token.dstLine = ofNat pos.line ∧ token.dstCol = ofNat pos.column

/-- A token for a character of the expression is moved to it in the wrapped text. -/
def Build.PointsRight (build : Build) (rawJs : List Char) : Prop :=
  ∃ bundleJs front full lineOffset colOffset,
    encode bundleJs = build.transformed rawJs ∧ build.front = some front ∧
    build.wrapped bundleJs = some (full, lineOffset, colOffset) ∧
    ∀ pos i, i < (iifeOf rawJs).length → Designates rawJs pos ((removed rawJs).length + i) →
      ∀ token : Token, token.At pos →
        Designates full
          (shiftToken (ofNat lineOffset) (ofNat colOffset) token).dst
          (front.length + i)

/-- The expression has no position in the wrapped text that takes more than 32 bits. -/
def Fits (front expr : List Char) : Prop :=
  ∀ pos i, i < expr.length → Designates (front ++ expr) pos (front.length + i) →
    pos.line < 2 ^ 32 ∧ pos.column < 2 ^ 32

lemma isPrefix_of_beforeLast {pat s before : List Char} (hne : pat ≠ [])
    (h : beforeLast pat s = some before) : before <+: s := by
  by_cases hin : pat <:+: s
  · obtain ⟨found, after, hfound, hs⟩ := exists_beforeLast hne hin
    obtain rfl := some.inj (h.symm.trans hfound)
    exact ⟨pat ++ after, by rw [hs, append_assoc]⟩
  · rw [beforeLast_of_not_mem hin] at h
    cases h

lemma stripSourcemap_isPrefix (code : List Char) : stripSourcemap code <+: code := by
  rw [stripSourcemap]
  cases hbefore : beforeLast sourceMapMark code with
  | none => exact prefix_rfl
  | some before =>
    exact ((List.rdropWhile_prefix _ _).trans (List.rdropWhile_prefix _ _)).trans
      (isPrefix_of_beforeLast sourceMapMark_ne_nil hbefore)

lemma extractIife_isSuffix (code : List Char) : extractIife code <:+ stripSemicolon code := by
  simp only [extractIife]
  split_ifs
  · cases hsplit : splitFirst id " = ".toList ((stripSemicolon code).drop 4) with
    | none => exact suffix_rfl
    | some halves =>
      obtain ⟨found, -, hparts⟩ := splitFirst_spec id hsplit
      exact List.IsSuffix.trans ⟨halves.1 ++ found, hparts.symm⟩ (drop_suffix _ _)
  · exact suffix_rfl

lemma exists_rest (bundleJs : List Char) :
    ∃ rest, bundleJs = removed bundleJs ++ iifeOf bundleJs ++ rest := by
  obtain ⟨lead, hlead⟩ := extractIife_isSuffix (trimEnd (stripSourcemap bundleJs))
  obtain ⟨rest, hrest⟩ := ((stripSemicolon_isPrefix _).trans
    (Bundle.trimEnd_isPrefix _)).trans (stripSourcemap_isPrefix bundleJs)
  refine ⟨rest, ?_⟩
  have hremoved : removed bundleJs = lead := by
    rw [removed, iifeOf, ← hlead, length_append, Nat.add_sub_cancel]
    rw [← hrest, ← hlead, append_assoc]
    exact take_left
  rw [hremoved, iifeOf, hlead, hrest]

section
variable {token : Token} {pos : Position}

lemma dst_shiftToken (h : token.At pos) (lineOffset colOffset : Nat) :
    (shiftToken (ofNat (lineOffset % 2 ^ 32)) (ofNat (colOffset % 2 ^ 32)) token).dst =
      ⟨(pos.line + lineOffset) % 2 ^ 32,
        if pos.line % 2 ^ 32 = 0 then (pos.column + colOffset) % 2 ^ 32
        else pos.column % 2 ^ 32⟩ := by
  have hzero : token.dstLine = 0 ↔ pos.line % 2 ^ 32 = 0 := by
    rw [h.1, ← UInt32.toNat_inj, toNat_ofNat']
    rfl
  have hline : (token.dstLine + ofNat (lineOffset % 2 ^ 32)).toNat =
      (pos.line + lineOffset) % 2 ^ 32 := by
    rw [h.1, UInt32.toNat_add, toNat_ofNat', toNat_ofNat']
    omega
  simp only [Token.dst, shiftToken, hline, hzero]
  split_ifs
  · rw [h.2, UInt32.toNat_add, toNat_ofNat', toNat_ofNat']
    congr 1
    omega
  · rw [h.2, toNat_ofNat']

lemma units_iff {a b n : Nat} (hn : n = 1 ∨ n = 2) :
    (∀ k < n, ∃ k' < n, (a + k) % 2 ^ 32 = b + k') ↔ a ≡ b [MOD 2 ^ 32] ∧ b + n ≤ 2 ^ 32 := by
  rw [Nat.ModEq]
  constructor
  · intro h
    obtain ⟨first, hfirst, hfirstEq⟩ := h 0 (by omega)
    obtain ⟨last, hlast, hlastEq⟩ := h (n - 1) (by omega)
    omega
  · rintro ⟨hmod, hfits⟩ k hk
    exact ⟨k, hk, by omega⟩

/-- The shift of a character by lines and columns: `lead` and `before` are the lines before the
expression in the bundle and in the template, `line` is that of the character in it, and the columns
are those in both texts. -/
lemma shift_iff {lead before line column column' octets n : Nat} (hn : n = 1 ∨ n = 2)
    (hlater : line ≠ 0 → column = column') :
    (∀ k < n, ∃ k' < n, (lead + line + before) % 2 ^ 32 = before + line ∧
        (if (lead + line) % 2 ^ 32 = 0 then (column + k + octets) % 2 ^ 32
          else (column + k) % 2 ^ 32) = column' + k') ↔
      lead ≡ 0 [MOD 2 ^ 32] ∧ (line = 0 → column + octets ≡ column' [MOD 2 ^ 32]) ∧
        before + line < 2 ^ 32 ∧ column' + n ≤ 2 ^ 32 := by
  have hlines : (lead + line + before) % 2 ^ 32 = before + line ↔
      lead ≡ 0 [MOD 2 ^ 32] ∧ before + line < 2 ^ 32 := by
    rw [Nat.ModEq]
    omega
  by_cases hgood : lead ≡ 0 [MOD 2 ^ 32] ∧ before + line < 2 ^ 32
  · have hfirst : (lead + line) % 2 ^ 32 = 0 ↔ line = 0 := by
      have := hgood.1
      rw [Nat.ModEq] at this
      omega
    simp only [hlines, hgood, hfirst, true_and]
    by_cases hline : line = 0
    · simp only [hline, if_true, true_implies, Nat.add_right_comm column _ octets]
      exact units_iff hn
    · obtain rfl := hlater hline
      simp only [hline, if_false, false_implies, true_and]
      rw [units_iff hn]
      exact and_iff_right rfl
  · constructor
    · intro h
      obtain ⟨-, -, hline, -⟩ := h 0 (by omega)
      exact absurd (hlines.mp hline) hgood
    · rintro ⟨hlead, -, hbefore, -⟩
      exact absurd ⟨hlead, hbefore⟩ hgood

end

section
variable {lead front expr rest back : List Char} {i : Nat}

lemma columns_take_eq (h : lines (expr.take i) ≠ 0) :
    columns (lead ++ expr.take i) = columns (front ++ expr.take i) := by
  have hmem : '\n' ∈ expr.take i := by
    by_contra hnot
    exact h (lines_eq_zero_iff.mpr hnot)
  rw [columns_append_of_mem _ hmem, columns_append_of_mem _ hmem]

lemma character_iff (hi : i < expr.length) :
    (∀ pos, Designates (lead ++ expr ++ rest) pos (lead.length + i) →
    ∀ token : Token, token.At pos →
    Designates (front ++ expr ++ back)
          (shiftToken (ofNat (lines front % 2 ^ 32))
            (ofNat ((encode (lastLine front)).length % 2 ^ 32)) token).dst
          (front.length + i)) ↔
    lines lead ≡ 0 [MOD 2 ^ 32] ∧
    (lines (expr.take i) = 0 →
    columns lead + (encode (lastLine front)).length ≡ columns front [MOD 2 ^ 32]) ∧
    ∀ pos, Designates (front ++ expr) pos (front.length + i) →
    pos.line < 2 ^ 32 ∧ pos.column < 2 ^ 32 := by
  obtain ⟨c, hc⟩ : ∃ c, expr[i]? = some c := ⟨_, getElem?_eq_getElem hi⟩
  have hn := length_unitsOfChar c
  -- in the first line of the expression, its own columns come on both sides
  have hfirst : (lines (expr.take i) = 0 →
        columns lead + (encode (lastLine front)).length ≡ columns front [MOD 2 ^ 32]) ↔
      (lines (expr.take i) = 0 → columns (lead ++ expr.take i) + (encode (lastLine front)).length ≡
        columns (front ++ expr.take i) [MOD 2 ^ 32]) := by
    refine forall_congr' fun hline => ?_
    have hnot := lines_eq_zero_iff.mp hline
    rw [columns_append_of_not_mem _ hnot, columns_append_of_not_mem _ hnot, Nat.add_right_comm]
    exact ⟨fun h => h.add_right _, fun h => h.add_right_cancel' _⟩
  have hfits : (∀ pos, Designates (front ++ expr) pos (front.length + i) →
        pos.line < 2 ^ 32 ∧ pos.column < 2 ^ 32) ↔
      lines front + lines (expr.take i) < 2 ^ 32 ∧
        columns (front ++ expr.take i) + (unitsOfChar c).length ≤ 2 ^ 32 := by
    have hpart : front ++ expr = front ++ expr ++ [] := (append_nil _).symm
    rw [hpart]
    simp only [designates_middle_iff hi, hc, some.injEq]
    constructor
    · intro h
      obtain ⟨hline, hcolumn⟩ := h _ ⟨c, (unitsOfChar c).length - 1, rfl, by omega, rfl⟩
      refine ⟨hline, ?_⟩
      dsimp only at hcolumn
      omega
    · rintro ⟨hline, hcolumn⟩ pos ⟨c, k, rfl, hk, rfl⟩
      dsimp only
      omega
  rw [hfirst, hfits, ← shift_iff hn columns_take_eq]
  simp only [designates_middle_iff hi, hc, some.injEq]
  constructor
  · intro h k hk
    obtain ⟨_, k', rfl, hk', heq⟩ := h _ ⟨c, k, rfl, hk, rfl⟩
      ⟨ofNat _, ofNat _, 0, 0, none, none⟩ ⟨rfl, rfl⟩
    rw [dst_shiftToken ⟨rfl, rfl⟩, mk.injEq] at heq
    exact ⟨k', hk', heq⟩
  · rintro h pos ⟨_, k, rfl, hk, rfl⟩ token hat
    obtain ⟨k', hk', heq⟩ := h k hk
    refine ⟨c, k', rfl, hk', ?_⟩
    rw [dst_shiftToken hat, mk.injEq]
    exact heq

lemma fits_of_small (h : (encode (front ++ expr)).length < 2 ^ 32) : Fits front expr :=
  fun _ _ _ hpos => ⟨hpos.lt.1.trans h, hpos.lt.2.trans h⟩

end

namespace Build
variable (build : Build)

lemma wrapped_eq {front : List Char} (h : build.front = some front) (bundleJs : List Char) :
    ∃ back, build.wrapped bundleJs = some (front ++ iifeOf bundleJs ++ back,
    lines front % 2 ^ 32, (encode (lastLine front)).length % 2 ^ 32) := by
  unfold Build.front at h
  unfold wrapped wrap
  obtain ⟨halves, hsplit, hfront⟩ := map_eq_some_iff.mp h
  refine ⟨halves.2 ++ sourcemapComment build.sourceMapUrl ++ ['\n'], ?_⟩
  simp [hsplit, hfront, lines, lastLine]

/-- The shift is right for a bundle that is not rewritten if and only if nothing is in front of
the expression, neither a line nor a column, and the line of the template has as many columns as
octets. All of this is counted modulo 2 ^ 32, and the positions have to fit. -/
theorem pointsRight_iff (rawJs : List Char) (h : build.transformed rawJs = encode rawJs) :
    build.PointsRight rawJs ↔
      ∃ front, build.front = some front ∧
        (iifeOf rawJs = [] ∨ lines (removed rawJs) ≡ 0 [MOD 2 ^ 32] ∧
          columns (removed rawJs) + (encode (lastLine front)).length ≡
            columns front [MOD 2 ^ 32] ∧
          Fits front (iifeOf rawJs)) := by
  obtain ⟨rest, hraw⟩ := exists_rest rawJs
  -- what is asked of the characters one by one
  have hall : ∀ front back, (∀ pos i, i < (iifeOf rawJs).length →
      Designates rawJs pos ((removed rawJs).length + i) → ∀ token : Token, token.At pos →
        Designates (front ++ iifeOf rawJs ++ back)
          (shiftToken (ofNat (lines front % 2 ^ 32))
            (ofNat ((encode (lastLine front)).length % 2 ^ 32)) token).dst
          (front.length + i)) ↔
      ∀ i < (iifeOf rawJs).length, lines (removed rawJs) ≡ 0 [MOD 2 ^ 32] ∧
        (lines ((iifeOf rawJs).take i) = 0 →
          columns (removed rawJs) + (encode (lastLine front)).length ≡
            columns front [MOD 2 ^ 32]) ∧
        ∀ pos, Designates (front ++ iifeOf rawJs) pos (front.length + i) →
          pos.line < 2 ^ 32 ∧ pos.column < 2 ^ 32 := by
    intro front back
    rw [forall_comm]
    refine forall_congr' fun i => ?_
    rw [forall_comm]
    refine forall_congr' fun hi => ?_
    rw [← @character_iff (removed rawJs) front (iifeOf rawJs) rest back i hi, ← hraw]
  constructor
  · rintro ⟨bundleJs, front, full, lineOffset, colOffset, htext, hfront, hwrapped, hpoints⟩
    obtain rfl := encode_injective (htext.trans h)
    obtain ⟨back, hback⟩ := build.wrapped_eq hfront bundleJs
    obtain ⟨rfl, hoffsets⟩ := Prod.mk.inj (some.inj (hwrapped.symm.trans hback))
    obtain ⟨rfl, rfl⟩ := Prod.mk.inj hoffsets
    have hcharacters := (hall front back).mp hpoints
    refine ⟨front, hfront, or_iff_not_imp_left.mpr fun hne => ?_⟩
    have hpos := length_pos_iff.mpr hne
    have hfirst := hcharacters 0 hpos
    exact ⟨hfirst.1, hfirst.2.1 (by rfl),
      fun pos i hi => (hcharacters i hi).2.2 pos⟩
  · rintro ⟨front, hfront, hcondition⟩
    obtain ⟨back, hback⟩ := build.wrapped_eq hfront rawJs
    refine ⟨rawJs, front, _, _, _, h.symm, hfront, hback, (hall front back).mpr fun i hi => ?_⟩
    rcases hcondition with hnil | ⟨hlines, hcolumns, hfits⟩
    · rw [hnil] at hi
      exact absurd hi (Nat.not_lt_zero i)
    · exact ⟨hlines, fun _ => hcolumns, fun pos => hfits pos i hi⟩

/-- The template up to the bundle, with every placeholder replaced by its own value. -/
def filledFront : List Char :=
  (flat Placeholder.text (fillAll (replacements build.polyfill build.pluginName build.isClient
    build.inspect build.luaFfiNames) shimFront)).map Prod.fst

lemma front_of_clean (hplugin : ∀ k ∈ afterPluginName, ¬ k.text <:+: build.pluginName)
    (hnames : ∀ name ∈ build.luaFfiNames, ∀ k ∈ afterFfiStubs, ¬ k.text <:+: name) :
    build.front = some build.filledFront := by
  have hvalues := (values_iff build.polyfill build.pluginName build.isClient build.inspect
    build.luaFfiNames).mpr ⟨hplugin, hnames⟩
  have hready := ready build.polyfill build.pluginName build.isClient build.inspect
    build.luaFfiNames
  have hpass : ∀ pass ∈ replacements build.polyfill build.pluginName build.isClient
      build.inspect build.luaFfiNames, pass.1 ≠ Placeholder.bundle := by
    simp [replacements]
  have hopen : hole Placeholder.bundle ∉ shimFront := fun hmem =>
    ((hole_mem_shimFront_iff .bundle).mp hmem).2 rfl
  unfold Build.front filledFront renderShim shimJs
  generalize replacements build.polyfill build.pluginName build.isClient build.inspect
    build.luaFfiNames = passes at *
  have hclean : Clean Placeholder.text passes shim :=
    ⟨fun _ _ k v hmem => absurd hmem (filled_not_mem_shim k v), hvalues.1⟩
  have hlacks : Lacks Placeholder.text (fillAll passes shimFront) .bundle :=
    (lacks_fillAll_iff hready.nodup (fun k v hmem =>
      filled_not_mem_shim k v (mem_append_left _ hmem)) .bundle).mpr hvalues.2
  have hsplit := splitFirst_runPasses_of_clean Placeholder.markers hready hpass hopen hclean hlacks
  rw [← map_fst_splitFirst_runPasses, shim, hsplit]
  rfl

lemma lastLine_filledFront : lastLine build.filledFront = "\tconst __bundle = ".toList := by
  obtain ⟨init, s, hshape, hlast⟩ : ∃ init s,
      shimFront = init ++ [own (s ++ "\tconst __bundle = ".toList)] ∧
        s.getLast? = some '\n' := by
    have hshape : shimFront =
        shimFront.dropLast ++ [own (_ ++ "\tconst __bundle = ").toList] := rfl
    rw [String.toList_append] at hshape
    refine ⟨_, _, hshape, ?_⟩
    rw [String.toList_append, getLast?_append]
    decide
  have hown : (flat Placeholder.text [own (s ++ "\tconst __bundle = ".toList)]).map Prod.fst =
      s ++ "\tconst __bundle = ".toList := by
    simp [chars]
  rw [filledFront, hshape, fillAll_append, fillAll_own, flat_append, map_append, hown,
    ← append_assoc, lastLine_append_of_not_mem _ (by decide), lastLine_of_getLast]
  · exact nil_append _
  · rw [getLast?_append, hlast]
    rfl

end Build

def soleBuild (script : List Char) (program : Program) (h : program.source = encode script)
    (polyfill : InspectPolyfill) : Build where
  parser :=
    { parse := fun raw => if raw = script then some program else none
      source_eq := by
        intro raw found hfound
        split_ifs at hfound with hraw
        · rw [← some.inj hfound, hraw, h]
        · cases hfound }
  sourceMap := none
  target := .frontend
  polyfill := polyfill
  pluginName := "a".toList
  sourceMapUrl := none
  inspect := ⟨2, false, false⟩
  luaFfiNames := []

def bareScript : List Char := "f()".toList

def bareProgram : Program where
  source := encode bareScript
  body := [.node .expressionStatement (.cons .expression (.node (.call ⟨0, 1⟩ 1)
    (.cons .callee (.node (.identifier "f".toList) .nil) .nil)) .nil)]
  grammatical_nodes := by decide
  laid_nodes := by decide

def boundScript : List Char := "var plugin = f();".toList

def boundProgram : Program where
  source := encode boundScript
  body := [.node .variableDeclaration (.cons .binding (.node .bindingIdentifier .nil)
    (.cons .init (.node (.call ⟨13, 14⟩ 14)
      (.cons .callee (.node (.identifier "f".toList) .nil) .nil)) .nil))]
  grammatical_nodes := by decide
  laid_nodes := by decide

lemma front_soleBuild (script : List Char) (program : Program)
    (h : program.source = encode script) (polyfill : InspectPolyfill) :
    (soleBuild script program h polyfill).front =
    some (soleBuild script program h polyfill).filledFront := by
  have hname : ∀ k ∈ afterPluginName, ¬ k.text <:+: "a".toList := by decide
  exact Build.front_of_clean _ hname (forall_mem_nil _)

/-- The tokens of `f()` point to it. -/
theorem bare_points_right :
    (soleBuild bareScript bareProgram rfl ⟨[], rfl, rfl⟩).transformed bareScript =
        encode bareScript ∧
      (soleBuild bareScript bareProgram rfl ⟨[], rfl, rfl⟩).PointsRight bareScript := by
  have huntouched : (soleBuild bareScript bareProgram rfl ⟨[], rfl, rfl⟩).transformed bareScript =
      encode bareScript := by decide +kernel
  have hsize : (encode ((soleBuild bareScript bareProgram rfl ⟨[], rfl, rfl⟩).filledFront ++
      iifeOf bareScript)).length < 2 ^ 32 := by
    simp only [Build.filledFront, soleBuild, Build.isClient, replacements, shimFront, fillAll,
      String.toList_append, foldl_cons, foldl_nil, map_cons, map_nil,
      fill]
    repeat rw [String.toList_ofList]
    decide +kernel
  have hlines : lines (removed bareScript) = 0 := by decide
  have hcolumns : columns (removed bareScript) = 0 := by decide
  refine ⟨huntouched, (Build.pointsRight_iff _ bareScript huntouched).mpr
    ⟨_, front_soleBuild _ _ _ _, Or.inr ⟨?_, ?_, fits_of_small hsize⟩⟩⟩
  · rw [hlines]
  · rw [hcolumns, columns, Build.lastLine_filledFront]
    exact Nat.ModEq.rfl

/-- The `f` of `var plugin = f();` is in column 13. Its token is moved to column 31 of the line
in which it stands in column 18. -/
theorem bound_points_wrong : Designates boundScript ⟨0, 13⟩ 13 ∧ ∀ polyfill : InspectPolyfill,
    (soleBuild boundScript boundProgram rfl polyfill).transformed boundScript =
        encode boundScript ∧
      ∃ front full lineOffset,
        (soleBuild boundScript boundProgram rfl polyfill).front = some front ∧
        (soleBuild boundScript boundProgram rfl polyfill).wrapped boundScript =
          some (full, lineOffset, 18) ∧
        Designates full ⟨lines front, 18⟩ front.length ∧
        (∀ token : Token, token.At ⟨0, 13⟩ →
          (shiftToken (ofNat lineOffset) 18 token).dst.column = 31 ∧
          ¬ Designates full (shiftToken (ofNat lineOffset) 18 token).dst front.length) ∧
        ¬ (soleBuild boundScript boundProgram rfl polyfill).PointsRight boundScript := by
  have hsource : Designates boundScript ⟨0, 13⟩ 13 := ⟨'f', 0, by decide, by decide, by decide⟩
  refine ⟨hsource, fun polyfill => ?_⟩
  have hexpr : iifeOf boundScript = ['f', '(', ')'] := by decide
  have hremoved : (removed boundScript).length = 13 := by decide
  have hfront := front_soleBuild boundScript boundProgram rfl polyfill
  have hline := Build.lastLine_filledFront (soleBuild boundScript boundProgram rfl polyfill)
  obtain ⟨back, hwrapped⟩ := Build.wrapped_eq _ hfront boundScript
  have huntouched : (soleBuild boundScript boundProgram rfl polyfill).transformed boundScript =
      encode boundScript := by
    have hprogram : applyTransforms .frontend none boundProgram = encode boundScript := by
      decide +kernel
    exact hprogram
  generalize soleBuild boundScript boundProgram rfl polyfill = build at *
  generalize build.filledFront = front at *
  have hoctets : (encode (lastLine front)).length % 2 ^ 32 = 18 := by
    have hlength : (encode "\tconst __bundle = ".toList).length = 18 := by decide
    rw [hline, hlength]
    omega
  have hcolumns : columns front = 18 := by
    rw [columns, hline]
    decide
  rw [hoctets, hexpr] at hwrapped
  -- where the `f` stands in the wrapped text
  have hplace : ∀ pos, Designates (front ++ ['f', '(', ')'] ++ back) pos front.length ↔
      pos = ⟨lines front, 18⟩ := by
    intro pos
    have hmiddle := @designates_middle_iff front ['f', '(', ')'] back pos 0 (by decide)
    have hstart : lines ([] : List Char) = 0 := rfl
    rw [Nat.add_zero, take_zero, append_nil, hcolumns, hstart, Nat.add_zero] at hmiddle
    rw [hmiddle]
    constructor
    · rintro ⟨c, k, hc, hk, rfl⟩
      obtain rfl := some.inj hc
      have hunit : (unitsOfChar 'f').length = 1 := by decide
      obtain rfl : k = 0 := by omega
      rfl
    · rintro rfl
      exact ⟨'f', 0, rfl, by decide, rfl⟩
  have hcolumn : ∀ token : Token, token.At ⟨0, 13⟩ →
      (shiftToken (ofNat (lines front % 2 ^ 32)) 18 token).dst.column = 31 := by
    intro token hat
    exact congrArg column (dst_shiftToken hat (lines front) 18)
  have hmisses : ∀ token : Token, token.At ⟨0, 13⟩ → ¬ Designates (front ++ ['f', '(', ')'] ++ back)
      (shiftToken (ofNat (lines front % 2 ^ 32)) 18 token).dst front.length := by
    intro token hat hdesignates
    have hdst : _ = 18 := congrArg column ((hplace _).mp hdesignates)
    rw [hcolumn token hat] at hdst
    omega
  refine ⟨huntouched, front, _, _, hfront, hwrapped, (hplace _).mpr rfl,
    fun token hat => ⟨hcolumn token hat, hmisses token hat⟩, ?_⟩
  rintro ⟨bundleJs, front', full, lineOffset, colOffset, htext, hfront', hwrapped', hpoints⟩
  obtain rfl := encode_injective (htext.trans huntouched)
  obtain rfl := some.inj (hfront.symm.trans hfront')
  obtain ⟨rfl, hoffsets⟩ := Prod.mk.inj (some.inj (hwrapped.symm.trans hwrapped'))
  obtain ⟨rfl, rfl⟩ := Prod.mk.inj hoffsets
  have hat : (⟨0, 13, 0, 0, none, none⟩ : Token).At ⟨0, 13⟩ := ⟨rfl, rfl⟩
  refine hmisses _ hat (hpoints ⟨0, 13⟩ 0 (by decide) ?_ _ hat)
  exact hsource

end Millennium.Starlight
