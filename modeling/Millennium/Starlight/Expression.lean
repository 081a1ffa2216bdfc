import Mathlib.Data.List.DropRight
import Millennium.Lib.TextReplace

/-!
# The expression in a bundle

The bundler writes one expression, maybe bound to a variable, with a semicolon and a source-map
comment. `wrap` cuts the text at the last mark of such a comment and at the first equals sign.
-/

namespace Millennium.Starlight

open TextReplace List

def isWhitespace (c : Char) : Bool :=
  (9 ≤ c.toNat && c.toNat ≤ 13) || c.toNat == 32 || c.toNat == 0x85 || c.toNat == 0xa0 ||
    c.toNat == 0x1680 || (0x2000 ≤ c.toNat && c.toNat ≤ 0x200a) || c.toNat == 0x2028 ||
    c.toNat == 0x2029 || c.toNat == 0x202f || c.toNat == 0x205f || c.toNat == 0x3000

def trimEnd (s : List Char) : List Char := s.rdropWhile isWhitespace

def beforeLast (pat : List Char) : List Char → Option (List Char)
  | [] => none
  | c :: rest =>
    match beforeLast pat rest with
    | some before => some (c :: before)
    | none => if pat.isPrefixOf (c :: rest) then some [] else none

def sourceMapMark : List Char := "//# sourceMappingURL=".toList

def stripSourcemap (code : List Char) : List Char :=
  match beforeLast sourceMapMark code with
  | some before => (before.rdropWhile (· == '\n')).rdropWhile (· == '\r')
  | none => code

def stripSemicolon (code : List Char) : List Char :=
  if code.getLast? = some ';' then code.dropLast else code

def extractIife (code : List Char) : List Char :=
  let code := stripSemicolon code
  if "var ".toList.isPrefixOf code then
    match splitFirst id " = ".toList (code.drop 4) with
    | some halves => halves.2
    | none => code
  else code

def iifeOf (bundleJs : List Char) : List Char := extractIife (trimEnd (stripSourcemap bundleJs))

/-- A bundle: an expression that may be bound to a name, a semicolon, and a source-map comment. -/
structure Bundle where
  name : Option (List Char)
  expr : List Char
  semicolon : Bool
  gap : List Char
  comment : Option (List Char)
  ending : List Char
  name_word : ∀ n ∈ name, ∀ c ∈ n, c ≠ ' ' ∧ c ≠ '/'
  expr_start : ¬ "var ".toList <+: expr ++ [' ']
  expr_end : ∃ c, expr.getLast? = some c ∧ c ≠ ';' ∧ isWhitespace c = false
  gap_white : ∀ c ∈ gap, isWhitespace c = true
  comment_line : ∀ url ∈ comment, '\n' ∉ url
  ending_white : ∀ c ∈ ending, isWhitespace c = true

namespace Bundle
variable (bundle : Bundle)

def binding : List Char :=
  match bundle.name with
  | some n => "var ".toList ++ n ++ " = ".toList
  | none => []

def statement : List Char :=
  bundle.binding ++ bundle.expr ++ if bundle.semicolon then [';'] else []

def commentText : List Char :=
  match bundle.comment with
  | some url => sourceMapMark ++ url
  | none => []

def text : List Char := bundle.statement ++ bundle.gap ++ bundle.commentText ++ bundle.ending

/-- The mark that the search finds is that of the comment, if there is one. -/
def MarkIsComment : Prop :=
  match bundle.comment with
  | some url => ¬ sourceMapMark <:+: url
  | none => ¬ sourceMapMark <:+: bundle.expr

end Bundle

section
variable {pat : List Char}

lemma beforeLast_of_not_mem {s : List Char} (h : ¬ pat <:+: s) : beforeLast pat s = none := by
  induction s with
  | nil => rfl
  | cons c rest ih =>
    rw [infix_cons_iff, not_or] at h
    have hpat : ¬ pat.isPrefixOf (c :: rest) = true :=
      fun hp => h.1 (List.isPrefixOf_iff_prefix.mp hp)
    rw [beforeLast, ih h.2]
    exact if_neg hpat

lemma exists_beforeLast {s : List Char} (hne : pat ≠ []) (h : pat <:+: s) :
    ∃ before after, beforeLast pat s = some before ∧ s = before ++ pat ++ after := by
  induction s with
  | nil => exact (hne (by simpa using h)).elim
  | cons c rest ih =>
    by_cases hrest : pat <:+: rest
    · obtain ⟨before, after, hbefore, rfl⟩ := ih hrest
      exact ⟨c :: before, after, by rw [beforeLast, hbefore], by simp⟩
    · have hpat : pat <+: c :: rest := (infix_cons_iff.mp h).resolve_right hrest
      obtain ⟨after, hafter⟩ := hpat
      refine ⟨[], after, ?_, by simp [hafter]⟩
      rw [beforeLast, beforeLast_of_not_mem hrest]
      exact if_pos (List.isPrefixOf_iff_prefix.mpr ⟨after, hafter⟩)

lemma beforeLast_append {a b before : List Char} (h : beforeLast pat b = some before) :
    beforeLast pat (a ++ b) = some (a ++ before) := by
  induction a with
  | nil => exact h
  | cons c rest ih => rw [cons_append, beforeLast, ih, cons_append]

end

section
variable {p : Char → Bool}

lemma rdropWhile_append_of_all {a b : List Char} (h : ∀ c ∈ b, p c = true) :
    (a ++ b).rdropWhile p = a.rdropWhile p := by
  induction b using List.reverseRecOn with
  | nil => rw [append_nil]
  | append_singleton b c ih =>
    rw [← append_assoc, rdropWhile_concat_pos p _ _ (h c (by simp))]
    exact ih fun d hd => h d (by simp [hd])

lemma rdropWhile_append_of_last {a b : List Char} {c : Char} (hlast : a.getLast? = some c)
    (hc : p c = false) : (a ++ b).rdropWhile p = a ++ b.rdropWhile p := by
  induction b using List.reverseRecOn with
  | nil =>
    rw [rdropWhile_nil, append_nil, rdropWhile_eq_self_iff]
    intro hne
    rw [getLast?_eq_some_getLast hne] at hlast
    rw [Option.some.inj hlast, hc]
    exact Bool.false_ne_true
  | append_singleton b d ih =>
    by_cases hd : p d = true
    · rw [← append_assoc, rdropWhile_concat_pos p _ _ hd, rdropWhile_concat_pos p _ _ hd, ih]
    · rw [← append_assoc, rdropWhile_concat_neg p _ _ hd,
        rdropWhile_concat_neg p _ _ hd, append_assoc]

lemma rdropWhile_of_last {a : List Char} {c : Char} (hlast : a.getLast? = some c)
    (hc : p c = false) : a.rdropWhile p = a := by
  simpa using rdropWhile_append_of_last (b := []) hlast hc

lemma trimEnd_rdropWhile (h : ∀ c, p c = true → isWhitespace c = true) (s : List Char) :
    trimEnd (s.rdropWhile p) = trimEnd s := by
  induction s using List.reverseRecOn with
  | nil => rfl
  | append_singleton s c ih =>
    by_cases hc : p c = true
    · rw [rdropWhile_concat_pos p _ _ hc, ih, trimEnd, trimEnd,
        rdropWhile_concat_pos isWhitespace _ _ (h c hc)]
    · rw [rdropWhile_concat_neg p _ _ hc]

end

lemma trimEnd_stripSourcemap_of_mark {s before : List Char}
    (h : beforeLast sourceMapMark s = some before) :
    trimEnd (stripSourcemap s) = trimEnd before := by
  rw [stripSourcemap, h]
  have hreturn : ∀ c : Char, (c == '\r') = true → isWhitespace c = true := by
    intro c hc
    rw [beq_iff_eq.mp hc]
    decide
  have hnewline : ∀ c : Char, (c == '\n') = true → isWhitespace c = true := by
    intro c hc
    rw [beq_iff_eq.mp hc]
    decide
  rw [trimEnd_rdropWhile hreturn, trimEnd_rdropWhile hnewline]

lemma sourceMapMark_eq : ∃ tail, sourceMapMark = '/' :: '/' :: '#' :: ' ' :: tail :=
  ⟨_, String.toList_ofList⟩

lemma sourceMapMark_last : sourceMapMark.getLast? = some '=' := by decide

lemma sourceMapMark_ne_nil : sourceMapMark ≠ [] := by
  obtain ⟨tail, htail⟩ := sourceMapMark_eq
  rw [htail]
  exact cons_ne_nil _ _

lemma not_isInfix_of_end {s : List Char} (h : '=' ∉ s) : ¬ sourceMapMark <:+: s :=
  fun hin => h (hin.mem (mem_of_getLast? sourceMapMark_last))

lemma not_isInfix_of_slash {s : List Char} (h : '/' ∉ s) : ¬ sourceMapMark <:+: s := by
  obtain ⟨tail, htail⟩ := sourceMapMark_eq
  exact fun hin => h (hin.mem (by rw [htail]; simp))

lemma extractIife_binding {code n rest : List Char}
    (hcode : stripSemicolon code = "var ".toList ++ n ++ " = ".toList ++ rest)
    (hn : ' ' ∉ n) : extractIife code = rest := by
  have hvar : "var ".toList = ['v', 'a', 'r', ' '] := String.toList_ofList
  have heq : " = ".toList = [' ', '=', ' '] := String.toList_ofList
  have hsplit : splitFirst id [' ', '=', ' '] (n ++ ([' ', '=', ' '] ++ rest)) =
      some (n, rest) := by
    have hnone : splitFirst id [' ', '=', ' '] n = none :=
      splitFirst_of_not_mem _ fun hin => hn (by simpa using hin.mem (by simp : ' ' ∈ [' ', '=', ' ']))
    have hapart : Apart [' ', '=', ' '] (n.map id) (([' ', '=', ' '] ++ rest).map id) := by
      rw [map_id]
      exact apart_of_first_not_mem hn
    rw [splitFirst_append _ hapart, hnone]
    simp [splitFirst]
  have hdrop : (stripSemicolon code).drop 4 = n ++ ([' ', '=', ' '] ++ rest) := by
    rw [hcode]
    simp
  have hpre : "var ".toList.isPrefixOf (stripSemicolon code) = true := by
    rw [hcode, isPrefixOf_iff_prefix]
    exact prefix_append _ _
  simp only [extractIife]
  rw [if_pos hpre, hdrop, heq, hsplit]

lemma extractIife_of_not_var {code : List Char} (h : ¬ "var ".toList <+: stripSemicolon code) :
    extractIife code = stripSemicolon code := by
  exact if_neg fun hpre => h (List.isPrefixOf_iff_prefix.mp hpre)

lemma stripSemicolon_of_last {code : List Char} {c : Char} (h : code.getLast? = some c)
    (hc : c ≠ ';') : stripSemicolon code = code := by
  rw [stripSemicolon, if_neg]
  rw [h]
  exact fun heq => hc (Option.some.inj heq)

lemma stripSemicolon_append (code : List Char) : stripSemicolon (code ++ [';']) = code := by
  rw [stripSemicolon, if_pos (by simp), dropLast_concat]

lemma stripSemicolon_isPrefix (code : List Char) : stripSemicolon code <+: code := by
  rw [stripSemicolon]
  split_ifs
  · exact dropLast_prefix code
  · exact prefix_rfl

namespace Bundle
variable (bundle : Bundle)

lemma expr_ne_nil : bundle.expr ≠ [] := by
  obtain ⟨c, hc, -⟩ := bundle.expr_end
  intro hnil
  simp [hnil] at hc

lemma last_binding_expr : ∃ c, (bundle.binding ++ bundle.expr).getLast? = some c ∧ c ≠ ';' ∧
    isWhitespace c = false := by
  obtain ⟨c, hc, hne⟩ := bundle.expr_end
  exact ⟨c, by rw [getLast?_append, hc]; rfl, hne⟩

lemma stripSemicolon_statement :
    stripSemicolon bundle.statement = bundle.binding ++ bundle.expr := by
  rw [statement]
  cases bundle.semicolon with
  | true => exact stripSemicolon_append _
  | false =>
    obtain ⟨c, hlast, hne, -⟩ := bundle.last_binding_expr
    simp only [Bool.false_eq_true, if_false, append_nil]
    exact stripSemicolon_of_last hlast hne

lemma trimEnd_statement : trimEnd bundle.statement = bundle.statement := by
  rw [statement]
  cases bundle.semicolon with
  | true => exact rdropWhile_of_last (c := ';') (by simp) (by decide)
  | false =>
    obtain ⟨c, hlast, -, hwhite⟩ := bundle.last_binding_expr
    simp only [Bool.false_eq_true, if_false, append_nil]
    exact rdropWhile_of_last hlast hwhite

lemma not_var_expr : ¬ "var ".toList <+: bundle.expr :=
  fun h => bundle.expr_start (h.trans (prefix_append _ _))

lemma extractIife_statement : extractIife bundle.statement = bundle.expr := by
  have hstrip := bundle.stripSemicolon_statement
  cases hname : bundle.name with
  | none =>
    have hbare : stripSemicolon bundle.statement = bundle.expr := by
      rw [hstrip, binding, hname, nil_append]
    rw [extractIife_of_not_var (by rw [hbare]; exact bundle.not_var_expr), hbare]
  | some n =>
    refine extractIife_binding (n := n) (by rw [hstrip, binding, hname]) ?_
    exact fun hmem => (bundle.name_word n hname ' ' hmem).1 rfl

lemma not_white_end {s : List Char} (h : ∀ c ∈ s, isWhitespace c = true) : '=' ∉ s := by
  intro hmem
  exact absurd (h '=' hmem) (by decide)

lemma slash_not_mem_binding : '/' ∉ bundle.binding := by
  have hvar : '/' ∉ "var ".toList := by decide
  have heq : '/' ∉ " = ".toList := by decide
  rw [binding]
  cases hname : bundle.name with
  | none => simp
  | some n =>
    have hn : '/' ∉ n := fun hmem => (bundle.name_word n hname '/' hmem).2 rfl
    simp only [mem_append, not_or]
    exact ⟨⟨hvar, hn⟩, heq⟩

def after : List Char := (if bundle.semicolon then [';'] else []) ++ bundle.gap

lemma end_not_mem_after : '=' ∉ bundle.after := by
  have hsemi : '=' ∉ (if bundle.semicolon then [';'] else [] : List Char) := by
    split_ifs <;> decide
  simp only [after, mem_append, not_or]
  exact ⟨hsemi, not_white_end bundle.gap_white⟩

lemma text_eq : bundle.text =
    bundle.binding ++ (bundle.expr ++ bundle.after) ++ bundle.commentText ++ bundle.ending := by
  simp [text, statement, after]

lemma isInfix_text_iff (h : bundle.comment = none) :
    sourceMapMark <:+: bundle.text ↔ sourceMapMark <:+: bundle.expr := by
  obtain ⟨tail, htail⟩ := sourceMapMark_eq
  have hend : '=' ∉ bundle.after ++ bundle.ending := by
    simp only [mem_append, not_or]
    exact ⟨bundle.end_not_mem_after, not_white_end bundle.ending_white⟩
  have hfront : Apart sourceMapMark bundle.binding
      (bundle.expr ++ (bundle.after ++ bundle.ending)) := by
    rw [htail]
    exact apart_of_first_not_mem bundle.slash_not_mem_binding
  have hback : Apart sourceMapMark bundle.expr (bundle.after ++ bundle.ending) :=
    apart_of_end_not_mem sourceMapMark_last hend
  rw [bundle.text_eq, commentText, h]
  simp only [append_nil, append_assoc]
  rw [hfront.isInfix_append_iff, hback.isInfix_append_iff]
  simp [not_isInfix_of_slash bundle.slash_not_mem_binding, not_isInfix_of_end hend]

lemma trimEnd_statement_append {white : List Char} (h : ∀ c ∈ white, isWhitespace c = true) :
    trimEnd (bundle.statement ++ white) = bundle.statement := by
  rw [trimEnd, rdropWhile_append_of_all h]
  exact bundle.trimEnd_statement

lemma iifeOf_of_no_mark (hcom : bundle.comment = none)
    (h : ¬ sourceMapMark <:+: bundle.expr) : iifeOf bundle.text = bundle.expr := by
  have hstrip : stripSourcemap bundle.text = bundle.text := by
    rw [stripSourcemap, beforeLast_of_not_mem (mt (bundle.isInfix_text_iff hcom).mp h)]
  have hwhite : ∀ c ∈ bundle.gap ++ bundle.ending, isWhitespace c = true := by
    intro c hc
    exact (mem_append.mp hc).elim (bundle.gap_white c) (bundle.ending_white c)
  have htext : bundle.text = bundle.statement ++ (bundle.gap ++ bundle.ending) := by
    rw [text, commentText, hcom, append_nil, append_assoc]
  rw [iifeOf, hstrip, htext, bundle.trimEnd_statement_append hwhite]
  exact bundle.extractIife_statement

lemma beforeLast_comment {url : List Char} (h : ¬ sourceMapMark <:+: url) :
    beforeLast sourceMapMark (sourceMapMark ++ url ++ bundle.ending) = some [] := by
  have hend : '=' ∉ bundle.ending := not_white_end bundle.ending_white
  have hlater : ¬ sourceMapMark <:+: url ++ bundle.ending := by
    have hapart : Apart sourceMapMark url bundle.ending :=
      apart_of_end_not_mem sourceMapMark_last hend
    rw [hapart.isInfix_append_iff]
    exact not_or.mpr ⟨h, not_isInfix_of_end hend⟩
  obtain ⟨tail, htail⟩ := sourceMapMark_eq
  -- a second mark would have to begin inside the first
  have hoverlap : ∀ i < sourceMapMark.length, 0 < i →
      ¬ sourceMapMark.take i <:+ sourceMapMark.tail := by decide
  have hrest : ¬ sourceMapMark <:+: sourceMapMark.tail ++ (url ++ bundle.ending) := by
    have hapart : Apart sourceMapMark sourceMapMark.tail (url ++ bundle.ending) :=
      fun i hpos hlt htake _ => hoverlap i hlt hpos htake
    rw [hapart.isInfix_append_iff]
    refine not_or.mpr ⟨fun hin => ?_, hlater⟩
    have hlen := hin.length_le
    rw [length_tail] at hlen
    have hpos := length_pos_iff.mpr sourceMapMark_ne_nil
    omega
  have hcons : sourceMapMark ++ url ++ bundle.ending =
      '/' :: (sourceMapMark.tail ++ (url ++ bundle.ending)) := by
    rw [htail]
    simp
  have hpat : sourceMapMark.isPrefixOf ('/' :: (sourceMapMark.tail ++ (url ++ bundle.ending))) =
      true := by
    rw [List.isPrefixOf_iff_prefix, ← hcons, append_assoc]
    exact prefix_append _ _
  rw [hcons, beforeLast, beforeLast_of_not_mem hrest]
  exact if_pos hpat

lemma iifeOf_of_comment {url : List Char} (hcom : bundle.comment = some url)
    (h : ¬ sourceMapMark <:+: url) : iifeOf bundle.text = bundle.expr := by
  have htext : bundle.text =
      (bundle.statement ++ bundle.gap) ++ (sourceMapMark ++ url ++ bundle.ending) := by
    simp [text, commentText, hcom]
  have hbefore : beforeLast sourceMapMark bundle.text = some (bundle.statement ++ bundle.gap) := by
    rw [htext, beforeLast_append (bundle.beforeLast_comment h), append_nil]
  rw [iifeOf, trimEnd_stripSourcemap_of_mark hbefore,
    bundle.trimEnd_statement_append bundle.gap_white]
  exact bundle.extractIife_statement

lemma trimEnd_isPrefix (s : List Char) : trimEnd s <+: s := rdropWhile_prefix _ s

lemma extractIife_ne_of_cut {code part : List Char}
    (hcode : stripSemicolon code <+: bundle.binding ++ part) (hpart : part <+: bundle.expr)
    (hlt : part.length < bundle.expr.length) (hlong : 4 ≤ bundle.expr.length) :
    extractIife code ≠ bundle.expr := by
  cases hname : bundle.name with
  | none =>
    rw [binding, hname, nil_append] at hcode
    have hvar : ¬ "var ".toList <+: stripSemicolon code := fun h =>
      bundle.not_var_expr ((h.trans hcode).trans hpart)
    rw [extractIife_of_not_var hvar]
    intro heq
    have := hcode.length_le
    rw [heq] at this
    omega
  | some n =>
    have hvar : "var ".toList = ['v', 'a', 'r', ' '] := String.toList_ofList
    have heq : " = ".toList = [' ', '=', ' '] := String.toList_ofList
    rw [binding, hname] at hcode
    simp only [heq, append_assoc] at hcode
    by_cases hpre : "var ".toList <+: stripSemicolon code
    · -- what is left begins with the binding, or with a part of it
      obtain ⟨rest, hrest⟩ := hpre
      rw [← hrest, prefix_append_right_inj] at hcode
      simp only [extractIife]
      rw [if_pos (List.isPrefixOf_iff_prefix.mpr ⟨rest, hrest⟩), ← hrest, hvar]
      simp only [cons_append, nil_append, drop_succ_cons, drop_zero]
      rw [heq]
      cases hsplit : splitFirst id [' ', '=', ' '] rest with
      | none =>
        intro hexpr
        refine bundle.not_var_expr ?_
        rw [← hexpr]
        exact ⟨rest, rfl⟩
      | some halves =>
        obtain ⟨found, hfound, hparts⟩ := splitFirst_spec id hsplit
        rw [map_id] at hfound
        subst hfound
        have hafter : n.length ≤ halves.1.length := by
          by_contra hshort
          refine absurd rfl (bundle.name_word n hname ' ' ?_).1
          have hcut : halves.1 ++ [' '] <+: n ++ ([' ', '=', ' '] ++ part) := by
            refine List.IsPrefix.trans ?_ hcode
            rw [hparts]
            exact ⟨['=', ' '] ++ halves.2, by simp⟩
          have hin : halves.1 ++ [' '] <+: n :=
            prefix_of_prefix_length_le hcut (prefix_append _ _)
              (by simp only [length_append, length_singleton]; omega)
          exact hin.mem (by simp)
        intro hexpr
        simp only at hexpr
        have hlen := hcode.length_le
        rw [hparts, hexpr] at hlen
        simp only [length_append] at hlen
        omega
    · rw [extractIife_of_not_var hpre]
      intro hexpr
      rw [hexpr] at hcode hpre
      refine hpre (prefix_of_prefix_length_le ?_ hcode ?_)
      · exact prefix_append _ _
      · exact hlong

lemma length_sourceMapMark : sourceMapMark.length = 21 := by decide

lemma iifeOf_ne_of_mark (hcom : bundle.comment = none)
    (h : sourceMapMark <:+: bundle.expr) : iifeOf bundle.text ≠ bundle.expr := by
  have hend : '=' ∉ bundle.after ++ bundle.ending := by
    simp only [mem_append, not_or]
    exact ⟨bundle.end_not_mem_after, not_white_end bundle.ending_white⟩
  have htext : bundle.text =
      bundle.binding ++ (bundle.expr ++ (bundle.after ++ bundle.ending)) := by
    rw [bundle.text_eq, commentText, hcom]
    simp
  obtain ⟨part, rest, hpart, hsplit⟩ := exists_beforeLast sourceMapMark_ne_nil
    (h.trans (prefix_append bundle.expr (bundle.after ++ bundle.ending)).isInfix)
  have hlt : part.length < bundle.expr.length := by
    by_contra hle
    -- the mark would lie after the expression
    obtain ⟨more, hmore⟩ : bundle.expr <+: part :=
      prefix_of_prefix_length_le (prefix_append _ (bundle.after ++ bundle.ending))
        ⟨sourceMapMark ++ rest, by rw [hsplit, append_assoc]⟩ (by omega)
    rw [← hmore, append_assoc, append_assoc, append_cancel_left_eq] at hsplit
    exact not_isInfix_of_end hend ⟨more, rest, by rw [hsplit, append_assoc]⟩
  have hprefix : part <+: bundle.expr :=
    prefix_of_prefix_length_le ⟨sourceMapMark ++ rest, by rw [hsplit, append_assoc]⟩
      (prefix_append _ _) (by omega)
  have hbefore : beforeLast sourceMapMark bundle.text = some (bundle.binding ++ part) := by
    rw [htext, beforeLast_append hpart]
  rw [iifeOf, trimEnd_stripSourcemap_of_mark hbefore]
  refine bundle.extractIife_ne_of_cut ((stripSemicolon_isPrefix _).trans (trimEnd_isPrefix _))
    hprefix hlt ?_
  have hlen := h.length_le
  rw [length_sourceMapMark] at hlen
  omega

lemma not_var_append {tail : List Char} {c : Char}
    (hc : c = ';' ∨ isWhitespace c = true ∨ c = '/') :
    ¬ "var ".toList <+: bundle.expr ++ c :: tail := by
  have hvar : "var ".toList = ['v', 'a', 'r', ' '] := String.toList_ofList
  have hstart := bundle.expr_start
  rw [hvar] at hstart ⊢
  have hletter : c ≠ 'a' ∧ c ≠ 'r' := by
    rcases hc with rfl | hwhite | rfl
    · decide
    · exact ⟨fun heq => by rw [heq] at hwhite; exact absurd hwhite (by decide),
        fun heq => by rw [heq] at hwhite; exact absurd hwhite (by decide)⟩
    · decide
  match hexpr : bundle.expr with
  | [] => exact (bundle.expr_ne_nil hexpr).elim
  | [a] =>
    simp only [cons_append, nil_append, cons_prefix_cons]
    exact fun h => hletter.1 h.2.1.symm
  | [a, b] =>
    simp only [cons_append, nil_append, cons_prefix_cons]
    exact fun h => hletter.2 h.2.2.1.symm
  | [a, b, d] =>
    rw [hexpr] at hstart
    simp only [cons_append, nil_append, cons_prefix_cons] at hstart ⊢
    exact fun h => hstart ⟨h.1, h.2.1, h.2.2.1, trivial, nil_prefix⟩
  | a :: b :: d :: e :: rest =>
    rw [hexpr] at hstart
    simp only [cons_append, cons_prefix_cons] at hstart ⊢
    exact fun h => hstart ⟨h.1, h.2.1, h.2.2.1, h.2.2.2.1, nil_prefix⟩

lemma iifeOf_ne_of_comment {url : List Char} (hcom : bundle.comment = some url)
    (h : sourceMapMark <:+: url) : iifeOf bundle.text ≠ bundle.expr := by
  obtain ⟨part, rest, hpart, -⟩ := exists_beforeLast sourceMapMark_ne_nil
    (h.trans (prefix_append url bundle.ending).isInfix)
  have hbefore : beforeLast sourceMapMark bundle.text =
      some ((bundle.binding ++ (bundle.expr ++ bundle.after)) ++ sourceMapMark ++ part) := by
    rw [bundle.text_eq, commentText, hcom]
    rw [append_assoc _ _ bundle.ending, append_assoc sourceMapMark,
      ← append_assoc _ sourceMapMark, beforeLast_append hpart]
  have hlast : ((bundle.binding ++ (bundle.expr ++ bundle.after)) ++ sourceMapMark).getLast? =
      some '=' := by
    rw [getLast?_append, sourceMapMark_last]
    rfl
  -- the first mark is not cut off, neither with white space nor with a semicolon
  obtain ⟨more, hmore⟩ : ∃ more, stripSemicolon (trimEnd (stripSourcemap bundle.text)) =
      bundle.binding ++ (bundle.expr ++ (bundle.after ++ sourceMapMark ++ more)) := by
    rw [trimEnd_stripSourcemap_of_mark hbefore, trimEnd,
      rdropWhile_append_of_last hlast (by decide), stripSemicolon]
    split_ifs with hsemi
    · rcases eq_nil_or_concat (part.rdropWhile isWhitespace) with hnil | ⟨front, c, hfront⟩
      · rw [hnil, append_nil, hlast] at hsemi
        exact absurd (Option.some.inj hsemi) (by decide)
      · refine ⟨front, ?_⟩
        rw [hfront, concat_eq_append, ← append_assoc, dropLast_concat]
        simp
    · exact ⟨part.rdropWhile isWhitespace, by simp⟩
  have hlonger : bundle.expr ++ (bundle.after ++ sourceMapMark ++ more) ≠ bundle.expr := by
    intro heq
    have hnil := append_right_eq_self.mp heq
    simp only [append_eq_nil_iff] at hnil
    exact sourceMapMark_ne_nil hnil.1.2
  cases hname : bundle.name with
  | none =>
    rw [binding, hname] at hmore
    obtain ⟨c, tail, htail, hc⟩ : ∃ c tail, bundle.after ++ sourceMapMark ++ more = c :: tail ∧
        (c = ';' ∨ isWhitespace c = true ∨ c = '/') := by
      obtain ⟨markTail, hmark⟩ := sourceMapMark_eq
      cases hafter : bundle.after with
      | nil => exact ⟨'/', _, by rw [hmark]; rfl, Or.inr (Or.inr rfl)⟩
      | cons c tail =>
        refine ⟨c, _, rfl, ?_⟩
        have hmem : c ∈ bundle.after := by rw [hafter]; simp
        rcases mem_append.mp hmem with hsemi | hgap
        · split_ifs at hsemi with hflag
          · exact Or.inl (by simpa using hsemi)
          · simp at hsemi
        · exact Or.inr (Or.inl (bundle.gap_white c hgap))
    have hnot : ¬ "var ".toList <+: stripSemicolon (trimEnd (stripSourcemap bundle.text)) := by
      rw [hmore, htail]
      exact bundle.not_var_append hc
    rw [iifeOf, extractIife_of_not_var hnot, hmore]
    exact hlonger
  | some n =>
    rw [binding, hname] at hmore
    have hn : ' ' ∉ n := fun hmem => (bundle.name_word n hname ' ' hmem).1 rfl
    rw [iifeOf, extractIife_binding hmore hn]
    exact hlonger

/-- `wrap` takes the expression and nothing else if and only if the mark at which it cuts is the
comment's. -/
lemma iifeOf_eq_iff : iifeOf bundle.text = bundle.expr ↔ bundle.MarkIsComment := by
  rw [MarkIsComment]
  cases hcom : bundle.comment with
  | none =>
    refine ⟨fun heq hmark => ?_, bundle.iifeOf_of_no_mark hcom⟩
    exact bundle.iifeOf_ne_of_mark hcom hmark heq
  | some url =>
    refine ⟨fun heq hmark => ?_, bundle.iifeOf_of_comment hcom⟩
    exact bundle.iifeOf_ne_of_comment hcom hmark heq

end Bundle

end Millennium.Starlight
