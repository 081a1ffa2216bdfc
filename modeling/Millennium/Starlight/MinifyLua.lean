import Millennium.Lib.LuaLexer
import Millennium.Lib.Utf8

/-!
# The Lua minifier

The first pass of `minify_lua` drops comments and copies strings, the second drops needless white
space. Both write a byte as the character of that number, which is two bytes if it is not ASCII.
-/

namespace Millennium.Starlight

open Bytes Utf8 Lua List Nat Option Scanner

def pushByte (b : UInt8) : Octets := String.utf8EncodeChar (Char.ofNat b.toNat)

def pushAll (text : Octets) : Octets := text.flatMap pushByte

/-- After an opening quote: what is written up to the closing one, and what is after it. -/
def copyShort (quote : UInt8) : Bool → Octets → Octets × Octets
  | _, [] => ([], [])
  | true, c :: rest => (pushByte c ++ (copyShort quote false rest).1, (copyShort quote false rest).2)
  | false, c :: rest =>
    if c = quote then (pushByte c, rest)
    else (pushByte c ++ (copyShort quote (c == 92) rest).1, (copyShort quote (c == 92) rest).2)

/-- After an opening long bracket, where the closing one is written as it is. -/
def copyLong (level : Nat) : Octets → Octets × Octets
  | [] => ([], [])
  | c :: rest =>
    match closes level (c :: rest) with
    | some after => (delimiter 93 level, after)
    | none => (pushByte c ++ (copyLong level rest).1, (copyLong level rest).2)

/-- What is after a comment, from behind its minus signs on. -/
def skipComment (rest : Octets) : Octets :=
  match readDelimiter 91 rest with
  | some (level, after) => (copyLong level after).2
  | none => rest.dropWhile (· != 10)

lemma length_copyShort_le (quote : UInt8) (esc : Bool) (src : Octets) :
    (copyShort quote esc src).2.length ≤ src.length := by
  induction src generalizing esc with
  | nil => cases esc <;> exact Nat.le_refl _
  | cons c rest ih =>
    cases esc with
    | true => exact le_succ_of_le (ih false)
    | false =>
      rw [copyShort]
      split_ifs
      · exact le_succ _
      · exact le_succ_of_le (ih _)

lemma length_copyLong_le (level : Nat) (src : Octets) :
    (copyLong level src).2.length ≤ src.length := by
  induction src with
  | nil => exact Nat.le_refl _
  | cons c rest ih =>
    rw [copyLong]
    split
    · next after hcloses =>
      rw [closes_iff.mp hcloses, length_append]
      exact Nat.le_add_left _ _
    · exact le_succ_of_le ih

lemma length_skipComment_le (rest : Octets) : (skipComment rest).length ≤ rest.length := by
  rw [skipComment]
  split
  · next level after hopen =>
    rw [(readDelimiter_iff (by decide)).mp hopen, length_append]
    exact le_add_left_of_le (length_copyLong_le level after)
  · exact length_dropWhile_le _ _

lemma length_of_readDelimiter {src after : Octets} {level : Nat}
    (h : readDelimiter 91 src = some (level, after)) : after.length < src.length := by
  rw [(readDelimiter_iff (by decide)).mp h]
  simp only [delimiter, length_cons, length_append]
  omega

def stripComments : Octets → Octets
  | [] => []
  | c :: rest =>
    if c = 45 ∧ rest.head? = some 45 then stripComments (skipComment rest.tail)
    else if isQuote c then
      pushByte c ++ (copyShort c false rest).1 ++ stripComments (copyShort c false rest).2
    else
      match _h : readDelimiter 91 (c :: rest) with
      | some (level, after) =>
        delimiter 91 level ++ (copyLong level after).1 ++ stripComments (copyLong level after).2
      | none => pushByte c ++ stripComments rest
termination_by src => src.length
decreasing_by
  · have hle := length_skipComment_le rest.tail
    simp only [length_tail, length_cons] at hle ⊢
    omega
  · exact lt_succ_of_le (length_copyShort_le c false rest)
  · exact Nat.lt_of_le_of_lt (length_copyLong_le level after) (length_of_readDelimiter _h)
  · exact lt_succ_self _

structure LineState where
  atLineStart : Bool
  lineHasContent : Bool
  pendingSpace : Bool
  deriving Repr, DecidableEq

/-- A pending space before a string, and the state afterwards. -/
def LineState.spaceBefore (st : LineState) : Octets :=
  if st.pendingSpace && st.lineHasContent then [32] else []

def LineState.afterString (st : LineState) : LineState :=
  ⟨false, true, st.pendingSpace && !st.lineHasContent⟩

def collapseLines (st : LineState) : Octets → Octets
  | [] => []
  | c :: rest =>
    match _h : readDelimiter 91 (c :: rest) with
    | some (level, after) =>
      st.spaceBefore ++ delimiter 91 level ++ (copyLong level after).1 ++
        collapseLines st.afterString (copyLong level after).2
    | none =>
      if isQuote c then
        st.spaceBefore ++ pushByte c ++ (copyShort c false rest).1 ++
          collapseLines st.afterString (copyShort c false rest).2
      else if c = 10 then
        (if st.lineHasContent then [10] else []) ++ collapseLines ⟨true, false, false⟩ rest
      else if c = 32 ∨ c = 9 then
        collapseLines (if st.atLineStart then st else { st with pendingSpace := true }) rest
      else
        (if st.pendingSpace then [32] else []) ++ pushByte c ++ collapseLines ⟨false, true, false⟩ rest
termination_by src => src.length
decreasing_by
  · exact Nat.lt_of_le_of_lt (length_copyLong_le level after) (length_of_readDelimiter _h)
  · exact lt_succ_of_le (length_copyShort_le c false rest)
  all_goals exact lt_succ_self _

/-- What is not UTF-8 stays as it is. -/
def minifyLua (src : Octets) : Octets :=
  if src.toByteArray.validateUTF8 then collapseLines ⟨true, false, false⟩ (stripComments src) else src

lemma minifyLua_of_isUtf8 {src : Octets} (h : IsUtf8 src) :
    minifyLua src = collapseLines ⟨true, false, false⟩ (stripComments src) :=
  if_pos ((validateUTF8_iff src).mpr h)

section
variable {c : UInt8} {text rest after : Octets}

lemma pushByte_of_narrow (h : isWide c = false) : pushByte c = [c] := by
  refine utf8EncodeChar_ofNat ?_
  simpa [isWide, UInt8.le_iff_toNat_le] using h

lemma pushByte_of_wide (h : isWide c = true) :
    ∃ x y, pushByte c = [x, y] ∧ isWide x = true ∧ isWide y = true := by
  have hc : 128 ≤ c.toNat := by simpa [isWide, UInt8.le_iff_toNat_le] using h
  obtain ⟨x, y, hxy, hx, hy⟩ := utf8EncodeChar_ofNat_high hc
  exact ⟨x, y, hxy, by simpa [isWide, UInt8.le_iff_toNat_le] using hx,
    by simpa [isWide, UInt8.le_iff_toNat_le] using hy⟩

@[simp] lemma pushAll_nil : pushAll [] = [] := rfl

@[simp] lemma pushAll_cons (c : UInt8) (text : Octets) :
    pushAll (c :: text) = pushByte c ++ pushAll text := rfl

@[simp] lemma pushAll_append (text more : Octets) :
    pushAll (text ++ more) = pushAll text ++ pushAll more :=
  flatMap_append

lemma pushAll_of_narrow (h : ∀ c ∈ text, isWide c = false) : pushAll text = text := by
  induction text with
  | nil => rfl
  | cons c text ih =>
    obtain ⟨hc, htext⟩ := forall_mem_cons.mp h
    rw [pushAll_cons, pushByte_of_narrow hc, ih htext]
    rfl

lemma narrow_delimiter {bracket : UInt8} (h : isWide bracket = false) (level : Nat) :
    ∀ c ∈ delimiter bracket level, isWide c = false := by
  intro c hc
  rcases mem_append.mp hc with hfront | hlast
  · rcases mem_cons.mp hfront with rfl | hsign
    · exact h
    · rw [eq_of_mem_replicate hsign]
      rfl
  · rwa [mem_singleton.mp hlast]

lemma pushAll_delimiter {bracket : UInt8} (h : isWide bracket = false) (level : Nat) :
    pushAll (delimiter bracket level) = delimiter bracket level :=
  pushAll_of_narrow (narrow_delimiter h level)

lemma prefix_of_prefix_pushAll {front : Octets} (hfront : ∀ c ∈ front, isWide c = false)
    (h : front <+: pushAll text ++ rest) : front <+: text ++ rest := by
  induction text generalizing front with
  | nil => exact h
  | cons c text ih =>
    cases front with
    | nil => exact nil_prefix
    | cons =>
      obtain ⟨ha, hmore⟩ := forall_mem_cons.mp hfront
      cases hc : isWide c with
      | false =>
        rw [pushAll_cons, pushByte_of_narrow hc, singleton_append, cons_append,
          cons_prefix_cons] at h
        rw [cons_append, cons_prefix_cons]
        exact ⟨h.1, ih hmore h.2⟩
      | true =>
        obtain ⟨x, y, hxy, hx, -⟩ := pushByte_of_wide hc
        rw [pushAll_cons, hxy, append_assoc, cons_append, cons_prefix_cons] at h
        rw [h.1, hx] at ha
        cases ha

lemma closes_of_wide (h : isWide c = true) (level : Nat) : closes level (c :: rest) = none := by
  rw [eq_none_iff_forall_ne_some]
  intro after hafter
  obtain ⟨rfl, -⟩ := List.cons.inj (closes_iff.mp hafter)
  cases h

lemma longText_pushAll {level : Nat} (h : LongText level text) : LongText level (pushAll text) := by
  induction text with
  | nil => exact h
  | cons c text ih =>
    obtain ⟨hnone, htext⟩ := longText_cons_iff.mp h
    cases hc : isWide c with
    | false =>
      rw [pushAll_cons, pushByte_of_narrow hc]
      refine longText_cons_iff.mpr ⟨fun after => ?_, ih htext⟩
      rw [eq_none_iff_forall_ne_some]
      intro found hfound
      have hpushed : delimiter 93 level <+: pushAll (c :: text) ++ (delimiter 93 level ++ after) := by
        rw [pushAll_cons, pushByte_of_narrow hc]
        exact ⟨found, (closes_iff.mp hfound).symm⟩
      obtain ⟨more, hmore⟩ := prefix_of_prefix_pushAll (narrow_delimiter rfl level) hpushed
      cases (hnone after).symm.trans (closes_iff.mpr hmore.symm)
    | true =>
      obtain ⟨x, y, hxy, hx, hy⟩ := pushByte_of_wide hc
      rw [pushAll_cons, hxy]
      refine longText_cons_iff.mpr ⟨fun after => closes_of_wide hx level, ?_⟩
      exact longText_cons_iff.mpr ⟨fun after => closes_of_wide hy level, ih htext⟩

lemma ne_of_wide {quote : UInt8} (hquote : isWide quote = false) (h : isWide c = true) :
    c ≠ quote := by
  rintro rfl
  rw [h] at hquote
  cases hquote

lemma shortText_pushAll {quote : UInt8} {esc : Bool} (hquote : isWide quote = false)
    (h : ShortText quote esc text) : ShortText quote esc (pushAll text) := by
  induction text generalizing esc with
  | nil => exact h
  | cons c text ih =>
    cases hc : isWide c with
    | false =>
      rw [pushAll_cons, pushByte_of_narrow hc]
      cases esc with
      | true => exact shortText_escaped_iff.mpr (ih (shortText_escaped_iff.mp h))
      | false =>
        obtain ⟨hne, htext⟩ := shortText_cons_iff.mp h
        exact shortText_cons_iff.mpr ⟨hne, ih htext⟩
    | true =>
      obtain ⟨x, y, hxy, hx, hy⟩ := pushByte_of_wide hc
      have hplain : ∀ {d : UInt8}, isWide d = true → (d == 92) = false := fun hd =>
        beq_eq_false_iff_ne.mpr (ne_of_wide rfl hd)
      -- neither the byte nor the two it becomes end the string or escape
      have htail : ShortText quote false text := by
        cases esc with
        | true => exact shortText_escaped_iff.mp h
        | false => simpa only [hplain hc] using (shortText_cons_iff.mp h).2
      have hsecond : ShortText quote false (y :: pushAll text) :=
        shortText_cons_iff.mpr ⟨ne_of_wide hquote hy, by simpa only [hplain hy] using ih htail⟩
      rw [pushAll_cons, hxy, cons_append, singleton_append]
      cases esc with
      | true => exact shortText_escaped_iff.mpr hsecond
      | false =>
        exact shortText_cons_iff.mpr ⟨ne_of_wide hquote hx, by simpa only [hplain hx] using hsecond⟩

lemma copyLong_of_closes {level : Nat} (h : closes level (c :: rest) = some after) :
    copyLong level (c :: rest) = (delimiter 93 level, after) := by
  rw [copyLong, h]

lemma copyLong_of_longText {level : Nat} (h : LongText level text) (after : Octets) :
    copyLong level (text ++ (delimiter 93 level ++ after)) =
    (pushAll text ++ delimiter 93 level, after) := by
  induction text with
  | nil => exact copyLong_of_closes (closes_iff.mpr rfl)
  | cons c text ih =>
    obtain ⟨hnone, htext⟩ := longText_cons_iff.mp h
    rw [cons_append, copyLong, hnone after, ih htext, pushAll_cons, append_assoc]

lemma copyShort_of_shortText {quote : UInt8} {esc : Bool} (h : ShortText quote esc text)
    (after : Octets) :
    copyShort quote esc (text ++ quote :: after) = (pushAll text ++ pushByte quote, after) := by
  induction text generalizing esc with
  | nil =>
    cases esc with
    | true => cases h []
    | false => simp [copyShort]
  | cons c text ih =>
    cases esc with
    | true => simp [copyShort, ih (shortText_escaped_iff.mp h)]
    | false =>
      obtain ⟨hne, htext⟩ := shortText_cons_iff.mp h
      simp [copyShort, hne, ih htext]

end

def kept (lexemes : List Lexeme) : List Lexeme := lexemes.filter (!·.isComment)

section
variable {num : NumeralSyntax} {c : UInt8} {text rest after : Octets}

structure PlainAt (c : UInt8) (rest : Octets) : Prop where
  quote : isQuote c = false
  comment : c = 45 → rest.head? ≠ some 45
  bracket : c = 91 → rest.head? ≠ some 91 ∧ rest.head? ≠ some 61

lemma readDelimiter_eq_none (h : c = 91 → rest.head? ≠ some 91 ∧ rest.head? ≠ some 61) :
    readDelimiter 91 (c :: rest) = none := by
  rw [eq_none_iff_forall_ne_some]
  rintro ⟨level, after⟩ hfound
  obtain ⟨rfl, hrest⟩ := List.cons.inj ((readDelimiter_iff (by decide)).mp hfound)
  obtain ⟨hbr, hsign⟩ := h rfl
  cases level with
  | zero => exact hbr (congrArg List.head? hrest)
  | succ => exact hsign (congrArg List.head? hrest)

lemma stripComments_plain (h : PlainAt c rest) :
    stripComments (c :: rest) = pushByte c ++ stripComments rest := by
  have hdelimiter := readDelimiter_eq_none h.bracket
  rw [stripComments, if_neg (fun hfront => h.comment hfront.1 hfront.2), if_neg (by simp [h.quote])]
  split
  · next hfound => cases hdelimiter.symm.trans hfound
  · rfl

lemma stripComments_comment (rest : Octets) :
    stripComments (45 :: 45 :: rest) = stripComments (skipComment rest) := by
  rw [stripComments]
  rfl

lemma stripComments_short {quote : UInt8} (hquote : isQuote quote = true)
    (h : ShortText quote false text) :
    stripComments (quote :: (text ++ quote :: after)) =
    pushAll (quote :: text ++ [quote]) ++ stripComments after := by
  have hminus : ¬ (quote = 45 ∧ (text ++ quote :: after).head? = some 45) := by
    rintro ⟨rfl, -⟩
    cases hquote
  rw [stripComments, if_neg hminus, if_pos hquote, copyShort_of_shortText h]
  simp

lemma stripComments_long {level : Nat} (h : LongText level text) :
    stripComments (delimiter 91 level ++ (text ++ (delimiter 93 level ++ after))) =
    pushAll (delimiter 91 level ++ text ++ delimiter 93 level) ++ stripComments after := by
  have hfound : readDelimiter 91 (delimiter 91 level ++ (text ++ (delimiter 93 level ++ after))) =
      some (level, text ++ (delimiter 93 level ++ after)) :=
    (readDelimiter_iff (by decide)).mpr rfl
  have hcons : delimiter 91 level ++ (text ++ (delimiter 93 level ++ after)) =
      91 :: (List.replicate level 61 ++ [91] ++ (text ++ (delimiter 93 level ++ after))) := rfl
  rw [hcons] at hfound ⊢
  rw [stripComments, if_neg (by simp), if_neg (by decide)]
  split
  · next level' after' hsome =>
    obtain ⟨rfl, rfl⟩ := Prod.mk.inj (some.inj (hfound.symm.trans hsome))
    rw [copyLong_of_longText h, pushAll_append, pushAll_append, pushAll_delimiter rfl,
      pushAll_delimiter rfl]
    simp
  · next hnone => cases hfound.symm.trans hnone

lemma stripComments_run {s f : WordState} (hrun : run WordState.step s text = some f)
    (hf : f ≠ .opens) (hlast : text.getLast? ≠ some 45) :
    stripComments (text ++ rest) = pushAll text ++ stripComments rest := by
  induction text generalizing s with
  | nil => rfl
  | cons c text ih =>
    obtain ⟨s₁, hstep, hnext⟩ := run_cons_iff.mp hrun
    obtain ⟨hquote, -, hopens, hminus, -⟩ := step_spec hstep
    have hs₁ := step_ne_opens hnext hf
    have hplain : PlainAt c (text ++ rest) := by
      refine ⟨hquote, fun hc => ?_, fun hc => absurd (hopens hc).2 hs₁⟩
      obtain rfl := (hminus hc).resolve_right hs₁
      cases text with
      | nil => exact (hlast (by rw [hc]; rfl)).elim
      | cons =>
        -- after the sign of an exponent comes a digit or a letter
        rintro hhead
        obtain rfl := some.inj hhead
        obtain ⟨s₂, hdigit, -⟩ := run_cons_iff.mp hnext
        cases hdigit
    have htail : text.getLast? ≠ some 45 := by
      cases text with
      | nil => simp
      | cons => simpa using hlast
    rw [cons_append, stripComments_plain hplain, ih hnext htail, pushAll_cons, append_assoc]

lemma stripComments_word {s : WordState} (hstate : wordState text = some s)
    (haccepts : s.accepts num text = true) (hstops : Scanner.Stops WordState.step s rest) :
    stripComments (text ++ rest) = pushAll text ++ stripComments rest := by
  cases text with
  | nil => cases hstate
  | cons c text =>
    obtain ⟨-, hquote, hrun⟩ := wordState_cons_iff.mp hstate
    have hopens : s ≠ .opens := by
      rintro rfl
      cases haccepts
    have hplain : PlainAt c (text ++ rest) := by
      refine ⟨hquote, ?_, ?_⟩
      · rintro rfl
        exact head?_ne_of_opens rfl hrun haccepts hstops
      · rintro rfl
        exact ⟨head?_ne_of_opens rfl hrun haccepts hstops,
          head?_ne_of_opens rfl hrun haccepts hstops⟩
    have hlast : text.getLast? ≠ some 45 := by
      intro hminus
      obtain ⟨before, rfl⟩ := getLast?_eq_some_iff.mp hminus
      rw [run_append] at hrun
      obtain ⟨s₁, -, hsign⟩ := bind_eq_some_iff.mp hrun
      obtain ⟨s₂, hstep, hs₂⟩ := run_cons_iff.mp hsign
      obtain rfl := some.inj hs₂
      obtain rfl := ((step_spec hstep).2.2.2.1 rfl).resolve_right hopens
      cases (num.not_minus_last (c :: before)).symm.trans haccepts
    rw [cons_append, stripComments_plain hplain, stripComments_run hrun hopens hlast,
      pushAll_cons, append_assoc]

lemma prefix_of_not_mem {front : Octets} {x : UInt8} (hx : x ∉ front)
    (h : front <+: text ++ x :: rest) : front <+: text := by
  rcases prefix_or_prefix_of_prefix h (prefix_append text _) with hshort | ⟨more, rfl⟩
  · exact hshort
  · rw [prefix_append_right_inj] at h
    cases more with
    | nil => simp
    | cons a =>
      obtain ⟨rfl, -⟩ := cons_prefix_cons.mp h
      exact absurd (by simp) hx

lemma not_mem_delimiter (level : Nat) : (10 : UInt8) ∉ delimiter 91 level := by
  simp [delimiter]

lemma skipComment_line (htext : ∀ c ∈ text, endsLine false c = false)
    (hopen : readDelimiter 91 text = none) (hrest : ∀ c ∈ rest.head?, endsLine false c = true) :
    skipComment (text ++ rest) = rest := by
  have hnone : readDelimiter 91 (text ++ rest) = none := by
    rw [eq_none_iff_forall_ne_some] at hopen ⊢
    rintro ⟨level, after⟩ hfound
    rw [readDelimiter_iff (by decide)] at hfound
    obtain ⟨more, hmore⟩ : delimiter 91 level <+: text := by
      cases rest with
      | nil => exact ⟨after, by simpa using hfound.symm⟩
      | cons c =>
        obtain rfl : c = 10 := by simpa [endsLine] using hrest c rfl
        exact prefix_of_not_mem (not_mem_delimiter level) ⟨after, hfound.symm⟩
    exact hopen (level, more) ((readDelimiter_iff (by decide)).mpr hmore.symm)
  rw [skipComment, hnone]
  simp only [endsLine, Bool.false_and, Bool.or_false] at htext hrest
  rw [dropWhile_append_of_pos fun c hc => by simp [bne, htext c hc]]
  cases rest with
  | nil => rfl
  | cons c => simp [bne, hrest c rfl]

lemma skipComment_block {level : Nat} (h : LongText level text) :
    skipComment (delimiter 91 level ++ (text ++ (delimiter 93 level ++ after))) = after := by
  rw [skipComment, (readDelimiter_iff (by decide)).mpr rfl]
  simp only [copyLong_of_longText h]

lemma stripComments_lexeme {l : Lexeme} (hsound : l.Sound num false)
    (hstops : l.Stops false rest) : stripComments (l.text ++ rest) =
      (if l.isComment then [] else pushAll l.text) ++ stripComments rest := by
  cases l with
  | white c =>
    have hplain : PlainAt c rest := by
      have hspace : isSpace c = true := hsound
      simp only [isSpace] at hspace
      refine ⟨?_, ?_, ?_⟩
      · simp only [isQuote]
        grind
      · rintro rfl
        cases hspace
      · rintro rfl
        cases hspace
    simp [Lexeme.text, Lexeme.isComment, stripComments_plain hplain]
  | lineComment =>
    have hskip := skipComment_line hsound.1 hsound.2 hstops
    simp [Lexeme.text, Lexeme.isComment, stripComments_comment, hskip]
  | blockComment level text =>
    have hskip := @skipComment_block text rest level hsound
    simp [Lexeme.text, Lexeme.isComment, stripComments_comment, hskip]
  | word =>
    obtain ⟨s, hstate, haccepts⟩ := hsound
    exact stripComments_word hstate haccepts (hstops s hstate)
  | longString level text =>
    have hlong := @stripComments_long text rest level hsound
    simpa [Lexeme.text, Lexeme.isComment] using hlong
  | shortString quote text =>
    have hshort := @stripComments_short text rest quote hsound.1 hsound.2.1
    simpa [Lexeme.text, Lexeme.isComment] using hshort

lemma stripComments_flat {lexemes : List Lexeme} (h : Cut num false lexemes) :
    stripComments (flat lexemes) = pushAll (flat (kept lexemes)) := by
  induction lexemes with
  | nil => rw [flat_nil, stripComments]; rfl
  | cons l lexemes ih =>
    obtain ⟨hsound, hstops, hcut⟩ := h
    rw [flat_cons, stripComments_lexeme hsound hstops, ih hcut]
    cases hcom : l.isComment <;> simp [kept, hcom]

end

end Millennium.Starlight
