import Millennium.Starlight.MinifyLua

/-!
# The tokens of a minified source

A minified source has the same tokens as before, unless the first pass pushed two tokens together
where a comment had been, read a comment on over a carriage return, or a byte that is not ASCII was
written as two.
-/

namespace Millennium.Starlight

open Bytes Utf8 Lua List Option WordState Token

section
variable {num : NumeralSyntax} {st : LineState} {c : UInt8} {text rest after : Octets}

/-- The states at the beginning of a line, after a token, and after white space behind it. -/
inductive LineState.Regular : LineState → Prop
  | start : Regular ⟨true, false, false⟩
  | content : Regular ⟨false, true, false⟩
  | pending : Regular ⟨false, true, true⟩

def LineState.space (st : LineState) : Octets := if st.pendingSpace then [32] else []

lemma LineState.Regular.before_string (h : st.Regular) :
    st.spaceBefore = st.space ∧ st.afterString = ⟨false, true, false⟩ := by
  cases h <;> exact ⟨rfl, rfl⟩

lemma isSpace_of_mem_space : ∀ a ∈ st.space, isSpace a = true := by
  intro a ha
  rw [LineState.space] at ha
  split_ifs at ha
  · rw [mem_singleton.mp ha]
    rfl
  · cases ha

lemma collapseLines_nil (st : LineState) : collapseLines st [] = [] := by rw [collapseLines]

lemma collapseLines_of_none (h : readDelimiter 91 (c :: rest) = none) :
    collapseLines st (c :: rest) =
      if isQuote c then
        st.spaceBefore ++ pushByte c ++ (copyShort c false rest).1 ++
          collapseLines st.afterString (copyShort c false rest).2
      else if c = 10 then
        (if st.lineHasContent then [10] else []) ++ collapseLines ⟨true, false, false⟩ rest
      else if c = 32 ∨ c = 9 then
        collapseLines (if st.atLineStart then st else { st with pendingSpace := true }) rest
      else st.space ++ pushByte c ++ collapseLines ⟨false, true, false⟩ rest := by
  rw [collapseLines]
  split
  · next hsome => cases h.symm.trans hsome
  · rfl

lemma collapseLines_of_some {level : Nat} (h : readDelimiter 91 (c :: rest) = some (level, after)) :
    collapseLines st (c :: rest) = st.spaceBefore ++ delimiter 91 level ++
    (copyLong level after).1 ++ collapseLines st.afterString (copyLong level after).2 := by
  rw [collapseLines]
  split
  · next hsome =>
    obtain ⟨rfl, rfl⟩ := Prod.mk.inj (some.inj (h.symm.trans hsome))
    rfl
  · next hnone => cases h.symm.trans hnone

lemma collapseLines_plain (hbr : c = 91 → rest.head? ≠ some 91 ∧ rest.head? ≠ some 61)
    (hquote : isQuote c = false) (hspace : isSpace c = false) : collapseLines st (c :: rest) =
    st.space ++ pushByte c ++ collapseLines ⟨false, true, false⟩ rest := by
  have hline : c ≠ 10 := by
    rintro rfl
    cases hspace
  have hblank : ¬ (c = 32 ∨ c = 9) := by
    rintro (rfl | rfl) <;> cases hspace
  rw [collapseLines_of_none (readDelimiter_eq_none hbr), if_neg (by simp [hquote]),
    if_neg hline, if_neg hblank]

lemma collapseLines_short {quote : UInt8} (hst : st.Regular) (hquote : isQuote quote = true)
    (h : ShortText quote false text) : collapseLines st (quote :: (text ++ quote :: after)) =
    st.space ++ pushAll (quote :: text ++ [quote]) ++ collapseLines ⟨false, true, false⟩ after := by
  obtain ⟨hbefore, hafter⟩ := hst.before_string
  have hbr : quote ≠ 91 := by
    rintro rfl
    cases hquote
  rw [collapseLines_of_none (readDelimiter_eq_none fun heq => absurd heq hbr), if_pos hquote,
    copyShort_of_shortText h, hbefore, hafter]
  simp

lemma collapseLines_long {level : Nat} (hst : st.Regular) (h : LongText level text) :
    collapseLines st (delimiter 91 level ++ (text ++ (delimiter 93 level ++ after))) =
    st.space ++ pushAll (delimiter 91 level ++ text ++ delimiter 93 level) ++
    collapseLines ⟨false, true, false⟩ after := by
  obtain ⟨hbefore, hafter⟩ := hst.before_string
  have hfound : readDelimiter 91 (delimiter 91 level ++ (text ++ (delimiter 93 level ++ after))) =
      some (level, text ++ (delimiter 93 level ++ after)) :=
    (readDelimiter_iff (by decide)).mpr rfl
  rw [delimiter, cons_append, cons_append] at hfound
  rw [delimiter, cons_append, cons_append, collapseLines_of_some hfound,
    copyLong_of_longText h, hbefore, hafter, ← cons_append, ← delimiter, pushAll_append,
    pushAll_append, pushAll_delimiter rfl, pushAll_delimiter rfl]
  simp

lemma narrow_of_space (h : isSpace c = true) : isWide c = false := by
  cases hc : isWide c with
  | false => rfl
  | true => cases (not_space_of_wide hc).1.symm.trans h

lemma collapseLines_white (hst : st.Regular) (h : isSpace c = true) :
    ∃ space st', (∀ a ∈ space, isSpace a = true) ∧ st'.Regular ∧
    collapseLines st (c :: rest) = space ++ collapseLines st' rest := by
  have hbr : c ≠ 91 := by
    rintro rfl
    cases h
  have hquote : isQuote c = false := by
    cases hc : isQuote c with
    | false => rfl
    | true => cases (not_space_of_quote hc).symm.trans h
  have hnarrow := narrow_of_space h
  rw [collapseLines_of_none (readDelimiter_eq_none fun heq => absurd heq hbr),
    if_neg (by simp [hquote])]
  split_ifs with hline hcontent hblank hstart
  · exact ⟨[10], _, by simp [isSpace], .start, rfl⟩
  · exact ⟨[], _, by simp, .start, rfl⟩
  · exact ⟨[], _, by simp, hst, rfl⟩
  · refine ⟨[], _, by simp, ?_, rfl⟩
    cases hst with
    | start => exact (hstart rfl).elim
    | content | pending => exact .pending
  · refine ⟨st.space ++ pushByte c, _, ?_, .content, rfl⟩
    rw [pushByte_of_narrow hnarrow]
    intro a ha
    rcases mem_append.mp ha with hspace | hself
    · exact isSpace_of_mem_space a hspace
    · rwa [mem_singleton.mp hself]

lemma collapseLines_run {s f : WordState} (hrun : Scanner.run step s text = some f)
    (hf : f ≠ .opens) : collapseLines ⟨false, true, false⟩ (text ++ rest) =
    text ++ collapseLines ⟨false, true, false⟩ rest := by
  induction text generalizing s with
  | nil => rfl
  | cons c text ih =>
    obtain ⟨s₁, hstep, hnext⟩ := Scanner.run_cons_iff.mp hrun
    obtain ⟨hquote, hspace, hopens, -⟩ := step_spec hstep
    have hbr : c ≠ 91 := fun heq => step_ne_opens hnext hf (hopens heq).2
    have hnarrow := (forall_mem_cons.mp (narrow_of_run hrun)).1
    rw [cons_append, collapseLines_plain (fun heq => absurd heq hbr) hquote hspace,
      ih hnext, pushByte_of_narrow hnarrow]
    rfl

lemma collapseLines_word {s : WordState} (hstate : wordState text = some s)
    (hopens : s ≠ .opens) (hnarrow : ∀ c ∈ text, isWide c = false)
    (hbr : text = [91] → rest.head? ≠ some 91 ∧ rest.head? ≠ some 61) :
    collapseLines st (text ++ rest) = st.space ++ text ++ collapseLines ⟨false, true, false⟩ rest := by
  cases text with
  | nil => cases hstate
  | cons c text =>
    obtain ⟨hspace, hquote, hrun⟩ := wordState_cons_iff.mp hstate
    have hfirst : c = 91 → (text ++ rest).head? ≠ some 91 ∧ (text ++ rest).head? ≠ some 61 := by
      rintro rfl
      cases text with
      | nil => exact hbr rfl
      | cons =>
        -- a bracket is a word of one byte
        obtain ⟨s₁, hstep, hnext⟩ := Scanner.run_cons_iff.mp hrun
        have hne := step_ne_opens hnext hopens
        have hstart : start 91 = .bracket := rfl
        rw [hstart, step] at hstep
        split_ifs at hstep
        exact (hne (some.inj hstep).symm).elim
    rw [cons_append, collapseLines_plain hfirst hquote hspace, collapseLines_run hrun hopens,
      pushByte_of_narrow (hnarrow c mem_cons_self)]
    simp

lemma collapseLines_wide (h : isWide c = true) : collapseLines st (c :: rest) =
    st.space ++ pushByte c ++ collapseLines ⟨false, true, false⟩ rest := by
  obtain ⟨hspace, hquote⟩ := not_space_of_wide h
  exact collapseLines_plain (fun heq => absurd heq (ne_of_wide rfl h)) hquote hspace

lemma isSpace_head_of_pending (rest : Octets) :
    ∀ a ∈ (collapseLines ⟨false, true, true⟩ rest).head?, isSpace a = true := by
  induction rest with
  | nil =>
    rw [collapseLines_nil]
    simp
  | cons c rest ih =>
    intro a ha
    cases hfound : readDelimiter 91 (c :: rest) with
    | some =>
      rw [collapseLines_of_some hfound] at ha
      obtain rfl := some.inj ha
      rfl
    | none =>
      rw [collapseLines_of_none hfound] at ha
      split_ifs at ha with hquote hline hcontent hblank hstart
      · obtain rfl := some.inj ha
        rfl
      · obtain rfl := some.inj ha
        rfl
      · exact (hcontent rfl).elim
      · cases hstart
      · exact ih a ha
      · obtain rfl := some.inj ha
        rfl

lemma head_collapseLines (src : Octets) :
    ∀ a ∈ (collapseLines ⟨false, true, false⟩ (pushAll src)).head?,
    isSpace a = true ∨ isWide a = true ∨ src.head? = some a := by
  intro a ha
  cases src with
  | nil =>
    rw [pushAll_nil, collapseLines_nil] at ha
    cases ha
  | cons c src =>
    cases hc : isWide c with
    | true =>
      obtain ⟨x, y, hxy, hx, -⟩ := pushByte_of_wide hc
      obtain ⟨x', y', hxy', hx', -⟩ := pushByte_of_wide hx
      rw [pushAll_cons, hxy, cons_append, collapseLines_wide hx, hxy'] at ha
      obtain rfl := some.inj ha
      exact .inr (.inl hx')
    | false =>
      rw [pushAll_cons, pushByte_of_narrow hc, singleton_append] at ha
      cases hfound : readDelimiter 91 (c :: pushAll src) with
      | some =>
        obtain ⟨rfl, -⟩ := List.cons.inj ((readDelimiter_iff (by decide)).mp hfound)
        rw [collapseLines_of_some hfound] at ha
        exact .inr (.inr ha)
      | none =>
        rw [collapseLines_of_none hfound] at ha
        split_ifs at ha with hquote hline hcontent hblank hstart
        · rw [pushByte_of_narrow hc] at ha
          exact .inr (.inr ha)
        · obtain rfl := some.inj ha
          exact .inl rfl
        · exact (hcontent rfl).elim
        · cases hstart
        · exact .inl (isSpace_head_of_pending _ a ha)
        · rw [pushByte_of_narrow hc] at ha
          exact .inr (.inr ha)

lemma step_of_space {s : WordState} (h : isSpace c = true) : s.step c = none := by
  cases s <;> simp only [isSpace, step, isDigit, isWordChar] at h ⊢ <;> grind

lemma stops_collapseLines {s : WordState} {src : Octets} (h : Scanner.Stops step s src) :
    Scanner.Stops step s (collapseLines ⟨false, true, false⟩ (pushAll src)) := by
  intro a ha
  rcases head_collapseLines src a ha with hspace | hwide | hsame
  · exact step_of_space hspace
  · exact step_of_wide hwide s
  · exact h a hsame

lemma collapseLines_bracket {a : UInt8} (hst : st.Regular) (ha : a = 91 ∨ a = 61) :
    ∃ more, collapseLines st (91 :: a :: rest) = st.space ++ 91 :: a :: more := by
  obtain ⟨hbefore, -⟩ := hst.before_string
  cases hfound : readDelimiter 91 (91 :: a :: rest) with
  | some found =>
    obtain ⟨level, after⟩ := found
    have hwhole := (readDelimiter_iff (by decide)).mp hfound
    rw [collapseLines_of_some hfound, hbefore]
    cases level with
    | zero =>
      obtain rfl : a = 91 := congrArg (fun l : Octets => l.getD 1 0) hwhole
      exact ⟨_, by simp [delimiter]; rfl⟩
    | succ =>
      obtain rfl : a = 61 := congrArg (fun l : Octets => l.getD 1 0) hwhole
      exact ⟨_, by simp; rfl⟩
  | none =>
    rcases ha with rfl | rfl
    · have hopen : readDelimiter 91 (91 :: 91 :: rest) = some (0, rest) :=
        (readDelimiter_iff (by decide)).mpr rfl
      cases hopen.symm.trans hfound
    · have hsign : ∀ st' : LineState, collapseLines st' (61 :: rest) =
          st'.space ++ pushByte 61 ++ collapseLines ⟨false, true, false⟩ rest := fun st' =>
        collapseLines_plain (fun heq => absurd heq (by decide)) rfl rfl
      rw [collapseLines_of_none hfound, if_neg (by decide), if_neg (by decide), if_neg (by decide),
        hsign]
      exact ⟨_, by simp [LineState.space]; rfl⟩

end

def Narrow (lexemes : List Lexeme) : Prop := ∀ l ∈ lexemes, ∀ c ∈ l.text, isWide c = false

def AllApart : List Lexeme → Prop
  | [] => True
  | l :: rest => l.Stops false (flat rest) ∧ AllApart rest

def MinusApart : List Lexeme → Prop
  | [] => True
  | l :: rest => (l = .word [45] → l.Stops false (flat rest)) ∧ MinusApart rest

section
variable {num : NumeralSyntax} {st : LineState} {c : UInt8} {text rest : Octets}

lemma tokens_spaces {space : Octets} (h : ∀ a ∈ space, isSpace a = true) :
    tokens num true (space ++ rest) = tokens num true rest := by
  induction space with
  | nil => rfl
  | cons a space ih =>
    obtain ⟨ha, hmore⟩ := forall_mem_cons.mp h
    rw [cons_append, tokens_white ha, ih hmore]

lemma tokens_wide {bytes : Octets} (h : ∀ a ∈ bytes, isWide a = true) :
    tokens num true (bytes ++ rest) =
    (tokens num true rest).map (bytes.map (fun a => word [a]) ++ ·) := by
  induction bytes with
  | nil => simp
  | cons a bytes ih =>
    obtain ⟨ha, hmore⟩ := forall_mem_cons.mp h
    have hsound : Lexeme.Sound num true (.word [a]) := ⟨.single, wordState_of_wide ha, rfl⟩
    have hstops : Lexeme.Stops true (.word [a]) (bytes ++ rest) := by
      intro s hs
      obtain rfl := some.inj ((wordState_of_wide ha).symm.trans hs)
      exact fun _ _ => rfl
    have happend := tokens_append hsound hstops rfl
    refine happend.trans ?_
    rw [ih hmore, Option.map_map]
    rfl

lemma pushAll_pushAll_wide (h : isWide c = true) :
    ∃ x y more, pushAll (pushAll [c]) = x :: y :: more ∧
    ∀ a ∈ x :: y :: more, isWide a = true := by
  obtain ⟨x, y, hxy, hx, hy⟩ := pushByte_of_wide h
  obtain ⟨x₁, x₂, hx₁₂, hx₁, hx₂⟩ := pushByte_of_wide hx
  obtain ⟨y₁, y₂, hy₁₂, hy₁, hy₂⟩ := pushByte_of_wide hy
  refine ⟨x₁, x₂, [y₁, y₂], ?_, ?_⟩
  · simp [hxy, hx₁₂, hy₁₂]
  · simp [hx₁, hx₂, hy₁, hy₂]

lemma collapseLines_pushed_wide (h : isWide c = true) : collapseLines st (pushAll [c] ++ rest) =
    st.space ++ pushAll (pushAll [c]) ++ collapseLines ⟨false, true, false⟩ rest := by
  obtain ⟨x, y, hxy, hx, hy⟩ := pushByte_of_wide h
  have hpushed : pushAll [c] = [x, y] := by simp [hxy]
  rw [hpushed, cons_append, singleton_append, collapseLines_wide hx, collapseLines_wide hy]
  simp [LineState.space]

lemma tokens_collapse_white (hst : st.Regular) (hc : isSpace c = true) (ks : List Lexeme) :
    ∃ st' : LineState, st'.Regular ∧
    tokens num true (collapseLines st (pushAll (flat (.white c :: ks)))) =
    tokens num true (collapseLines st' (pushAll (flat ks))) := by
  obtain ⟨space, st', hspace, hst', hcollapse⟩ :=
    @collapseLines_white st c (pushAll (flat ks)) hst hc
  have hflat : pushAll (flat (.white c :: ks)) = c :: pushAll (flat ks) := by
    simp [Lexeme.text, pushByte_of_narrow (narrow_of_space hc)]
  exact ⟨st', hst', by rw [hflat, hcollapse, tokens_spaces hspace]⟩

/-- As long as bytes that are not ASCII are ahead of the tokens, they stay ahead. -/
lemma ahead_ne {ks : List Lexeme} (hsound : ∀ l ∈ ks, l.Sound num false ∧ l.isComment = false)
    (hst : st.Regular) {ahead : Octets} (hne : ahead ≠ []) (hwide : ∀ a ∈ ahead, isWide a = true)
    {ts : List Token} (hts : tokens num true (collapseLines st (pushAll (flat ks))) = some ts) :
    ahead.map (fun a => word [a]) ++ ts ≠ ks.filterMap Lexeme.token := by
  induction ks generalizing st ahead ts with
  | nil =>
    intro heq
    have hnil := (append_eq_nil_iff.mp heq).1
    exact hne (map_eq_nil_iff.mp hnil)
  | cons l ks ih =>
    obtain ⟨⟨hl, hcom⟩, hks⟩ := forall_mem_cons.mp hsound
    obtain ⟨a, ahead, rfl⟩ := exists_cons_of_ne_nil hne
    obtain ⟨ha, hahead⟩ := forall_mem_cons.mp hwide
    cases l with
    | lineComment | blockComment => cases hcom
    | white c =>
      obtain ⟨st', hst', htokens⟩ := tokens_collapse_white hst hl ks
      exact ih hks hst' hne hwide (htokens ▸ hts)
    | word =>
      intro heq
      obtain ⟨htoken, hlaterEq⟩ := List.cons.inj heq
      obtain rfl := word.inj htoken
      obtain ⟨x, y, more, hfour, hfourWide⟩ := pushAll_pushAll_wide ha
      have hflat : pushAll (flat (.word [a] :: ks)) = pushAll [a] ++ pushAll (flat ks) := by
        simp [Lexeme.text]
      rw [hflat, collapseLines_pushed_wide ha, append_assoc, tokens_spaces isSpace_of_mem_space,
        hfour, tokens_wide hfourWide] at hts
      obtain ⟨later, hlater, rfl⟩ := map_eq_some_iff.mp hts
      have hstill : (ahead ++ x :: y :: more).map (fun a => word [a]) ++ later ≠
          ks.filterMap Lexeme.token :=
        ih hks .content (by simp) (forall_mem_append.mpr ⟨hahead, hfourWide⟩) hlater
      rw [map_append, append_assoc] at hstill
      exact hstill hlaterEq
    | longString level text =>
      obtain ⟨content, hcontent⟩ := isSome_iff_exists.mp (isSome_longContent text)
      simp [Lexeme.token, hcontent]
    | shortString =>
      obtain ⟨content, hcontent⟩ := isSome_iff_exists.mp hl.2.2
      simp [Lexeme.token, hcontent]

lemma content_pushAll_iff {content : Octets → Option Octets} (hgrows : ∀ text,
    (content (pushAll text)).map List.length =
    (content text).map fun written => written.length + text.countP isWide)
    {written : Octets} (h : content text = some written) :
    ∃ pushed, content (pushAll (pushAll text)) = some pushed ∧
    (pushed = written ↔ ∀ c ∈ text, isWide c = false) := by
  have hlen := hgrows (pushAll text)
  have hfirst := hgrows text
  rw [h] at hfirst
  obtain ⟨once, honce, hsize⟩ := map_eq_some_iff.mp hfirst
  rw [honce] at hlen
  obtain ⟨pushed, hpushed, hsize'⟩ := map_eq_some_iff.mp hlen
  refine ⟨pushed, hpushed, fun heq => ?_, fun hnarrow => ?_⟩
  · dsimp only at hsize hsize'
    rw [heq] at hsize'
    have hzero : text.countP isWide = 0 := by omega
    simpa using countP_eq_zero.mp hzero
  · rw [pushAll_of_narrow hnarrow, pushAll_of_narrow hnarrow, h] at hpushed
    exact (some.inj hpushed).symm

lemma collapseLines_string {l : Lexeme} (hst : st.Regular) (hsound : l.Sound num false)
    (hstring : (∃ level text, l = .longString level text) ∨ ∃ quote text, l = .shortString quote text) :
    ∃ pushed t t', Lexeme.Sound num true pushed ∧ (∀ rest, pushed.Stops true rest) ∧
    l.token = some t ∧ pushed.token = some t' ∧
    (t' = t ↔ ∀ c ∈ l.text, isWide c = false) ∧
    ∀ rest, collapseLines st (pushAll l.text ++ rest) =
    st.space ++ pushed.text ++ collapseLines ⟨false, true, false⟩ rest := by
  rcases hstring with ⟨level, text, rfl⟩ | ⟨quote, text, rfl⟩
  · obtain ⟨written, hwritten⟩ := isSome_iff_exists.mp (isSome_longContent text)
    obtain ⟨content, hcontent, hiff⟩ := content_pushAll_iff
      (length_longContent_widen (fun _ => pushByte_of_narrow) fun _ => pushByte_of_wide) hwritten
    refine ⟨.longString level (pushAll (pushAll text)), .string written, .string content,
      longText_pushAll (longText_pushAll hsound), fun _ => trivial, by simp [Lexeme.token, hwritten],
      by simp [Lexeme.token, hcontent], ?_, fun rest => ?_⟩
    · rw [string.injEq, hiff]
      have hopen := @narrow_delimiter 91 rfl level
      have hclose := @narrow_delimiter 93 rfl level
      simp only [Lexeme.text, forall_mem_append]
      exact ⟨fun h => ⟨⟨hopen, h⟩, hclose⟩, fun h => h.1.2⟩
    · have hcollapse := @collapseLines_long st (pushAll text) rest level hst (longText_pushAll hsound)
      have hopen := @pushAll_delimiter 91 rfl level
      have hclose := @pushAll_delimiter 93 rfl level
      simpa [Lexeme.text, hopen, hclose] using hcollapse
  · obtain ⟨hquote, hshort, hsome⟩ := hsound
    have hnarrow : isWide quote = false := by
      cases hwide : isWide quote with
      | false => rfl
      | true => cases (not_space_of_wide hwide).2.symm.trans hquote
    obtain ⟨written, hwritten⟩ := isSome_iff_exists.mp hsome
    obtain ⟨content, hcontent, hiff⟩ := content_pushAll_iff
      (length_shortContent_widen (fun _ => pushByte_of_narrow) fun _ => pushByte_of_wide) hwritten
    have hpushed := shortText_pushAll hnarrow hshort
    refine ⟨.shortString quote (pushAll (pushAll text)), .string written, .string content,
      ⟨hquote, shortText_pushAll hnarrow hpushed, by rw [hcontent]; rfl⟩, fun _ => trivial,
      by simp [Lexeme.token, hwritten], by simp [Lexeme.token, hcontent], ?_, fun rest => ?_⟩
    · rw [string.injEq, hiff]
      simp only [Lexeme.text, cons_append, forall_mem_cons, forall_mem_append]
      exact ⟨fun h => ⟨hnarrow, h, hnarrow, forall_mem_nil _⟩, fun h => h.2.1⟩
    · have hcollapse := @collapseLines_short st (pushAll text) rest quote hst hquote hpushed
      simpa [Lexeme.text, pushByte_of_narrow hnarrow] using hcollapse

lemma map_cons_eq_some_iff {t t' : Token} {ts : Option (List Token)} {more : List Token} :
    ts.map (t' :: ·) = some (t :: more) ↔ t' = t ∧ ts = some more := by
  cases ts <;> simp

lemma narrow_cons_iff {l : Lexeme} {ks : List Lexeme} :
    Narrow (l :: ks) ↔ (∀ c ∈ l.text, isWide c = false) ∧ Narrow ks :=
  forall_mem_cons

lemma head?_of_pushAll {src : Octets} (hc : isWide c = false)
    (h : (pushAll src).head? = some c) : src.head? = some c := by
  cases src with
  | nil => cases h
  | cons a =>
    cases ha : isWide a with
    | false =>
      rw [pushAll_cons, pushByte_of_narrow ha] at h
      exact h
    | true =>
      obtain ⟨x, y, hxy, hx, -⟩ := pushByte_of_wide ha
      rw [pushAll_cons, hxy] at h
      obtain rfl := some.inj h
      cases hx.symm.trans hc

lemma exists_runs_on {src : Octets} {s s' : WordState} {a : UInt8} (hst : st.Regular)
    (hstate : wordState text = some s) (hopens : s ≠ .opens)
    (hnarrow : ∀ c ∈ text, isWide c = false) (hhead : src.head? = some a)
    (hstep : s.step a = some s') :
    ∃ more, collapseLines st (text ++ pushAll src) = st.space ++ text ++ a :: more := by
  obtain ⟨src, rfl⟩ := head?_eq_some_iff.mp hhead
  have ha : isWide a = false := by
    cases hwide : isWide a with
    | false => rfl
    | true => cases (step_of_wide hwide s).symm.trans hstep
  rw [pushAll_cons, pushByte_of_narrow ha, singleton_append]
  by_cases hbr : text = [91]
  · subst hbr
    obtain rfl := some.inj hstate
    have hopen : a = 91 ∨ a = 61 := by
      by_contra hne
      cases (if_neg hne).symm.trans hstep
    obtain ⟨more, hmore⟩ := @collapseLines_bracket st (pushAll src) a hst hopen
    exact ⟨more, by rw [singleton_append, hmore]; simp⟩
  · obtain ⟨hquote, hspace, hopen, -⟩ := step_spec hstep
    have hne : a ≠ 91 := by
      intro heq
      rw [(hopen heq).1] at hstate
      exact hbr (eq_bracket_of_wordState hstate)
    rw [collapseLines_word hstate hopens hnarrow fun heq => absurd heq hbr,
      collapseLines_plain (fun heq => absurd heq hne) hquote hspace, pushByte_of_narrow ha]
    exact ⟨_, by rfl⟩

lemma tokens_collapse_string {l : Lexeme} {ks : List Lexeme} (hst : st.Regular)
    (hsound : l.Sound num false)
    (hstring : (∃ level text, l = .longString level text) ∨ ∃ quote text, l = .shortString quote text)
    (hrest : tokens num true (collapseLines ⟨false, true, false⟩ (pushAll (flat ks))) =
    some (ks.filterMap Lexeme.token) ↔ Narrow ks ∧ AllApart ks) :
    tokens num true (collapseLines st (pushAll (flat (l :: ks)))) =
    some ((l :: ks).filterMap Lexeme.token) ↔ Narrow (l :: ks) ∧ AllApart (l :: ks) := by
  obtain ⟨pushed, t, t', hpushed, hstops, ht, ht', hiff, hcollapse⟩ :=
    collapseLines_string hst hsound hstring
  have hapart : l.Stops false (flat ks) := by
    rcases hstring with ⟨level, text, rfl⟩ | ⟨quote, text, rfl⟩
    · trivial
    · trivial
  rw [flat_cons, pushAll_append, hcollapse, append_assoc, tokens_spaces isSpace_of_mem_space,
    tokens_append hpushed (hstops _) ht', filterMap_cons_some ht, map_cons_eq_some_iff, hiff,
    hrest, narrow_cons_iff, AllApart, and_iff_right hapart, and_assoc]

lemma tokens_collapse_word {ks : List Lexeme} (hst : st.Regular)
    (hsound : Lexeme.Sound num false (.word text)) (hnarrow : ∀ c ∈ text, isWide c = false)
    (hminus : text = [45] → Lexeme.Stops false (.word text) (flat ks)) (ts : List Token) :
    tokens num true (collapseLines st (pushAll (flat (.word text :: ks)))) = some (.word text :: ts) ↔
    Lexeme.Stops false (.word text) (flat ks) ∧
    tokens num true (collapseLines ⟨false, true, false⟩ (pushAll (flat ks))) = some ts := by
  obtain ⟨s, hstate, haccepts⟩ := hsound
  have hopens : s ≠ .opens := by
    rintro rfl
    cases haccepts
  have hflat : pushAll (flat (.word text :: ks)) = text ++ pushAll (flat ks) := by
    simp [Lexeme.text, pushAll_of_narrow hnarrow]
  have hstops_iff : Lexeme.Stops false (.word text) (flat ks) ↔
      Scanner.Stops step s (flat ks) := by
    constructor
    · exact fun h => h s hstate
    · intro h s' hs'
      obtain rfl := some.inj (hstate.symm.trans hs')
      exact h
  rw [hflat]
  by_cases hstops : Scanner.Stops step s (flat ks)
  · rw [and_iff_right (hstops_iff.mpr hstops)]
    have hbr : text = [91] → (pushAll (flat ks)).head? ≠ some 91 ∧
        (pushAll (flat ks)).head? ≠ some 61 := by
      rintro rfl
      obtain rfl := some.inj hstate
      constructor
      · intro hhead
        cases hstops 91 (head?_of_pushAll rfl hhead)
      · intro hhead
        cases hstops 61 (head?_of_pushAll rfl hhead)
    have hafter : Lexeme.Stops true (.word text)
        (collapseLines ⟨false, true, false⟩ (pushAll (flat ks))) := by
      intro s' hs'
      obtain rfl := some.inj (hstate.symm.trans hs')
      exact stops_collapseLines hstops
    have hsound : Lexeme.Sound num true (.word text) := ⟨s, hstate, haccepts⟩
    have hword := tokens_append hsound hafter rfl
    rw [collapseLines_word hstate hopens hnarrow hbr, append_assoc,
      tokens_spaces isSpace_of_mem_space]
    rw [Lexeme.text] at hword
    rw [hword, map_cons_eq_some_iff, and_iff_right rfl]
  · -- the word runs on in the minified text as well
    refine iff_of_false (fun htokens => ?_) fun h => hstops (hstops_iff.mp h.1)
    obtain ⟨a, s', hhead, hstep⟩ : ∃ a s', (flat ks).head? = some a ∧ s.step a = some s' := by
      simp only [Scanner.Stops, not_forall] at hstops
      obtain ⟨a, hhead, hstep⟩ := hstops
      obtain ⟨s', hs'⟩ := ne_none_iff_exists'.mp hstep
      exact ⟨a, s', hhead, hs'⟩
    obtain ⟨more, hmore⟩ := exists_runs_on hst hstate hopens hnarrow hhead hstep
    rw [hmore, append_assoc, tokens_spaces isSpace_of_mem_space] at htokens
    refine tokens_glued hstate hstep ?_ ts htokens
    intro heq
    exact hstops (hstops_iff.mp (hminus heq))

lemma tokens_collapse_iff {ks : List Lexeme}
    (hsound : ∀ l ∈ ks, l.Sound num false ∧ l.isComment = false) (hminus : MinusApart ks)
    (hst : st.Regular) :
    tokens num true (collapseLines st (pushAll (flat ks))) = some (ks.filterMap Lexeme.token) ↔
    Narrow ks ∧ AllApart ks := by
  induction ks generalizing st with
  | nil =>
    rw [flat_nil, pushAll_nil, collapseLines_nil, tokens_nil]
    exact iff_of_true rfl ⟨forall_mem_nil _, trivial⟩
  | cons l ks ih =>
    obtain ⟨⟨hl, hcom⟩, hks⟩ := forall_mem_cons.mp hsound
    obtain ⟨hlminus, hksminus⟩ := hminus
    have hih : ∀ {st : LineState}, st.Regular → _ := fun hst => ih hks hksminus hst
    cases l with
    | lineComment | blockComment => cases hcom
    | white c =>
      obtain ⟨st', hst', htokens⟩ := tokens_collapse_white hst hl ks
      have hfirst : ∀ a ∈ (Lexeme.white c).text, isWide a = false :=
        forall_mem_singleton.mpr (narrow_of_space hl)
      have hstops : Lexeme.Stops false (.white c) (flat ks) := trivial
      rw [htokens, narrow_cons_iff, and_iff_right hfirst, AllApart,
        and_iff_right hstops, ← hih hst']
      rfl
    | word text =>
      have htoken : (Lexeme.word text).token = some (.word text) := rfl
      rw [narrow_cons_iff, filterMap_cons_some htoken]
      obtain ⟨s, hstate, -⟩ := id hl
      rcases narrow_or_single hstate with hnarrow | ⟨a, rfl, ha⟩
      · have hfirst : ∀ c ∈ (Lexeme.word text).text, isWide c = false := hnarrow
        rw [tokens_collapse_word hst hl hnarrow (fun heq => hlminus (by rw [heq])), hih .content,
          and_iff_right hfirst]
        exact and_left_comm
      · -- the bytes that it becomes are ahead of the tokens, for good
        refine iff_of_false (fun htokens => ?_) fun h => ?_
        · obtain ⟨x, y, more, hfour, hwide⟩ := pushAll_pushAll_wide ha
          have hflat : pushAll (flat (.word [a] :: ks)) = pushAll [a] ++ pushAll (flat ks) := by
            simp [Lexeme.text]
          rw [hflat, collapseLines_pushed_wide ha, append_assoc,
            tokens_spaces isSpace_of_mem_space, hfour, tokens_wide hwide] at htokens
          obtain ⟨later, hlater, heq⟩ := map_eq_some_iff.mp htokens
          have hahead : ∀ b ∈ y :: more, isWide b = true := (forall_mem_cons.mp hwide).2
          exact ahead_ne hks .content (cons_ne_nil y more) hahead hlater (List.cons.inj heq).2
        · have hfalse := h.1.1 a mem_cons_self
          cases ha.symm.trans hfalse
    | longString level text =>
      exact tokens_collapse_string hst hl (.inl ⟨level, text, rfl⟩) (hih .content)
    | shortString quote text =>
      exact tokens_collapse_string hst hl (.inr ⟨quote, text, rfl⟩) (hih .content)

lemma minusApart_kept {ls : List Lexeme} (h : Cut num false ls) : MinusApart (kept ls) := by
  induction ls with
  | nil => trivial
  | cons l ls ih =>
    obtain ⟨-, hstops, hcut⟩ := h
    cases hcom : l.isComment with
    | true =>
      rw [kept, filter_cons_of_neg (by simp [hcom])]
      exact ih hcut
    | false =>
      rw [kept, filter_cons_of_pos (by simp [hcom])]
      refine ⟨?_, ih hcut⟩
      rintro rfl
      cases ls with
      | nil => exact hstops
      | cons l' =>
        obtain ⟨hl', -, -⟩ := hcut
        obtain ⟨c, text, htext⟩ := exists_cons_of_ne_nil hl'.text_ne_nil
        have hstep : step .minus c = none := hstops .minus rfl c (by simp [htext])
        have hkept : l'.isComment = false := by
          cases l' with
          | lineComment | blockComment =>
            obtain ⟨rfl, -⟩ := List.cons.inj htext
            cases hstep
          | _ => rfl
        rw [filter_cons_of_pos (by simp [hkept]), flat_cons, htext]
        intro s hs
        obtain rfl := some.inj hs
        exact Scanner.stops_cons_iff.mpr hstep

lemma filterMap_kept (ls : List Lexeme) :
    (kept ls).filterMap Lexeme.token = ls.filterMap Lexeme.token := by
  induction ls with
  | nil => rfl
  | cons l ls ih =>
    cases l with
    | lineComment | blockComment => exact ih
    | _ => simp only [kept, Lexeme.isComment, Bool.not_false, filter_cons_of_pos,
        filterMap_cons] at ih ⊢; rw [ih]

lemma sound_of_cut {ls : List Lexeme} (h : Cut num false ls) : ∀ l ∈ ls, l.Sound num false := by
  induction ls with
  | nil => exact forall_mem_nil _
  | cons l ls ih => exact forall_mem_cons.mpr ⟨h.1, ih h.2.2⟩

end

section
variable (num : NumeralSyntax)

/-- The source has the same tokens if a carriage return does not end a comment. -/
def ReadAlike (src : Octets) : Prop := tokens num false src = tokens num true src

/-- Without its comments the source is ASCII, and no token runs on into the next one. -/
def KeepsApart (src : Octets) : Prop :=
  ∃ ls, lexemes num false src = some ls ∧ Narrow (kept ls) ∧ AllApart (kept ls)

variable {num} in
lemma tokens_minifyLua_iff {src : Octets} {ls : List Lexeme} (hutf8 : IsUtf8 src)
    (hls : lexemes num false src = some ls) :
    tokens num true (minifyLua src) = tokens num false src ↔
    Narrow (kept ls) ∧ AllApart (kept ls) := by
  obtain ⟨hflat, hcut⟩ := lexemes_spec hls
  have hsound : ∀ l ∈ kept ls, l.Sound num false ∧ l.isComment = false := by
    intro l hl
    obtain ⟨hmem, hkept⟩ := mem_filter.mp hl
    exact ⟨sound_of_cut hcut l hmem, by simpa using hkept⟩
  have htokens : tokens num false src = some ((kept ls).filterMap Lexeme.token) := by
    rw [tokens, hls, filterMap_kept]
    rfl
  have hstripped : stripComments src = pushAll (flat (kept ls)) := by
    rw [← hflat, stripComments_flat hcut]
  rw [htokens, minifyLua_of_isUtf8 hutf8, hstripped]
  exact tokens_collapse_iff hsound (minusApart_kept hcut) .start

/-- A valid source in which either carriage returns end no comment before a token, or no
comment keeps tokens apart and all else is ASCII, keeps its tokens if both are so. -/
theorem minifyLua_keeps_tokens_iff {src : Octets} (hutf8 : IsUtf8 src)
    (hvalid : (tokens num true src).isSome) (hone : ReadAlike num src ∨ KeepsApart num src) :
    tokens num true (minifyLua src) = tokens num true src ↔
      ReadAlike num src ∧ KeepsApart num src := by
  rcases hone with halike | hapart
  · rw [and_iff_right halike]
    rw [← halike] at hvalid ⊢
    rw [tokens, isSome_map] at hvalid
    obtain ⟨ls, hls⟩ := isSome_iff_exists.mp hvalid
    rw [tokens_minifyLua_iff hutf8 hls]
    constructor
    · exact fun h => ⟨ls, hls, h⟩
    · rintro ⟨ls', hls', h⟩
      obtain rfl := some.inj (hls.symm.trans hls')
      exact h
  · rw [and_iff_left hapart]
    obtain ⟨ls, hls, h⟩ := hapart
    rw [(tokens_minifyLua_iff hutf8 hls).mpr h, ReadAlike]

end

def commentedReturn : Octets :=
  [120, 61, 49, 32, 45, 45, 99, 10, 114, 101, 116, 117, 114, 110, 32, 120]

theorem minifyLua_keeps_tokens_commentedReturn :
    ReadAlike strtodNumerals commentedReturn ∧ KeepsApart strtodNumerals commentedReturn := by
  have hutf8 : IsUtf8 commentedReturn := isUtf8_of_ascii (by decide +kernel)
  have halike : ReadAlike strtodNumerals commentedReturn := by
    rw [ReadAlike]
    decide +kernel
  refine (minifyLua_keeps_tokens_iff strtodNumerals hutf8 (by decide +kernel) (.inl halike)).mp ?_
  decide +kernel

def accentedString : Octets := [34, 0xC3, 0xA9, 34]

/-- Its two bytes become eight. -/
theorem accented_string_changed : IsUtf8 accentedString ∧
    tokens strtodNumerals true accentedString = some [.string [0xC3, 0xA9]] ∧
    tokens strtodNumerals true (minifyLua accentedString) =
      some [.string [0xC3, 0x83, 0xC2, 0x83, 0xC3, 0x82, 0xC2, 0xA9]] := by
  have hutf8 : IsUtf8 accentedString := ⟨['"', 'é', '"'], by decide +kernel⟩
  refine ⟨hutf8, by decide +kernel, ?_⟩
  decide +kernel

end Millennium.Starlight
