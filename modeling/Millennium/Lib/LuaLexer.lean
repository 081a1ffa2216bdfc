import Millennium.Lib.LuaText

/-!
# The lexer of Lua 5.1

`llex` cuts a source into white space, comments and tokens, always as far as it can read. Whether a
carriage return ends a comment, as it does in Lua, is a parameter.
-/

namespace Millennium.Lua

open Bytes Scanner List Option WordState Prod

section
variable (num : NumeralSyntax)

inductive Lexeme where
  | white (c : UInt8)
  | lineComment (text : Octets)
  | blockComment (level : Nat) (text : Octets)
  | word (text : Octets)
  | longString (level : Nat) (text : Octets)
  | shortString (quote : UInt8) (text : Octets)
  deriving Repr, DecidableEq

def Lexeme.text : Lexeme → Octets
  | .white c => [c]
  | .lineComment text => [45, 45] ++ text
  | .blockComment level text => [45, 45] ++ (delimiter 91 level ++ text ++ delimiter 93 level)
  | .word text => text
  | .longString level text => delimiter 91 level ++ text ++ delimiter 93 level
  | .shortString quote text => quote :: text ++ [quote]

/-- Keywords, names, numerals and operators by their text, strings by their content. -/
inductive Token where
  | word (text : Octets)
  | string (content : Octets)
  deriving Repr, DecidableEq

def Token.size : Token → Nat
  | .word text => text.length
  | .string content => content.length

def Lexeme.token : Lexeme → Option Token
  | .white _ | .lineComment _ | .blockComment _ _ => none
  | .word text => some (.word text)
  | .longString _ text => (longContent text).map .string
  | .shortString _ text => (shortContent text).map .string

def endsLine (returns : Bool) (c : UInt8) : Bool := c == 10 || (returns && c == 13)

def readComment (returns : Bool) (rest : Octets) : Option (Lexeme × Octets) :=
  match readDelimiter 91 rest with
  | some (level, after) =>
    (readLong level after).map fun read => (.blockComment level read.1, read.2)
  | none =>
    some (.lineComment (rest.takeWhile (!endsLine returns ·)), rest.dropWhile (!endsLine returns ·))

def readWord (c : UInt8) (rest : Octets) : Option (Lexeme × Octets) :=
  let read := munch step (.start c) rest
  if read.2.1.accepts num (c :: read.1) then some (.word (c :: read.1), read.2.2) else none

def readLexeme (returns : Bool) (c : UInt8) (rest : Octets) : Option (Lexeme × Octets) :=
  if isSpace c then some (.white c, rest)
  else if isQuote c then
    (readShort c false rest).bind fun read =>
      if (shortContent read.1).isSome then some (.shortString c read.1, read.2) else none
  else if c = 45 ∧ rest.head? = some 45 then readComment returns rest.tail
  else if c = 91 ∧ (rest.head? = some 91 ∨ rest.head? = some 61) then
    (readDelimiter 91 (c :: rest)).bind fun found =>
      (readLong found.1 found.2).map fun read => (.longString found.1 read.1, read.2)
  else readWord num c rest

def Lexeme.Sound (returns : Bool) : Lexeme → Prop
  | .white c => isSpace c = true
  | .lineComment text => (∀ c ∈ text, endsLine returns c = false) ∧ readDelimiter 91 text = none
  | .blockComment level text | .longString level text => LongText level text
  | .word text => ∃ s, wordState text = some s ∧ s.accepts num text = true
  | .shortString quote text =>
    isQuote quote = true ∧ ShortText quote false text ∧ (shortContent text).isSome

def Lexeme.Stops (returns : Bool) (l : Lexeme) (rest : Octets) : Prop :=
  match l with
  | .lineComment _ => ∀ c ∈ rest.head?, endsLine returns c = true
  | .word text => ∀ s, wordState text = some s → Scanner.Stops step s rest
  | _ => True

def Lexeme.isComment : Lexeme → Bool
  | .lineComment _ | .blockComment _ _ => true
  | _ => false

variable {num} {returns : Bool} {c : UInt8} {rest after : Octets} {l : Lexeme}

lemma head?_dropWhile {p : UInt8 → Bool} {src : Octets} :
    ∀ c ∈ (src.dropWhile p).head?, p c = false := by
  intro c hc
  have hne : src.dropWhile p ≠ [] := by
    rintro hnil
    simp [hnil] at hc
  have hnot := head_dropWhile_not p hne
  rw [head?_eq_some_head hne] at hc
  rwa [some.inj hc] at hnot

lemma readComment_spec (h : readComment returns rest = some (l, after)) :
    l.Sound num returns ∧ l.Stops returns after ∧ [45, 45] ++ rest = l.text ++ after := by
  rw [readComment] at h
  cases hopen : readDelimiter 91 rest with
  | some =>
    rw [hopen] at h
    obtain ⟨read, hread, hpair⟩ := map_eq_some_iff.mp h
    obtain ⟨rfl, rfl⟩ := mk.inj hpair
    obtain ⟨hfound, htext⟩ := readLong_spec hread
    refine ⟨htext, trivial, ?_⟩
    rw [(readDelimiter_iff (by decide)).mp hopen, hfound]
    simp [Lexeme.text]
  | none =>
    rw [hopen] at h
    obtain ⟨rfl, rfl⟩ := mk.inj (some.inj h)
    refine ⟨⟨fun c hc => ?_, ?_⟩, fun c hc => ?_, ?_⟩
    · simpa using mem_takeWhile_imp hc
    · rw [eq_none_iff_forall_ne_some] at hopen ⊢
      rintro ⟨level, more⟩ hmore
      refine hopen (level, more ++ rest.dropWhile (!endsLine returns ·)) ?_
      rw [readDelimiter_iff (by decide)] at hmore ⊢
      rw [← append_assoc, ← hmore, takeWhile_append_dropWhile]
    · simpa using head?_dropWhile c hc
    · simp [Lexeme.text]

lemma readWord_spec (hspace : isSpace c = false) (hquote : isQuote c = false)
    (h : readWord num c rest = some (l, after)) :
    l.Sound num returns ∧ l.Stops returns after ∧ c :: rest = l.text ++ after := by
  obtain ⟨hrun, hstops, happend⟩ := munch_spec step (.start c) rest
  simp only [readWord] at h
  split_ifs at h with haccepts
  obtain ⟨rfl, rfl⟩ := mk.inj (some.inj h)
  have hstate : wordState (c :: (munch step (.start c) rest).1) =
      some (munch step (.start c) rest).2.1 := by
    rw [wordState, hspace, hquote]
    exact hrun
  refine ⟨⟨_, hstate, haccepts⟩, fun s hs => ?_, congrArg (c :: ·) happend.symm⟩
  obtain rfl := some.inj (hstate.symm.trans hs)
  exact hstops

lemma readLexeme_spec (h : readLexeme num returns c rest = some (l, after)) :
    l.Sound num returns ∧ l.Stops returns after ∧ c :: rest = l.text ++ after := by
  rw [readLexeme] at h
  split_ifs at h with hspace hquote hcom hlong
  · obtain ⟨rfl, rfl⟩ := mk.inj (some.inj h)
    exact ⟨hspace, trivial, rfl⟩
  · obtain ⟨read, hread, hcontent⟩ := bind_eq_some_iff.mp h
    split_ifs at hcontent with hsome
    obtain ⟨rfl, rfl⟩ := mk.inj (some.inj hcontent)
    obtain ⟨rfl, htext⟩ := readShort_spec hread
    exact ⟨⟨hquote, htext, hsome⟩, trivial, by simp [Lexeme.text]⟩
  · obtain ⟨rfl, hhead⟩ := hcom
    obtain ⟨tail, rfl⟩ := head?_eq_some_iff.mp hhead
    exact readComment_spec h
  · obtain ⟨found, hfound, hmap⟩ := bind_eq_some_iff.mp h
    obtain ⟨read, hread, hpair⟩ := map_eq_some_iff.mp hmap
    obtain ⟨rfl, rfl⟩ := mk.inj hpair
    obtain ⟨hrest, htext⟩ := readLong_spec hread
    refine ⟨htext, trivial, ?_⟩
    rw [(readDelimiter_iff (by decide)).mp hfound, hrest]
    simp [Lexeme.text]
  · exact readWord_spec (by simpa using hspace) (by simpa using hquote) h

lemma head?_ne_of_opens {text : Octets} {s : WordState} {a : UInt8}
    (hopens : (start c).step a = some .opens)
    (hrun : run step (.start c) text = some s) (haccepts : s.accepts num (c :: text) = true)
    (hstops : Scanner.Stops step s rest) : (text ++ rest).head? ≠ some a := by
  intro hhead
  cases text with
  | nil =>
    obtain rfl := some.inj hrun
    have hnone := hstops a hhead
    rw [hopens] at hnone
    cases hnone
  | cons b text =>
    obtain rfl := some.inj hhead
    obtain ⟨s₁, hstep, hrest⟩ := run_cons_iff.mp hrun
    obtain rfl := some.inj (hopens.symm.trans hstep)
    cases text with
    | nil =>
      obtain rfl := some.inj hrest
      cases haccepts
    | cons =>
      obtain ⟨s₂, hnext, -⟩ := run_cons_iff.mp hrest
      cases hnext

lemma readLexeme_word {text : Octets} {s : WordState} (hstate : wordState (c :: text) = some s)
    (haccepts : s.accepts num (c :: text) = true) (hstops : Scanner.Stops step s rest) :
    readLexeme num returns c (text ++ rest) = some (.word (c :: text), rest) := by
  obtain ⟨hspace, hquote, hrun⟩ := wordState_cons_iff.mp hstate
  have hcom : ¬ (c = 45 ∧ (text ++ rest).head? = some 45) := by
    rintro ⟨rfl, hhead⟩
    exact head?_ne_of_opens rfl hrun haccepts hstops hhead
  have hlong : ¬ (c = 91 ∧ ((text ++ rest).head? = some 91 ∨ (text ++ rest).head? = some 61)) := by
    rintro ⟨rfl, hhead | hhead⟩
    · exact head?_ne_of_opens rfl hrun haccepts hstops hhead
    · exact head?_ne_of_opens rfl hrun haccepts hstops hhead
  rw [readLexeme, if_neg (by simp [hspace]), if_neg (by simp [hquote]), if_neg hcom,
    if_neg hlong]
  simp [readWord, munch_of_stops hrun hstops, haccepts]

lemma not_space_of_quote (h : isQuote c = true) : isSpace c = false := by
  simp only [isQuote, isSpace] at h ⊢
  grind

lemma readLexeme_of_sound {text : Octets} (hsound : l.Sound num returns)
    (hstops : l.Stops returns rest) (hcom : l.isComment = false) (htext : l.text = c :: text) :
    readLexeme num returns c (text ++ rest) = some (l, rest) := by
  cases l with
  | lineComment | blockComment => cases hcom
  | white =>
    obtain ⟨rfl, rfl⟩ := List.cons.inj htext
    exact if_pos hsound
  | word word =>
    obtain ⟨s, hstate, haccepts⟩ := hsound
    have hword : word = c :: text := htext
    subst hword
    exact readLexeme_word hstate haccepts (hstops s hstate)
  | shortString quote content =>
    obtain ⟨hquote, hshort, hcontent⟩ := hsound
    obtain ⟨rfl, rfl⟩ := List.cons.inj htext
    have happend : List.append content [quote] ++ rest = content ++ quote :: rest :=
      append_assoc content [quote] rest
    rw [readLexeme, if_neg (by simp [not_space_of_quote hquote]), if_pos hquote, happend,
      hshort rest]
    simp [hcontent]
  | longString level content =>
    have hwhole : c :: (text ++ rest) =
        delimiter 91 level ++ (content ++ (delimiter 93 level ++ rest)) := by
      rw [← cons_append, ← htext]
      simp [Lexeme.text]
    have hfront : c = 91 ∧ ((text ++ rest).head? = some 91 ∨ (text ++ rest).head? = some 61) := by
      obtain ⟨rfl, htail⟩ := List.cons.inj hwhole
      refine ⟨rfl, ?_⟩
      rw [htail]
      cases level with
      | zero => exact Or.inl rfl
      | succ => exact Or.inr rfl
    rw [readLexeme, hwhole, (readDelimiter_iff (by decide)).mpr rfl, if_pos hfront, hfront.1]
    simp only [bind_some, hsound rest]
    rfl

lemma Lexeme.Sound.text_ne_nil (h : l.Sound num returns) : l.text ≠ [] := by
  cases l with
  | word =>
    rintro rfl
    obtain ⟨s, hstate, -⟩ := h
    cases hstate
  | _ => exact cons_ne_nil _ _

lemma readLexeme_shorter (h : readLexeme num returns c rest = some (l, after)) :
    after.length < (c :: rest).length := by
  obtain ⟨hsound, -, happend⟩ := readLexeme_spec h
  have hpos := length_pos_iff.mpr hsound.text_ne_nil
  rw [happend, length_append]
  omega

variable (num) in
def lexemes (returns : Bool) : Octets → Option (List Lexeme)
  | [] => some []
  | c :: rest =>
    match _h : readLexeme num returns c rest with
    | none => none
    | some (l, after) => (lexemes returns after).map (l :: ·)
termination_by src => src.length
decreasing_by exact readLexeme_shorter _h

variable (num) in
def tokens (returns : Bool) (src : Octets) : Option (List Token) :=
  (lexemes num returns src).map (List.filterMap Lexeme.token)

def flat (lexemes : List Lexeme) : Octets := lexemes.flatMap Lexeme.text

variable (num) in
def Cut (returns : Bool) : List Lexeme → Prop
  | [] => True
  | l :: rest => l.Sound num returns ∧ l.Stops returns (flat rest) ∧ Cut returns rest

@[simp] lemma flat_nil : flat [] = [] := rfl

@[simp] lemma flat_cons (l : Lexeme) (ls : List Lexeme) : flat (l :: ls) = l.text ++ flat ls := rfl

lemma lexemes_nil : lexemes num returns [] = some [] := by rw [lexemes]

lemma lexemes_cons_of_some (h : readLexeme num returns c rest = some (l, after)) :
    lexemes num returns (c :: rest) = (lexemes num returns after).map (l :: ·) := by
  rw [lexemes]
  split
  · next hnone => cases hnone.symm.trans h
  · next hsome =>
    obtain ⟨rfl, rfl⟩ := mk.inj (some.inj (hsome.symm.trans h))
    rfl

lemma lexemes_cons_of_none (h : readLexeme num returns c rest = none) :
    lexemes num returns (c :: rest) = none := by
  rw [lexemes]
  split
  · rfl
  · next hsome => cases hsome.symm.trans h

lemma lexemes_spec {src : Octets} {ls : List Lexeme} (h : lexemes num returns src = some ls) :
    flat ls = src ∧ Cut num returns ls := by
  induction ls generalizing src with
  | nil =>
    cases src with
    | nil => exact ⟨rfl, trivial⟩
    | cons c rest =>
      cases hread : readLexeme num returns c rest with
      | none => cases (lexemes_cons_of_none hread).symm.trans h
      | some =>
        obtain ⟨more, -, hmore⟩ := map_eq_some_iff.mp ((lexemes_cons_of_some hread).symm.trans h)
        cases hmore
  | cons l ls ih =>
    cases src with
    | nil => cases lexemes_nil.symm.trans h
    | cons c rest =>
      cases hread : readLexeme num returns c rest with
      | none => cases (lexemes_cons_of_none hread).symm.trans h
      | some =>
        obtain ⟨more, hmore, hcons⟩ :=
          map_eq_some_iff.mp ((lexemes_cons_of_some hread).symm.trans h)
        obtain ⟨rfl, rfl⟩ := List.cons.inj hcons
        obtain ⟨hsound, hstops, happend⟩ := readLexeme_spec hread
        obtain ⟨hflat, hcut⟩ := ih hmore
        exact ⟨by rw [flat_cons, hflat, happend], hsound, by rwa [hflat], hcut⟩

lemma lexemes_append (hsound : l.Sound num returns) (hstops : l.Stops returns rest)
    (hcom : l.isComment = false) :
    lexemes num returns (l.text ++ rest) = (lexemes num returns rest).map (l :: ·) := by
  obtain ⟨c, text, htext⟩ := exists_cons_of_ne_nil hsound.text_ne_nil
  rw [htext, cons_append, lexemes_cons_of_some (readLexeme_of_sound hsound hstops hcom htext)]

lemma tokens_nil : tokens num returns [] = some [] := by rw [tokens, lexemes_nil]; rfl

lemma tokens_white (h : isSpace c = true) :
    tokens num returns (c :: rest) = tokens num returns rest := by
  have happend := @lexemes_append num returns rest (.white c) h trivial rfl
  rw [tokens, ← singleton_append, show [c] = (Lexeme.white c).text from rfl, happend,
    Option.map_map]
  rfl

lemma tokens_append {t : Token} (hsound : l.Sound num returns) (hstops : l.Stops returns rest)
    (htoken : l.token = some t) :
    tokens num returns (l.text ++ rest) = (tokens num returns rest).map (t :: ·) := by
  have hcom : l.isComment = false := by
    cases l <;> first | rfl | cases htoken
  rw [tokens, tokens, lexemes_append hsound hstops hcom, Option.map_map, Option.map_map]
  refine congrArg (Option.map · _) (funext fun ls => ?_)
  simp [htoken]

lemma tokens_glued {text : Octets} {s s' : WordState} {a : UInt8}
    (hstate : wordState text = some s) (hstep : s.step a = some s') (hminus : text ≠ [45])
    (ts : List Token) : tokens num returns (text ++ a :: rest) ≠ some (.word text :: ts) := by
  cases text with
  | nil => cases hstate
  | cons c text =>
    obtain ⟨hspace, hquote, hrun⟩ := wordState_cons_iff.mp hstate
    intro htokens
    obtain ⟨ls, hls, hfilter⟩ := map_eq_some_iff.mp htokens
    cases hread : readLexeme num returns c (text ++ a :: rest) with
    | none => cases (lexemes_cons_of_none hread).symm.trans hls
    | some read =>
      obtain ⟨more, -, rfl⟩ :=
        map_eq_some_iff.mp ((lexemes_cons_of_some hread).symm.trans hls)
      -- what is read is a string or a longer word
      rw [readLexeme, if_neg (by simp [hspace]), if_neg (by simp [hquote])] at hread
      split_ifs at hread with hcom hlong
      · obtain ⟨rfl, hhead⟩ := hcom
        cases text with
        | nil => exact hminus rfl
        | cons b text =>
          obtain rfl := some.inj hhead
          obtain ⟨s₁, hfirst, hrest⟩ := run_cons_iff.mp hrun
          obtain rfl : opens = s₁ := some.inj hfirst
          cases text with
          | nil =>
            obtain rfl := some.inj hrest
            cases hstep
          | cons =>
            obtain ⟨s₂, hnext, -⟩ := run_cons_iff.mp hrest
            cases hnext
      · obtain ⟨found, -, hmap⟩ := bind_eq_some_iff.mp hread
        obtain ⟨long, -, rfl⟩ := map_eq_some_iff.mp hmap
        obtain ⟨content, hcontent⟩ := isSome_iff_exists.mp (isSome_longContent long.1)
        simp [Lexeme.token, hcontent] at hfilter
      · simp only [readWord] at hread
        split_ifs at hread with haccepts
        obtain rfl := some.inj hread
        have hlonger := congrArg (Option.map Token.size) (congrArg List.head? hfilter)
        rw [munch_of_run hrun, munch_cons_of_some hstep] at hlonger
        simp [Lexeme.token, Token.size] at hlonger

end

end Millennium.Lua
