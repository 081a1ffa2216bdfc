import Mathlib.Data.List.TakeDrop
import Mathlib.Data.List.TakeWhile
import Millennium.Lib.Bytes
import Millennium.Lib.Scanner

/-!
# The texts of Lua 5.1

Long brackets, quoted strings with their escapes, names, numerals and operators, read as `llex.c`
reads them. Which texts are numerals is left open, since `strtod` decides that.
-/

namespace Millennium.Lua

open Bytes Scanner List Option Prod

def isNewline (c : UInt8) : Bool := c == 10 || c == 13

def isSpace (c : UInt8) : Bool := c == 32 || (9 ≤ c && c ≤ 13)

def isDigit (c : UInt8) : Bool := 48 ≤ c && c ≤ 57

def isWordChar (c : UInt8) : Bool :=
  isDigit c || (65 ≤ c && c ≤ 90) || (97 ≤ c && c ≤ 122) || c == 95

def isQuote (c : UInt8) : Bool := c == 34 || c == 39

def delimiter (bracket : UInt8) (level : Nat) : Octets :=
  bracket :: List.replicate level 61 ++ [bracket]

def readDelimiter (bracket : UInt8) : Octets → Option (Nat × Octets)
  | [] => none
  | c :: rest =>
    if c = bracket ∧ (rest.dropWhile (· == 61)).head? = some bracket then
      some ((rest.takeWhile (· == 61)).length, (rest.dropWhile (· == 61)).tail)
    else none

variable {level : Nat} {rest src after text : Octets} {c quote : UInt8} {s : WordState}

lemma takeWhile_replicate_append (h : rest.head? ≠ some 61) :
    (List.replicate level 61 ++ rest).takeWhile (· == 61) = List.replicate level 61 ∧
    (List.replicate level 61 ++ rest).dropWhile (· == 61) = rest := by
  induction level with
  | zero =>
    cases rest with
    | nil => exact ⟨rfl, rfl⟩
    | cons c =>
      have hc : (c == 61) = false := by simpa using h
      simp [hc]
  | succ level ih => simpa [replicate_succ] using ih

lemma readDelimiter_iff {br : UInt8} (hb : br ≠ 61) :
    readDelimiter br src = some (level, rest) ↔ src = delimiter br level ++ rest := by
  constructor
  · intro h
    cases src with
    | nil => cases h
    | cons c src =>
      rw [readDelimiter] at h
      split_ifs at h with hfront
      obtain ⟨rfl, hhead⟩ := hfront
      obtain ⟨rfl, rfl⟩ := mk.inj (some.inj h)
      have hsigns : src.takeWhile (· == 61) =
          List.replicate (src.takeWhile (· == 61)).length 61 := by
        refine eq_replicate_of_mem fun d hd => ?_
        simpa using mem_takeWhile_imp hd
      obtain ⟨after, hafter⟩ := head?_eq_some_iff.mp hhead
      conv_lhs => rw [← takeWhile_append_dropWhile (p := (· == 61)) (l := src), hsigns]
      simp [delimiter, hafter]
  · rintro rfl
    obtain ⟨htake, hdrop⟩ := @takeWhile_replicate_append level (br :: rest) (by simpa using hb)
    have happend : delimiter br level ++ rest =
        br :: (List.replicate level 61 ++ br :: rest) := by simp [delimiter]
    rw [happend, readDelimiter, hdrop, htake]
    simp

def closes (level : Nat) (src : Octets) : Option Octets :=
  (readDelimiter 93 src).bind fun found => if found.1 = level then some found.2 else none

lemma closes_iff : closes level src = some rest ↔ src = delimiter 93 level ++ rest := by
  rw [closes, bind_eq_some_iff]
  constructor
  · rintro ⟨⟨found, after⟩, hfound, hlevel⟩
    split_ifs at hlevel with heq
    obtain rfl := some.inj hlevel
    rw [← heq]
    exact (readDelimiter_iff (by decide)).mp hfound
  · intro hsrc
    exact ⟨(level, rest), (readDelimiter_iff (by decide)).mpr hsrc, if_pos rfl⟩

/-- `read_long_string` after the opening bracket: the text up to the closing one, and the rest. -/
def readLong (level : Nat) : Octets → Option (Octets × Octets)
  | [] => none
  | c :: rest =>
    match closes level (c :: rest) with
    | some after => some ([], after)
    | none => (readLong level rest).map fun read => (c :: read.1, read.2)

/-- A text that contains no closing bracket of the level, whatever is after its own. -/
def LongText (level : Nat) (text : Octets) : Prop :=
  ∀ after, readLong level (text ++ (delimiter 93 level ++ after)) = some (text, after)

lemma readLong_cons_of_closes (h : closes level (c :: rest) = some after) :
    readLong level (c :: rest) = some ([], after) := by
  rw [readLong, h]

lemma readLong_cons_of_not_closes (h : closes level (c :: rest) = none) :
    readLong level (c :: rest) = (readLong level rest).map fun read => (c :: read.1, read.2) := by
  rw [readLong, h]

lemma readLong_delimiter (level : Nat) (after : Octets) :
    readLong level (delimiter 93 level ++ after) = some ([], after) :=
  readLong_cons_of_closes (closes_iff.mpr rfl)

lemma closes_append_delimiter
    (h : closes level (c :: (text ++ (delimiter 93 level ++ after))) = none) (after' : Octets) :
    closes level (c :: (text ++ (delimiter 93 level ++ after'))) = none := by
  rw [eq_none_iff_forall_ne_some] at h ⊢
  intro found hfound
  rw [closes_iff] at hfound
  have hlen : (delimiter 93 level).length ≤ (c :: (text ++ delimiter 93 level)).length := by
    simp only [length_cons, length_append]
    omega
  have hwhole : c :: (text ++ delimiter 93 level) <+: delimiter 93 level ++ found :=
    ⟨after', by rw [← hfound]; simp⟩
  obtain ⟨more, hmore⟩ := prefix_of_prefix_length_le ⟨found, rfl⟩ hwhole hlen
  refine h (more ++ after) (closes_iff.mpr ?_)
  rw [← append_assoc (delimiter 93 level) more, hmore]
  simp

lemma longText_cons_iff : LongText level (c :: text) ↔
    (∀ after, closes level (c :: (text ++ (delimiter 93 level ++ after))) = none) ∧
    LongText level text := by
  constructor
  · intro h
    have hnone : ∀ after, closes level (c :: (text ++ (delimiter 93 level ++ after))) = none := by
      intro after
      have hread := h after
      cases hcloses : closes level (c :: (text ++ (delimiter 93 level ++ after))) with
      | none => rfl
      | some =>
        rw [cons_append, readLong_cons_of_closes hcloses] at hread
        cases hread
    refine ⟨hnone, fun after => ?_⟩
    have hread := h after
    rw [cons_append, readLong_cons_of_not_closes (hnone after)] at hread
    obtain ⟨read, hrest, hpair⟩ := map_eq_some_iff.mp hread
    obtain ⟨htext, hafter⟩ := mk.inj hpair
    rw [hrest, ← (List.cons.inj htext).2, ← hafter]
  · rintro ⟨hnone, htext⟩ after
    rw [cons_append, readLong_cons_of_not_closes (hnone after), htext after]
    rfl

lemma readLong_spec (h : readLong level src = some (text, after)) :
    src = text ++ (delimiter 93 level ++ after) ∧ LongText level text := by
  induction src generalizing text with
  | nil => cases h
  | cons c rest ih =>
    cases hcloses : closes level (c :: rest) with
    | some =>
      rw [readLong_cons_of_closes hcloses] at h
      obtain ⟨rfl, rfl⟩ := mk.inj (some.inj h)
      exact ⟨closes_iff.mp hcloses, readLong_delimiter level⟩
    | none =>
      rw [readLong_cons_of_not_closes hcloses] at h
      obtain ⟨read, hread, hpair⟩ := map_eq_some_iff.mp h
      obtain ⟨rfl, rfl⟩ := mk.inj hpair
      obtain ⟨hrest, htext⟩ := ih hread
      subst hrest
      exact ⟨rfl, longText_cons_iff.mpr ⟨closes_append_delimiter hcloses, htext⟩⟩

/-- `read_string` after the opening quote. An escaped character never closes it. -/
def readShort (quote : UInt8) : Bool → Octets → Option (Octets × Octets)
  | _, [] => none
  | true, c :: rest => (readShort quote false rest).map fun read => (c :: read.1, read.2)
  | false, c :: rest =>
    if c = quote then some ([], rest)
    else (readShort quote (c == 92) rest).map fun read => (c :: read.1, read.2)

/-- A text in which only escaped quotes are like the quote. -/
def ShortText (quote : UInt8) (escaped : Bool) (text : Octets) : Prop :=
  ∀ after, readShort quote escaped (text ++ quote :: after) = some (text, after)

lemma shortText_escaped_iff : ShortText quote true (c :: text) ↔ ShortText quote false text := by
  simp only [ShortText, cons_append, readShort, map_eq_some_iff, Prod.ext_iff,
    List.cons.injEq, true_and]
  refine forall_congr' fun after => ⟨?_, fun h => ⟨(text, after), h, rfl, rfl⟩⟩
  rintro ⟨⟨read, left⟩, hread, rfl, rfl⟩
  exact hread

lemma shortText_cons_iff :
    ShortText quote false (c :: text) ↔ c ≠ quote ∧ ShortText quote (c == 92) text := by
  by_cases hquote : c = quote
  · refine ⟨fun h => ?_, fun h => absurd hquote h.1⟩
    have hread := h []
    rw [cons_append, readShort, if_pos hquote] at hread
    cases hread
  · rw [and_iff_right hquote]
    simp only [ShortText, cons_append, readShort, if_neg hquote, map_eq_some_iff,
      Prod.ext_iff, List.cons.injEq, true_and]
    refine forall_congr' fun after => ⟨?_, fun h => ⟨(text, after), h, rfl, rfl⟩⟩
    rintro ⟨⟨read, left⟩, hread, rfl, rfl⟩
    exact hread

lemma readShort_spec {esc : Bool} (h : readShort quote esc src = some (text, after)) :
    src = text ++ quote :: after ∧ ShortText quote esc text := by
  induction src generalizing esc text with
  | nil => cases esc <;> cases h
  | cons c rest ih =>
    cases esc with
    | true =>
      obtain ⟨read, hread, hpair⟩ := map_eq_some_iff.mp h
      obtain ⟨rfl, rfl⟩ := mk.inj hpair
      obtain ⟨rfl, htext⟩ := ih hread
      exact ⟨rfl, shortText_escaped_iff.mpr htext⟩
    | false =>
      rw [readShort] at h
      split_ifs at h with hquote
      · obtain ⟨rfl, rfl⟩ := mk.inj (some.inj h)
        exact ⟨by rw [hquote]; rfl, fun after' => by simp [readShort]⟩
      · obtain ⟨read, hread, hpair⟩ := map_eq_some_iff.mp h
        obtain ⟨rfl, rfl⟩ := mk.inj hpair
        obtain ⟨rfl, htext⟩ := ih hread
        exact ⟨rfl, shortText_cons_iff.mpr ⟨hquote, htext⟩⟩

inductive EscapeState where
  | plain
  | escaped
  /-- After a backslash and this line break, which may have two characters. -/
  | newline (first : UInt8)
  | digits (count : Nat) (value : Nat)
  deriving Repr, DecidableEq

def EscapeState.flush : EscapeState → Option Octets
  | .plain | .escaped | .newline _ => some []
  | .digits _ value => if value ≤ 255 then some [UInt8.ofNat value] else none

def letterEscape (c : UInt8) : UInt8 :=
  if c = 97 then 7 else if c = 98 then 8 else if c = 102 then 12 else if c = 110 then 10
  else if c = 114 then 13 else if c = 116 then 9 else if c = 118 then 11 else c

/-- A character outside of escapes. A string cannot contain a line break. -/
def plainStep (c : UInt8) : Option (EscapeState × Octets) :=
  if c = 92 then some (.escaped, []) else if isNewline c then none else some (.plain, [c])

def escapeStep (s : EscapeState) (c : UInt8) : Option (EscapeState × Octets) :=
  match s with
  | .plain => plainStep c
  | .escaped =>
    if isNewline c then some (.newline c, [10])
    else if isDigit c then some (.digits 1 (c.toNat - 48), [])
    else some (.plain, [letterEscape c])
  | .newline first => if isNewline c && c != first then some (.plain, []) else plainStep c
  | .digits count value =>
    if count < 3 && isDigit c then some (.digits (count + 1) (10 * value + (c.toNat - 48)), [])
    else s.flush.bind fun written => (plainStep c).map fun next => (next.1, written ++ next.2)

def shortContent (text : Octets) : Option Octets :=
  transduce escapeStep (fun s => if s = .escaped then none else s.flush) .plain text

inductive LongState where
  /-- A line break at the beginning is not part of the string. -/
  | first
  | text
  | newline (first : UInt8)
  deriving Repr, DecidableEq

def longStep (s : LongState) (c : UInt8) : LongState × Octets :=
  match s with
  | .first => if isNewline c then (.newline c, []) else (.text, [c])
  | .text => if isNewline c then (.newline c, [10]) else (.text, [c])
  | .newline first =>
    if isNewline c then if c = first then (.newline c, [10]) else (.text, []) else (.text, [c])

def longContent (text : Octets) : Option Octets :=
  transduce (fun s c => some (longStep s c)) (fun _ => some []) LongState.first text

lemma isSome_longContent (text : Octets) : (longContent text).isSome :=
  isSome_transduce _ _ (fun _ _ => rfl) (fun _ => rfl) _ text

inductive WordState where
  | name
  | digits
  | exponent
  | tail
  | dot
  | dots
  | relation
  | minus
  | bracket
  /-- A comment or a long bracket begins, no word. -/
  | opens
  | single
  deriving Repr, DecidableEq

def WordState.start (c : UInt8) : WordState :=
  if c = 46 then .dot
  else if isDigit c then .digits
  else if isWordChar c then .name
  else if c = 61 ∨ c = 60 ∨ c = 62 ∨ c = 126 then .relation
  else if c = 45 then .minus
  else if c = 91 then .bracket
  else .single

def WordState.step (s : WordState) (c : UInt8) : Option WordState :=
  match s with
  | .name => if isWordChar c then some .name else none
  | .digits =>
    if isDigit c || c == 46 then some .digits
    else if c = 69 ∨ c = 101 then some .exponent
    else if isWordChar c then some .tail else none
  | .exponent => if c = 43 ∨ c = 45 ∨ isWordChar c = true then some .tail else none
  | .tail => if isWordChar c then some .tail else none
  | .dot => if c = 46 then some .dots else if isDigit c then some .digits else none
  | .dots => if c = 46 then some .single else none
  | .relation => if c = 61 then some .single else none
  | .minus => if c = 45 then some .opens else none
  | .bracket => if c = 91 ∨ c = 61 then some .opens else none
  | .opens | .single => none

structure NumeralSyntax where
  accepts : Octets → Bool
  not_minus_last : ∀ text, accepts (text ++ [45]) = false

def WordState.accepts (num : NumeralSyntax) (s : WordState) (text : Octets) : Bool :=
  match s with
  | .digits | .exponent | .tail => num.accepts text
  | .opens => false
  | _ => true

def wordState : Octets → Option WordState
  | [] => none
  | c :: rest => if isSpace c || isQuote c then none else run WordState.step (.start c) rest

lemma wordState_cons_iff : wordState (c :: text) = some s ↔
    isSpace c = false ∧ isQuote c = false ∧ run WordState.step (.start c) text = some s := by
  rw [wordState]
  cases isSpace c <;> cases isQuote c <;> simp

lemma step_spec {s' : WordState} (h : s.step c = some s') :
    isQuote c = false ∧ isSpace c = false ∧ (c = 91 → s = .bracket ∧ s' = .opens) ∧
    (c = 45 → s' = .tail ∨ s' = .opens) ∧ s' ≠ .bracket := by
  cases s <;> simp only [WordState.step, isQuote, isSpace, isDigit, isWordChar] at h ⊢ <;> grind

lemma eq_bracket_of_wordState (h : wordState text = some .bracket) : text = [91] := by
  cases text with
  | nil => cases h
  | cons c text =>
    obtain ⟨-, -, hrun⟩ := wordState_cons_iff.mp h
    rcases eq_nil_or_concat text with rfl | ⟨before, a, rfl⟩
    · have hstart := some.inj hrun
      simp only [WordState.start] at hstart
      split_ifs at hstart with _ _ _ _ _ hc
      rw [hc]
    · rw [concat_eq_append, run_append] at hrun
      obtain ⟨s₁, -, hlast⟩ := bind_eq_some_iff.mp hrun
      obtain ⟨s₂, hstep, hs₂⟩ := run_cons_iff.mp hlast
      exact ((step_spec hstep).2.2.2.2 (some.inj hs₂)).elim

lemma eq_nil_of_run_opens (h : run WordState.step .opens text = some s) :
    text = [] ∧ s = .opens := by
  cases text with
  | nil => exact ⟨rfl, (some.inj h).symm⟩
  | cons =>
    obtain ⟨s₁, hstep, -⟩ := run_cons_iff.mp h
    cases hstep

lemma step_ne_opens {s' f : WordState} (hrun : run WordState.step s' text = some f)
    (hf : f ≠ .opens) : s' ≠ .opens := by
  rintro rfl
  exact hf (eq_nil_of_run_opens hrun).2

open WordState

/-- What `strtod` and, for hexadecimal numerals, `strtoul` have seen. -/
inductive StrtodState where
  | start
  | zero
  | integer
  | point
  | fraction
  | exponent
  | sign
  | power
  | hexMark
  | hex
  deriving Repr, DecidableEq

def StrtodState.step (s : StrtodState) (c : UInt8) : Option StrtodState :=
  match s with
  | .start => if c = 48 then some .zero else if isDigit c then some .integer
    else if c = 46 then some .point else none
  | .zero => if isDigit c then some .integer else if c = 46 then some .fraction
    else if c = 69 ∨ c = 101 then some .exponent
    else if c = 88 ∨ c = 120 then some .hexMark else none
  | .integer => if isDigit c then some .integer else if c = 46 then some .fraction
    else if c = 69 ∨ c = 101 then some .exponent else none
  | .point => if isDigit c then some .fraction else none
  | .fraction => if isDigit c then some .fraction
    else if c = 69 ∨ c = 101 then some .exponent else none
  | .exponent => if isDigit c then some .power else if c = 43 ∨ c = 45 then some .sign else none
  | .sign | .power => if isDigit c then some .power else none
  | .hexMark | .hex =>
    if isDigit c || (65 ≤ c && c ≤ 70) || (97 ≤ c && c ≤ 102) then some .hex else none

def StrtodState.accepting : StrtodState → Bool
  | .zero | .integer | .fraction | .power | .hex => true
  | _ => false

def strtodNumerals : NumeralSyntax where
  accepts text := (run StrtodState.step .start text).any StrtodState.accepting
  not_minus_last text := by
    have hminus : ∀ s : StrtodState, (s.step 45).any StrtodState.accepting = false := by
      intro s
      cases s <;> rfl
    rw [run_append]
    cases run StrtodState.step .start text with
    | none => rfl
    | some s =>
      have hlast : run StrtodState.step s [45] = s.step 45 := bind_fun_some _
      rw [bind_some, hlast]
      exact hminus s

def isWide (c : UInt8) : Bool := 128 ≤ c

section
variable {c : UInt8} {text : Octets}

lemma start_of_wide (h : isWide c = true) : start c = .single := by
  simp only [isWide, start, isDigit, isWordChar] at h ⊢
  grind

lemma step_of_wide (h : isWide c = true) (s : WordState) : s.step c = none := by
  cases s <;> simp only [isWide, step, isDigit, isWordChar] at h ⊢ <;> grind

lemma not_space_of_wide (h : isWide c = true) : isSpace c = false ∧ isQuote c = false := by
  simp only [isWide, isSpace, isQuote] at h ⊢
  grind

lemma wordState_of_wide (h : isWide c = true) : wordState [c] = some .single := by
  obtain ⟨hspace, hquote⟩ := not_space_of_wide h
  rw [wordState_cons_iff, start_of_wide h]
  exact ⟨hspace, hquote, rfl⟩

lemma narrow_of_run {s s' : WordState} (h : run step s text = some s') :
    ∀ c ∈ text, isWide c = false := by
  induction text generalizing s with
  | nil => simp
  | cons a text ih =>
    obtain ⟨s₁, hstep, hrun⟩ := run_cons_iff.mp h
    refine forall_mem_cons.mpr ⟨?_, ih hrun⟩
    by_contra hwide
    rw [step_of_wide (by simpa using hwide)] at hstep
    cases hstep

lemma narrow_or_single {s : WordState} (h : wordState text = some s) :
    (∀ c ∈ text, isWide c = false) ∨ ∃ c, text = [c] ∧ isWide c = true := by
  cases text with
  | nil => cases h
  | cons c text =>
    obtain ⟨-, -, hrun⟩ := wordState_cons_iff.mp h
    cases hwide : isWide c with
    | false => exact Or.inl (forall_mem_cons.mpr ⟨hwide, narrow_of_run hrun⟩)
    | true =>
      rw [start_of_wide hwide] at hrun
      cases text with
      | nil => exact Or.inr ⟨c, rfl, hwide⟩
      | cons =>
        obtain ⟨s₁, hstep, -⟩ := run_cons_iff.mp hrun
        cases hstep

lemma escapeStep_of_wide (h : isWide c = true) (s : EscapeState) :
    escapeStep s c = s.flush.map fun written => (.plain, written ++ [c]) := by
  have hplain : plainStep c = some (.plain, [c]) := by
    simp only [isWide, plainStep, isNewline] at h ⊢
    grind
  have hnewline : isNewline c = false := by
    simp only [isWide, isNewline] at h ⊢
    grind
  have hdigit : isDigit c = false := by
    simp only [isWide, isDigit] at h ⊢
    grind
  have hletter : letterEscape c = c := by
    simp only [isWide, letterEscape] at h ⊢
    grind
  cases s with
  | plain => exact hplain
  | escaped => simp [escapeStep, EscapeState.flush, hnewline, hdigit, hletter]
  | newline => simp [escapeStep, EscapeState.flush, hnewline, hplain]
  | digits count value =>
    simp only [escapeStep, hdigit, hplain, Bool.and_false]
    cases EscapeState.flush (.digits count value) <;> rfl

lemma longStep_of_wide (h : isWide c = true) (s : LongState) : longStep s c = (.text, [c]) := by
  have hnewline : isNewline c = false := by
    simp only [isWide, isNewline] at h ⊢
    grind
  cases s <;> simp [longStep, hnewline]

variable {widen : UInt8 → Octets} (hnarrow : ∀ c, isWide c = false → widen c = [c])
  (hwide : ∀ c, isWide c = true → ∃ x y, widen c = [x, y] ∧ isWide x = true ∧ isWide y = true)

include hnarrow hwide in
lemma length_shortContent_widen (text : Octets) :
    (shortContent (text.flatMap widen)).map List.length =
    (shortContent text).map fun content => content.length + text.countP isWide :=
  length_transduce_widen hnarrow hwide (fun s _ h => escapeStep_of_wide h s) rfl .plain text

include hnarrow hwide in
lemma length_longContent_widen (text : Octets) :
    (longContent (text.flatMap widen)).map List.length =
    (longContent text).map fun content => content.length + text.countP isWide := by
  refine @length_transduce_widen _ _ _ _ _ isWide widen id (fun _ => some []) LongState.text hnarrow
    hwide
    (fun s c h => ?_) rfl LongState.first text
  rw [longStep_of_wide h]
  rfl

end

end Millennium.Lua
