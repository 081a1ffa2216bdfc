import Millennium.Loopback.PatchSet

/-!
# Replacement texts

`re2_to_rust_rep` translates RE2's references, a backslash and a digit, into those of the `regex`
crate, a dollar sign and as many word characters as there are.
-/

namespace Millennium.Loopback

open List Nat

def isWord (c : Char) : Bool := c.isAlphanum || c == '_'

def digitValue (d : Char) : Nat := d.toNat - '0'.toNat

structure Captures where
  numbered : Nat → Option (List Char)
  named : List Char → Option (List Char)

def Captures.group (caps : Captures) (n : Nat) : List Char := (caps.numbered n).getD []

/-- What the `regex` crate inserts for a name: a `usize` is the number of a group. -/
def Captures.reference (caps : Captures) (name : List Char) : List Char :=
  let n := name.foldl (fun n d => 10 * n + digitValue d) 0
  if name.all Char.isDigit && n < 2 ^ 64 then caps.group n else (caps.named name).getD []

def re2Expand (caps : Captures) : List Char → List Char
  | '\\' :: '\\' :: rest => '\\' :: re2Expand caps rest
  | '\\' :: c :: rest =>
    if c.isDigit then caps.group (digitValue c) ++ re2Expand caps rest
    else '\\' :: re2Expand caps (c :: rest)
  | c :: rest => c :: re2Expand caps rest
  | [] => []

/-- The `regex` crate's, without names in braces, which no translation has. -/
def rustExpand (caps : Captures) : List Char → List Char
  | '$' :: '$' :: rest => '$' :: rustExpand caps rest
  | '$' :: rest =>
    if rest.takeWhile isWord = [] then '$' :: rustExpand caps rest
    else caps.reference (rest.takeWhile isWord) ++ rustExpand caps (rest.dropWhile isWord)
  | c :: rest => c :: rustExpand caps rest
  | [] => []
termination_by template => template.length
decreasing_by
  all_goals simp only [length_cons]
  all_goals first | omega | exact lt_succ_of_le (dropWhile_suffix _).length_le

/-- The translation means what the text meant, whatever was captured. -/
def KeepsMeaning (s : String) : Prop :=
  ∀ caps : Captures, rustExpand caps (re2ToRustRep s).toList = re2Expand caps s.toList

/-- No two backslashes in a row, and no reference directly before a word character. -/
structure Translatable (s : List Char) : Prop where
  single : ¬ ['\\', '\\'] <:+: s
  delimited : ∀ d w, d.isDigit = true → isWord w = true → ¬ ['\\', d, w] <:+: s

section
variable {c d : Char} {rest : List Char}

lemma translatable_nil : Translatable [] := ⟨by simp, by simp⟩

lemma translatable_cons_iff : Translatable (c :: rest) ↔ ¬ ['\\', '\\'] <+: c :: rest ∧
    (∀ d w, d.isDigit = true → isWord w = true → ¬ ['\\', d, w] <+: c :: rest) ∧
    Translatable rest := by
  constructor
  · intro h
    refine ⟨fun hp => h.single hp.isInfix, fun d w hd hw hp => h.delimited d w hd hw hp.isInfix, ?_⟩
    exact ⟨fun hi => h.single (infix_cons hi),
      fun d w hd hw hi => h.delimited d w hd hw (infix_cons hi)⟩
  · intro h
    obtain ⟨hsingle, hdelimited, hrest⟩ := h
    refine ⟨fun hi => ?_, fun d w hd hw hi => ?_⟩
    · obtain hp | hi := infix_cons_iff.mp hi
      · exact hsingle hp
      · exact hrest.single hi
    · obtain hp | hi := infix_cons_iff.mp hi
      · exact hdelimited d w hd hw hp
      · exact hrest.delimited d w hd hw hi

lemma translatable_literal (hc : c ≠ '\\') : Translatable (c :: rest) ↔ Translatable rest := by
  rw [translatable_cons_iff]
  simp [Ne.symm hc]

lemma ne_backslash_of_isDigit (hd : d.isDigit = true) : d ≠ '\\' := by
  intro heq
  subst heq
  contradiction

lemma ne_backslash_of_isWord (hd : isWord d = true) : d ≠ '\\' := by
  intro heq
  subst heq
  contradiction

lemma translatable_reference (hd : d.isDigit = true) :
    Translatable ('\\' :: d :: rest) ↔ rest.takeWhile isWord = [] ∧ Translatable rest := by
  have hne := ne_backslash_of_isDigit hd
  rw [translatable_cons_iff, translatable_literal hne]
  constructor
  · intro h
    obtain ⟨_, hdelimited, hrest⟩ := h
    refine ⟨?_, hrest⟩
    cases rest with
    | nil => rfl
    | cons w rest =>
      apply takeWhile_cons_of_neg
      intro hw
      exact hdelimited d w hd hw (by simp)
  · intro h
    obtain ⟨hrun, hrest⟩ := h
    refine ⟨by simp [Ne.symm hne], ?_, hrest⟩
    intro d' w _ hw hstarts
    simp only [cons_prefix_cons] at hstarts
    obtain ⟨_, _, hrest⟩ := hstarts
    obtain ⟨rest', rfl⟩ := hrest
    rw [singleton_append, takeWhile_cons_of_pos hw] at hrun
    contradiction

lemma not_translatable_escape : ¬ Translatable ('\\' :: '\\' :: rest) := by
  intro h
  exact h.single (by simp : ['\\', '\\'] <+: '\\' :: '\\' :: rest).isInfix

lemma translatable_backslash (hd : d.isDigit = false) (hne : d ≠ '\\') :
    Translatable ('\\' :: d :: rest) ↔ Translatable (d :: rest) := by
  rw [translatable_cons_iff]
  constructor
  · exact fun h => h.2.2
  · intro h
    refine ⟨by simp [Ne.symm hne], ?_, h⟩
    intro d' w hd' _ hstarts
    simp only [cons_prefix_cons] at hstarts
    rw [hstarts.2.1, hd] at hd'
    contradiction

end

def translatedExpand (caps : Captures) (s : List Char) : List Char :=
  rustExpand caps (re2ToRustRepChars s)

section
variable (caps : Captures) {c d : Char} (rest : List Char)

attribute [local simp] re2Expand rustExpand re2ToRustRepChars

lemma rustExpand_literal (hc : c ≠ '$') :
    rustExpand caps (c :: rest) = c :: rustExpand caps rest := by
  rw [rustExpand]
  · exact fun _ heq _ => hc heq
  · exact fun heq => hc heq

lemma re2ToRustRepChars_literal (hdollar : c ≠ '$') (hc : c ≠ '\\') :
    re2ToRustRepChars (c :: rest) = c :: re2ToRustRepChars rest := by
  rw [re2ToRustRepChars]
  · exact fun heq => hdollar heq
  · exact fun _ _ heq _ => hc heq

lemma re2ToRustRepChars_reference (hd : d.isDigit = true) :
    re2ToRustRepChars ('\\' :: d :: rest) = '$' :: d :: re2ToRustRepChars rest := by
  rw [re2ToRustRepChars, if_pos hd]

lemma re2ToRustRepChars_backslash (hd : d.isDigit = false) :
    re2ToRustRepChars ('\\' :: d :: rest) = '\\' :: re2ToRustRepChars (d :: rest) := by
  rw [re2ToRustRepChars, if_neg (by simp [hd])]

lemma exists_re2ToRustRepChars_cons (hc : isWord c = false) :
    ∃ c' rest', re2ToRustRepChars (c :: rest) = c' :: rest' ∧ isWord c' = false := by
  by_cases hdollar : c = '$'
  · subst hdollar
    exact ⟨'$', _, rfl, rfl⟩
  · by_cases hback : c = '\\'
    · subst hback
      cases rest with
      | nil => exact ⟨'\\', _, rfl, rfl⟩
      | cons d rest =>
        cases hd : d.isDigit with
        | true => exact ⟨'$', _, re2ToRustRepChars_reference rest hd, rfl⟩
        | false => exact ⟨'\\', _, re2ToRustRepChars_backslash rest hd, rfl⟩
    · exact ⟨c, _, re2ToRustRepChars_literal rest hdollar hback, hc⟩

lemma span_re2ToRustRepChars : (re2ToRustRepChars rest).takeWhile isWord = rest.takeWhile isWord ∧
    (re2ToRustRepChars rest).dropWhile isWord = re2ToRustRepChars (rest.dropWhile isWord) := by
  induction rest with
  | nil => exact ⟨rfl, rfl⟩
  | cons c rest ih =>
    cases hc : isWord c with
    | true =>
      have hdollar : c ≠ '$' := by
        intro heq
        subst heq
        contradiction
      rw [re2ToRustRepChars_literal rest hdollar (ne_backslash_of_isWord hc)]
      simp [hc, ih.1, ih.2]
    | false =>
      obtain ⟨c', rest', heq, hc'⟩ := exists_re2ToRustRepChars_cons rest hc
      have hstays : (c :: rest).dropWhile isWord = c :: rest := by
        simp [hc]
      rw [hstays, heq]
      simp [hc, hc']

@[simp] lemma translatedExpand_nil : translatedExpand caps [] = [] := by
  simp [translatedExpand]

@[simp] lemma translatedExpand_last : translatedExpand caps ['\\'] = ['\\'] := by
  have hchars : re2ToRustRepChars ['\\'] = ['\\'] := rfl
  rw [translatedExpand, hchars, rustExpand_literal caps [] (by decide), rustExpand]

lemma translatedExpand_literal (hc : c ≠ '\\') :
    translatedExpand caps (c :: rest) = c :: translatedExpand caps rest := by
  by_cases hdollar : c = '$'
  · subst hdollar
    rw [translatedExpand, re2ToRustRepChars, rustExpand, translatedExpand]
  · rw [translatedExpand, re2ToRustRepChars_literal rest hdollar hc,
      rustExpand_literal caps _ hdollar, translatedExpand]

lemma translatedExpand_backslash (hd : d.isDigit = false) :
    translatedExpand caps ('\\' :: d :: rest) = '\\' :: translatedExpand caps (d :: rest) := by
  rw [translatedExpand, re2ToRustRepChars_backslash rest hd,
    rustExpand_literal caps _ (by decide), translatedExpand]

lemma isWord_of_isDigit (hd : d.isDigit = true) : isWord d = true := by
  simp [isWord, Char.isAlphanum, hd]

lemma translatedExpand_reference (hd : d.isDigit = true) :
    translatedExpand caps ('\\' :: d :: rest) =
    caps.reference (d :: rest.takeWhile isWord) ++
    translatedExpand caps (rest.dropWhile isWord) := by
  have hword := isWord_of_isDigit hd
  have hne : d ≠ '$' := by
    intro heq
    subst heq
    contradiction
  obtain ⟨htake, hdrop⟩ := span_re2ToRustRepChars rest
  rw [translatedExpand, re2ToRustRepChars_reference rest hd, rustExpand]
  · rw [takeWhile_cons_of_pos hword, dropWhile_cons_of_pos hword, htake, hdrop,
      if_neg (cons_ne_nil _ _), translatedExpand]
  · exact fun _ heq => hne (List.cons.inj heq).1

lemma re2Expand_literal (hc : c ≠ '\\') : re2Expand caps (c :: rest) = c :: re2Expand caps rest := by
  rw [re2Expand]
  · exact fun _ heq _ => hc heq
  · exact fun _ _ heq _ => hc heq

lemma re2Expand_reference (hd : d.isDigit = true) : re2Expand caps ('\\' :: d :: rest) =
    caps.group (digitValue d) ++ re2Expand caps rest := by
  rw [re2Expand, if_pos hd]
  exact fun heq => ne_backslash_of_isDigit hd heq

lemma re2Expand_backslash (hd : d.isDigit = false) (hne : d ≠ '\\') :
    re2Expand caps ('\\' :: d :: rest) = '\\' :: re2Expand caps (d :: rest) := by
  rw [re2Expand, if_neg (by simp [hd])]
  exact fun heq => hne heq

lemma re2Expand_span : re2Expand caps rest =
    rest.takeWhile isWord ++ re2Expand caps (rest.dropWhile isWord) := by
  induction rest with
  | nil => rfl
  | cons c rest ih =>
    cases hc : isWord c with
    | true =>
      rw [re2Expand_literal caps rest (ne_backslash_of_isWord hc), ih]
      simp [hc]
    | false => simp [hc]

end

lemma reference_digit (caps : Captures) {d : Char} (hd : d.isDigit = true) :
    caps.reference [d] = caps.group (digitValue d) := by
  have hlt : digitValue d < 2 ^ 64 := by
    simp only [Char.isDigit, Bool.and_eq_true, decide_eq_true_eq] at hd
    have hle : d.toNat ≤ 57 := hd.2
    simp only [digitValue]
    omega
  simp only [Captures.reference, foldl_cons, foldl_nil, all_cons, hd, mul_zero, zero_add]
  exact if_pos (by simpa using hlt)

/-- Induction from backslash to backslash; a reference and its name are read at once. -/
lemma backslash_induction {motive : List Char → Prop} (nil : motive [])
    (literal : ∀ c rest, c ≠ '\\' → motive rest → motive (c :: rest)) (last : motive ['\\'])
    (backslash : ∀ d rest, (∀ s, s.length ≤ rest.length + 1 → motive s) →
    motive ('\\' :: d :: rest))
    (s : List Char) : motive s := by
  have hall : ∀ n (s : List Char), s.length ≤ n → motive s := by
    intro n
    induction n with
    | zero =>
      intro s hs
      rw [length_eq_zero_iff.mp (le_zero.mp hs)]
      exact nil
    | succ n ih =>
      intro s hs
      cases s with
      | nil => exact nil
      | cons c rest =>
        rw [length_cons] at hs
        by_cases hc : c = '\\'
        · subst hc
          cases rest with
          | nil => exact last
          | cons d rest =>
            rw [length_cons] at hs
            exact backslash d rest fun s hlen => ih s (by omega)
        · exact literal c rest hc (ih rest (by omega))
  exact hall s.length s (le_refl _)

lemma translatedExpand_eq (caps : Captures) {s : List Char} (h : Translatable s) :
    translatedExpand caps s = re2Expand caps s := by
  induction s using backslash_induction with
  | nil | last => simp [re2Expand]
  | literal c rest hc ih =>
    rw [translatedExpand_literal caps rest hc, re2Expand_literal caps rest hc,
      ih ((translatable_literal hc).mp h)]
  | backslash d rest ih =>
    have hne : d ≠ '\\' := by
      intro heq
      subst heq
      exact not_translatable_escape h
    cases hd : d.isDigit with
    | true =>
      obtain ⟨hrun, hrest⟩ := (translatable_reference hd).mp h
      have hdrop : rest.dropWhile isWord = rest := by
        simpa [hrun] using takeWhile_append_dropWhile (p := isWord) (l := rest)
      rw [translatedExpand_reference caps rest hd, hrun, hdrop, reference_digit caps hd,
        re2Expand_reference caps rest hd, ih rest (le_succ _) hrest]
    | false =>
      rw [translatedExpand_backslash caps rest hd, re2Expand_backslash caps rest hd hne,
        ih (d :: rest) (le_refl _) ((translatable_backslash hd hne).mp h)]

def noCaptures : Captures := ⟨fun _ => none, fun _ => none⟩

@[simp] lemma group_noCaptures (n : Nat) : noCaptures.group n = [] := rfl

@[simp] lemma reference_noCaptures (name : List Char) : noCaptures.reference name = [] := by
  simp [Captures.reference, noCaptures, Captures.group]

/-- Without groups, a translation has no fewer backslashes and no more word characters, and as many
of both only for a translatable text. -/
structure Compared (s : List Char) : Prop where
  backslashes : (re2Expand noCaptures s).count '\\' ≤ (translatedExpand noCaptures s).count '\\'
  words : (translatedExpand noCaptures s).countP isWord ≤ (re2Expand noCaptures s).countP isWord
  same : (translatedExpand noCaptures s).count '\\' ≤ (re2Expand noCaptures s).count '\\' →
    (re2Expand noCaptures s).countP isWord ≤ (translatedExpand noCaptures s).countP isWord →
    Translatable s

section
variable {c d : Char} {rest : List Char}

lemma Compared.literal (hc : c ≠ '\\') (h : Compared rest) : Compared (c :: rest) := by
  obtain ⟨hback, hwords, hsame⟩ := h
  have hexpand := translatedExpand_literal noCaptures rest hc
  have hre2 := re2Expand_literal noCaptures rest hc
  refine ⟨?_, ?_, fun hb hw => (translatable_literal hc).mpr (hsame ?_ ?_)⟩
  all_goals simp only [hexpand, hre2, count_cons, countP_cons] at *
  all_goals omega

lemma words_span (rest : List Char) :
    (re2Expand noCaptures rest).countP isWord = (rest.takeWhile isWord).length +
    (re2Expand noCaptures (rest.dropWhile isWord)).countP isWord ∧
    (re2Expand noCaptures rest).count '\\' =
    (re2Expand noCaptures (rest.dropWhile isWord)).count '\\' := by
  have hrun : ∀ c ∈ rest.takeWhile isWord, isWord c = true :=
    all_eq_true.mp all_takeWhile
  rw [re2Expand_span noCaptures rest, countP_append, count_append]
  refine ⟨?_, ?_⟩
  · rw [countP_eq_length.mpr hrun]
  · rw [count_eq_zero.mpr fun hmem => ne_backslash_of_isWord (hrun _ hmem) rfl, zero_add]

lemma Compared.reference (hd : d.isDigit = true) (h : Compared (rest.dropWhile isWord)) :
    Compared ('\\' :: d :: rest) := by
  obtain ⟨hback, hwords, hsame⟩ := h
  obtain ⟨hspanWords, hspanBack⟩ := words_span rest
  have hexpand := translatedExpand_reference noCaptures rest hd
  have hre2 := re2Expand_reference noCaptures rest hd
  rw [reference_noCaptures, nil_append] at hexpand
  rw [group_noCaptures, nil_append] at hre2
  refine ⟨by rw [hexpand, hre2]; omega, by rw [hexpand, hre2]; omega, fun hb hw => ?_⟩
  rw [hexpand, hre2] at hb hw
  have hrun : rest.takeWhile isWord = [] := length_eq_zero_iff.mp (by omega)
  have hdrop : rest.dropWhile isWord = rest := by
    simpa [hrun] using takeWhile_append_dropWhile (p := isWord) (l := rest)
  rw [hdrop] at hsame hb hw
  exact (translatable_reference hd).mpr ⟨hrun, hsame hb hw⟩

lemma Compared.backslash (hd : d.isDigit = false) (hne : d ≠ '\\')
    (h : Compared (d :: rest)) : Compared ('\\' :: d :: rest) := by
  obtain ⟨hback, hwords, hsame⟩ := h
  have hexpand := translatedExpand_backslash noCaptures rest hd
  have hre2 := re2Expand_backslash noCaptures rest hd hne
  refine ⟨?_, ?_, fun hb hw => (translatable_backslash hd hne).mpr (hsame ?_ ?_)⟩
  all_goals simp only [hexpand, hre2, count_cons, countP_cons] at *
  all_goals omega

lemma re2Expand_escape (caps : Captures) (rest : List Char) :
    re2Expand caps ('\\' :: '\\' :: rest) = '\\' :: re2Expand caps rest := by
  rw [re2Expand]

lemma Compared.escape (hlast : rest = [] ∨ ∃ d rest', rest = d :: rest' ∧
    (d.isDigit = true → Compared (rest'.dropWhile isWord)) ∧ (d.isDigit = false → Compared rest)) :
    Compared ('\\' :: '\\' :: rest) := by
  have hexpand := translatedExpand_backslash noCaptures rest (d := '\\') rfl
  have hre2 := re2Expand_escape noCaptures rest
  have hword : isWord '\\' = false := rfl
  obtain rfl | ⟨d, rest', rfl, hdigit, hother⟩ := hlast
  · refine ⟨?_, ?_, fun hb _ => ?_⟩
    all_goals simp [hexpand, re2Expand, hword] at *
  · cases hd : d.isDigit with
    | true =>
      obtain ⟨hback, hwords, _⟩ := hdigit hd
      obtain ⟨hspanWords, hspanBack⟩ := words_span rest'
      have hname := translatedExpand_reference noCaptures rest' hd
      have hliteral := re2Expand_literal noCaptures rest' (ne_backslash_of_isDigit hd)
      have hdword := isWord_of_isDigit hd
      rw [reference_noCaptures, nil_append] at hname
      rw [hname] at hexpand
      rw [hliteral] at hre2
      have hdne : (d == '\\') = false := by simpa using ne_backslash_of_isDigit hd
      refine ⟨?_, ?_, fun _ hw => ?_⟩
      all_goals simp only [hexpand, hre2, count_cons, countP_cons, hdword, hdne,
        if_true, if_false, Bool.false_eq_true] at *
      all_goals omega
    | false =>
      obtain ⟨hback, hwords, _⟩ := hother hd
      rw [translatedExpand_backslash noCaptures rest' hd] at hexpand
      refine ⟨?_, ?_, fun hb _ => ?_⟩
      all_goals simp only [hexpand, hre2, count_cons, countP_cons, hword, BEq.rfl,
        if_true, if_false, Bool.false_eq_true] at *
      all_goals omega

lemma compared (s : List Char) : Compared s := by
  induction s using backslash_induction with
  | nil => exact ⟨by simp [re2Expand], by simp [re2Expand], fun _ _ => translatable_nil⟩
  | last =>
    refine ⟨by simp [re2Expand], by simp [re2Expand], fun _ _ => ?_⟩
    exact translatable_cons_iff.mpr ⟨by simp, by simp, translatable_nil⟩
  | literal c rest hc ih => exact ih.literal hc
  | backslash d rest ih =>
    have hdrop : ∀ l : List Char, (l.dropWhile isWord).length ≤ l.length := fun l =>
      (dropWhile_suffix _).length_le
    cases hd : d.isDigit with
    | true => exact (ih _ (le_succ_of_le (hdrop rest))).reference hd
    | false =>
      by_cases hne : d = '\\'
      · subst hne
        apply Compared.escape
        cases rest with
        | nil => exact Or.inl rfl
        | cons e rest =>
          refine Or.inr ⟨e, rest, rfl, fun _ => ih _ ?_, fun _ => ih _ (le_succ _)⟩
          have hle := hdrop rest
          simp only [length_cons]
          omega
      · exact (ih _ (le_refl _)).backslash hd hne

end

lemma rustExpand_re2ToRustRep (caps : Captures) (s : String) :
    rustExpand caps (re2ToRustRep s).toList = translatedExpand caps s.toList := by
  rw [re2ToRustRep, String.toList_ofList, translatedExpand]

/-- A replacement keeps its meaning exactly when it has no escaped backslash and no reference
directly before a word character. -/
theorem keeps_meaning_iff (s : String) : KeepsMeaning s ↔ Translatable s.toList := by
  constructor
  · intro h
    have heq := h noCaptures
    rw [rustExpand_re2ToRustRep] at heq
    obtain ⟨_, _, hsame⟩ := compared s.toList
    exact hsame (by rw [heq]) (by rw [heq])
  · intro h caps
    rw [rustExpand_re2ToRustRep]
    exact translatedExpand_eq caps h

/-- Group 1 is an `x`; the text asks for it and then for an `a`, the translation for a group with
the name `1a`. -/
theorem reference_before_letter_loses : ¬ KeepsMeaning "\\1a" := by
  intro h
  have heq := h ⟨fun n => if n = 1 then some ['x'] else none, fun _ => none⟩
  have htext : "\\1a".toList = ['\\', '1', 'a'] := by decide
  rw [rustExpand_re2ToRustRep, htext, translatedExpand_reference _ _ rfl] at heq
  have hname : ['a'].takeWhile isWord = ['a'] ∧ ['a'].dropWhile isWord = [] := by decide
  rw [hname.2, translatedExpand_nil] at heq
  contradiction

end Millennium.Loopback
