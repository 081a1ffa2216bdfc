import Mathlib.Algebra.Order.BigOperators.Group.List
import Mathlib.Data.List.TakeWhile
import Millennium.Lib.Bytes

/-!
# Command lines

`command` takes a command line apart, sets and removes parameters, and puts it together again.
What `build` escapes with a backslash, `parse` does not read as an escape.
-/

namespace Millennium.Util.CommandLine

open Bytes List

structure Command where
  exec : Octets
  params : List Octets
  deriving DecidableEq

def isQuoteChar (c : UInt8) : Bool := c = 0x22 || c = 0x27

def flushed (token : Octets) : List Octets := if token = [] then [] else [token]

/-- The loop of `parse`, with the quote that is open, if any. -/
def tokens : Option UInt8 → Octets → Octets → List Octets
  | _, token, [] => flushed token
  | quote, token, c :: rest =>
    if isQuoteChar c ∧ (quote = none ∨ quote = some c) then
      tokens (if quote = none then some c else none) token rest
    else if c = 0x20 ∧ quote = none then flushed token ++ tokens none [] rest
    else tokens quote (token ++ [c]) rest

def ofTokens : List Octets → Command
  | [] => ⟨[], []⟩
  | exec :: params => ⟨exec, params⟩

def parse (fullCmd : Octets) : Command := ofTokens (tokens none [] (fullCmd.takeWhile (· ≠ 0)))

def needsQuotes (s : Octets) : Bool := s.any fun c => c = 0x20 || c = 0x09 || isQuoteChar c

def escape (c : UInt8) : Octets := if c = 0x22 ∨ c = 0x5C then [0x5C, c] else [c]

def quoteToken (s : Octets) : Octets :=
  if needsQuotes s then 0x22 :: s.flatMap escape ++ [0x22] else s

def Command.build (cmd : Command) : Octets :=
  quoteToken cmd.exec ++ cmd.params.flatMap fun p => 0x20 :: quoteToken p

def hasKey (key p : Octets) : Bool :=
  p = key ∨ key.length < p.length ∧ p.take key.length = key ∧ p[key.length]? = some 0x3D

def entry (key : Octets) : Option Octets → Octets
  | some value => key ++ 0x3D :: value
  | none => key

/-- The loop of `ensure_param`, if it finds the key. -/
def replaceFirst (key entry : Octets) : List Octets → Option (List Octets)
  | [] => none
  | p :: rest =>
    if hasKey key p then some (entry :: rest) else (replaceFirst key entry rest).map (p :: ·)

def Command.ensureParam (cmd : Command) (key : Octets) (value : Option Octets) : Command :=
  { cmd with
    params := (replaceFirst key (entry key value) cmd.params).getD (entry key value :: cmd.params) }

def Command.removeParam (cmd : Command) (key : Octets) : Command :=
  { cmd with params := cmd.params.filter fun p => !hasKey key p }

/-- The parameter is there once, as requested, and the others are as they were. -/
structure Establishes (cmd : Command) (key : Octets) (value : Option Octets) : Prop where
  once : (cmd.ensureParam key value).params.filter (hasKey key) = [entry key value]
  others : ((cmd.ensureParam key value).params.filter fun p => !hasKey key p) =
    cmd.params.filter fun p => !hasKey key p

lemma hasKey_entry (key : Octets) (value : Option Octets) :
    hasKey key (entry key value) = true := by
  cases value with
  | none => simp [hasKey, entry]
  | some => simp [hasKey, entry]

lemma replaceFirst_cases (key e : Octets) (params : List Octets) :
    (replaceFirst key e params = none ∧ params.filter (hasKey key) = []) ∨
    ∃ before p after, params = before ++ p :: after ∧ hasKey key p = true ∧
    before.filter (hasKey key) = [] ∧
    replaceFirst key e params = some (before ++ e :: after) := by
  induction params with
  | nil => exact .inl ⟨rfl, rfl⟩
  | cons p rest ih =>
    rw [replaceFirst]
    cases hp : hasKey key p with
    | true => exact .inr ⟨[], p, rest, rfl, hp, rfl, rfl⟩
    | false =>
      rcases ih with ⟨hnone, hfilter⟩ | ⟨before, q, after, rfl, hq, hbefore, hsome⟩
      · exact .inl ⟨by simp [hnone], by simp [hp, hfilter]⟩
      · exact .inr ⟨p :: before, q, after, rfl, hq, by simp [hp, hbefore], by simp [hsome]⟩

theorem establishes_iff (cmd : Command) (key : Octets) (value : Option Octets) :
    Establishes cmd key value ↔ (cmd.params.filter (hasKey key)).length ≤ 1 := by
  have hentry := hasKey_entry key value
  rcases replaceFirst_cases key (entry key value) cmd.params with
    ⟨hnone, hfilter⟩ | ⟨before, p, after, hparams, hp, hbefore, hsome⟩
  · refine iff_of_true ⟨?_, ?_⟩ (by simp [hfilter])
    · simp [Command.ensureParam, hnone, hentry, hfilter]
    · simp [Command.ensureParam, hnone, hentry]
  · have hafter : (cmd.ensureParam key value).params = before ++ entry key value :: after := by
      simp [Command.ensureParam, hsome]
    have hkept : (cmd.ensureParam key value).params.filter (hasKey key) =
        entry key value :: after.filter (hasKey key) := by
      rw [hafter, filter_append, hbefore, filter_cons_of_pos hentry]
      rfl
    have hfound : cmd.params.filter (hasKey key) = p :: after.filter (hasKey key) := by
      rw [hparams, filter_append, hbefore, filter_cons_of_pos hp]
      rfl
    rw [hfound, length_cons]
    constructor
    · intro h
      have honce := h.once
      rw [hkept] at honce
      rw [(cons.inj honce).2]
      rfl
    · intro hle
      have hnil := length_eq_zero_iff.mp (Nat.le_zero.mp (Nat.le_of_succ_le_succ hle))
      exact ⟨by rw [hkept, hnil], by rw [hafter, hparams]; simp [hentry, hp]⟩

/-- Only the first of two parameters with the key is set. -/
theorem second_parameter_left : ¬ Establishes ⟨[], [[0x2D], [0x2D, 0x3D]]⟩ [0x2D] none := by
  intro h
  have honce := h.once
  revert honce
  decide

inductive Call where
  | ensure (key : Octets) (value : Option Octets)
  | remove (key : Octets)

def Command.after (cmd : Command) : List Call → Command
  | [] => cmd
  | .ensure key value :: calls => (cmd.ensureParam key value).after calls
  | .remove key :: calls => (cmd.removeParam key).after calls

def Plain (t : Octets) : Prop := 0 ∉ t ∧ (needsQuotes t → 0x22 ∉ t ∧ 0x5C ∉ t)

/-- Every token is plain, no parameter is empty, and without an executable there are none. -/
structure Rebuildable (cmd : Command) : Prop where
  plain : ∀ t ∈ cmd.exec :: cmd.params, Plain t
  params : [] ∉ cmd.params
  exec : cmd.exec = [] → cmd.params = []

lemma tokens_unquoted {t : Octets} (h : needsQuotes t = false) (token rest : Octets) :
    tokens none token (t ++ rest) = tokens none (token ++ t) rest := by
  induction t generalizing token with
  | nil => rw [append_nil, nil_append]
  | cons c t ih =>
    simp only [needsQuotes, any_cons, Bool.or_eq_false_iff, decide_eq_false_iff_not] at h
    obtain ⟨⟨⟨hspace, _⟩, hquote⟩, ht⟩ := h
    rw [cons_append, tokens, if_neg (by simp [hquote]), if_neg (by simp [hspace]), ih ht,
      append_assoc]
    rfl

lemma tokens_quoted {t : Octets} (h : 0x22 ∉ t) (token rest : Octets) :
    tokens (some 0x22) token (t ++ 0x22 :: rest) = tokens none (token ++ t) rest := by
  induction t generalizing token with
  | nil => rw [append_nil, nil_append, tokens, if_pos (by decide), if_neg (by decide)]
  | cons c t ih =>
    rw [mem_cons, not_or] at h
    rw [cons_append, tokens, if_neg (by simp [h.1]), if_neg (by simp), ih h.2, append_assoc]
    rfl

lemma flatMap_escape {t : Octets} (h1 : 0x22 ∉ t) (h2 : 0x5C ∉ t) : t.flatMap escape = t := by
  induction t with
  | nil => rfl
  | cons c t ih =>
    rw [mem_cons, not_or] at h1 h2
    rw [flatMap_cons, escape, if_neg (by simp [Ne.symm h1.1, Ne.symm h2.1]), ih h1.2 h2.2]
    rfl

lemma tokens_quoteToken {t : Octets} (h : Plain t) (token rest : Octets) :
    tokens none token (quoteToken t ++ rest) = tokens none (token ++ t) rest := by
  rw [quoteToken]
  split_ifs with hquotes
  · obtain ⟨h1, h2⟩ := h.2 hquotes
    rw [flatMap_escape h1 h2, cons_append, cons_append, tokens, if_pos (by decide),
      append_assoc]
    exact tokens_quoted h1 token rest
  · exact tokens_unquoted (Bool.eq_false_iff.mpr hquotes) token rest

lemma tokens_build {params : List Octets} (h : ∀ p ∈ params, Plain p) (t : Octets) :
    tokens none t (params.flatMap fun p => 0x20 :: quoteToken p) =
    (t :: params).filter (· ≠ []) := by
  induction params generalizing t with
  | nil => simp [tokens, flushed, filter_cons]
  | cons p params ih =>
    obtain ⟨hp, hparams⟩ := forall_mem_cons.mp h
    rw [flatMap_cons, cons_append, tokens, if_neg (by decide), if_pos (by decide),
      tokens_quoteToken hp, nil_append, ih hparams, flushed]
    split_ifs with ht <;> simp [ht]

lemma count_tokens {x : UInt8} (hspace : x ≠ 0x20) (hquote : isQuoteChar x = false)
    (quote : Option UInt8) (token text : Octets) :
    (tokens quote token text).flatten.count x = token.count x + text.count x := by
  have hflush : ∀ token, (flushed token).flatten = token := by
    intro token
    rw [flushed]
    split_ifs with h <;> simp [h]
  induction text generalizing quote token with
  | nil => rw [tokens, hflush, count_nil, Nat.add_zero]
  | cons c text ih =>
    rw [tokens]
    by_cases hc : isQuoteChar c ∧ (quote = none ∨ quote = some c)
    · rw [if_pos hc, ih, count_cons_of_ne]
      rintro rfl
      simp [hquote] at hc
    by_cases hc' : c = 0x20 ∧ quote = none
    · rw [if_neg hc, if_pos hc', flatten_append, hflush, count_append, ih, count_nil,
        Nat.zero_add, count_cons_of_ne (by rw [hc'.1]; exact Ne.symm hspace)]
    · rw [if_neg hc, if_neg hc', ih, count_append, Nat.add_assoc, ← count_append]
      rfl

def added (t : Octets) : Nat := if needsQuotes t then t.count 0x22 + t.count 0x5C else 0

lemma count_flatMap_escape (t : Octets) :
    (t.flatMap escape).count 0x5C = t.count 0x5C + (t.count 0x22 + t.count 0x5C) := by
  induction t with
  | nil => rfl
  | cons c t ih =>
    rw [flatMap_cons, count_append, ih, escape]
    simp only [count_cons]
    split_ifs <;> simp_all <;> omega

lemma count_quoteToken (t : Octets) : (quoteToken t).count 0x5C = t.count 0x5C + added t := by
  rw [quoteToken, added]
  split_ifs with h
  · rw [cons_append, count_cons, count_append, count_flatMap_escape]
    rfl
  · rfl

lemma count_build (cmd : Command) : cmd.build.count 0x5C =
    (cmd.exec ++ cmd.params.flatten).count 0x5C + ((cmd.exec :: cmd.params).map added).sum := by
  have hparams : ∀ params : List Octets,
      (params.flatMap fun p => 0x20 :: quoteToken p).count 0x5C =
        params.flatten.count 0x5C + (params.map added).sum := by
    intro params
    induction params with
    | nil => rfl
    | cons p params ih =>
      rw [flatMap_cons, count_append, ih, count_cons_of_ne (by decide), count_quoteToken]
      simp
      omega
  rw [Command.build, count_append, hparams, count_quoteToken]
  simp
  omega

lemma plain_iff (t : Octets) : Plain t ↔ 0 ∉ t ∧ added t = 0 := by
  rw [Plain, added]
  split_ifs with h <;> simp [h, count_eq_zero]

lemma takeWhile_build {cmd : Command} (h : 0 ∉ cmd.exec ++ cmd.params.flatten) :
    cmd.build.takeWhile (· ≠ 0) = cmd.build := by
  have htoken : ∀ t : Octets, 0 ∈ quoteToken t → 0 ∈ t := by
    intro t ht
    rw [quoteToken] at ht
    split_ifs at ht
    · simp only [cons_append, mem_cons, mem_append, mem_flatMap, escape] at ht
      grind
    · exact ht
  rw [takeWhile_eq_self_iff]
  rintro x hx
  rw [decide_eq_true_eq]
  rintro rfl
  simp only [Command.build, mem_append, mem_flatMap, mem_cons, mem_flatten] at hx h
  grind

lemma ofTokens_filter_iff (cmd : Command) :
    ofTokens ((cmd.exec :: cmd.params).filter (· ≠ [])) = cmd ↔
    [] ∉ cmd.params ∧ (cmd.exec = [] → cmd.params = []) := by
  obtain ⟨exec, params⟩ := cmd
  by_cases hexec : exec = []
  · rw [filter_cons_of_neg (by simp [hexec])]
    cases params with
    | nil => simp [ofTokens, hexec]
    | cons p params =>
      refine iff_of_false (fun h => ?_) fun h => cons_ne_nil p params (h.2 hexec)
      cases hkept : (p :: params).filter (· ≠ []) with
      | nil =>
        rw [hkept] at h
        cases h
      | cons e rest =>
        rw [hkept] at h
        have he : e ∈ (p :: params).filter (· ≠ []) := hkept ▸ mem_cons_self
        exact of_decide_eq_true (mem_filter.mp he).2 ((Command.mk.inj h).1.trans hexec)
  · rw [filter_cons_of_pos (by simp [hexec])]
    simp only [ofTokens, Command.mk.injEq, true_and, filter_eq_self, hexec, false_implies, and_true,
      decide_eq_true_eq]
    exact ⟨fun h hmem => h [] hmem rfl, fun h p hp hnil => h (hnil ▸ hp)⟩

lemma parse_build_of_plain {cmd : Command} (h : ∀ t ∈ cmd.exec :: cmd.params, Plain t) :
    parse cmd.build = ofTokens ((cmd.exec :: cmd.params).filter (· ≠ [])) := by
  obtain ⟨hexec, hparams⟩ := forall_mem_cons.mp h
  have hzero : 0 ∉ cmd.exec ++ cmd.params.flatten := by
    rw [mem_append, mem_flatten, not_or]
    exact ⟨hexec.1, fun ⟨p, hp, hmem⟩ => (hparams p hp).1 hmem⟩
  rw [parse, takeWhile_build hzero, Command.build, tokens_quoteToken hexec, nil_append,
    tokens_build hparams]

lemma plain_of_parse_build {cmd : Command} (h : parse cmd.build = cmd) :
    ∀ t ∈ cmd.exec :: cmd.params, Plain t := by
  have hflat : ∀ l, (ofTokens l).exec ++ (ofTokens l).params.flatten = l.flatten := by
    intro l
    cases l <;> rfl
  have hcount : ∀ x ≠ 0x20, isQuoteChar x = false →
      (cmd.exec ++ cmd.params.flatten).count x = (cmd.build.takeWhile (· ≠ 0)).count x := by
    intro x hspace hquote
    have hall := hflat (tokens none [] (cmd.build.takeWhile (· ≠ 0)))
    rw [← parse, h] at hall
    rw [hall, count_tokens hspace hquote, count_nil, Nat.zero_add]
  have hzero : 0 ∉ cmd.exec ++ cmd.params.flatten := by
    rw [← count_eq_zero, hcount 0 (by decide) (by decide), count_eq_zero]
    intro hmem
    simpa using mem_takeWhile_imp hmem
  have hadded := hcount 0x5C (by decide) (by decide)
  rw [takeWhile_build hzero, count_build] at hadded
  intro t ht
  refine (plain_iff t).mpr ⟨fun hmem => hzero ?_, ?_⟩
  · rcases mem_cons.mp ht with rfl | ht
    · exact mem_append_left _ hmem
    · exact mem_append_right _ (mem_flatten.mpr ⟨t, ht, hmem⟩)
  · have hsum : ((cmd.exec :: cmd.params).map added).sum = 0 := by omega
    exact List.sum_eq_zero_iff.mp hsum _ (mem_map_of_mem ht)

lemma parse_build_iff (cmd : Command) : parse cmd.build = cmd ↔ Rebuildable cmd := by
  constructor
  · intro h
    have hplain := plain_of_parse_build h
    rw [parse_build_of_plain hplain, ofTokens_filter_iff] at h
    exact ⟨hplain, h.1, h.2⟩
  · intro h
    rw [parse_build_of_plain h.plain, ofTokens_filter_iff]
    exact ⟨h.params, h.exec⟩

theorem rebuilt_iff (line : Octets) (calls : List Call) :
    parse ((parse line).after calls).build = (parse line).after calls ↔
      Rebuildable ((parse line).after calls) :=
  parse_build_iff _

/-- A quote inside of other quotes. -/
theorem quote_not_rebuilt :
    parse (parse [0x27, 0x22, 0x27]).build ≠ parse [0x27, 0x22, 0x27] := by
  decide

end Millennium.Util.CommandLine
