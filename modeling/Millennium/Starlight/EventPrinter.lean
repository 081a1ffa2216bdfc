import Millennium.Lib.Outcome
import Mathlib.Data.List.DropRight

/-!
# Printing patch events

The dev log cuts long texts before it prints them. `trunc` cuts at an octet, which panics inside
of a character.
-/

namespace Millennium.Starlight.Printer

open List

abbrev Text := List Char

def size : Text → Nat
  | [] => 0
  | c :: rest => c.utf8Size + size rest

def cut : Text → Nat → Option Text
  | _, 0 => some []
  | [], _ + 1 => none
  | c :: rest, n + 1 =>
    if c.utf8Size ≤ n + 1 then (cut rest (n + 1 - c.utf8Size)).map (c :: ·) else none

def trunc (s : Text) (n : Nat) : Option Text :=
  if n < size s then (cut s n).map (· ++ ['…']) else some s

inductive ChangeTag where
  | delete | insert | equal

structure Change where
  tag : ChangeTag
  parts : List (Bool × Text)

def Change.sign (change : Change) : String :=
  match change.tag with
  | .delete => "-"
  | .insert => "+"
  | .equal => " "

def Change.lineColor (change : Change) : Text :=
  match change.tag with
  | .delete => "\x1b[31m".toList
  | .insert => "\x1b[32m".toList
  | .equal => []

structure Group where
  header : Text
  changes : List Change

/-- Whether colours are on, how a text gets one, what is white space, and the groups of a diff. -/
structure Env where
  colors : Bool
  gray : Text → Text
  yellow : Text → Text
  red : Text → Text
  white : Char → Bool
  diff : Text → Text → List Group

variable (env : Env)

def lbl (s : String) : Text := env.gray (s.toList.leftpad 6 ' ')

def cont (label : String) (content : Text) : Text :=
  '\n' :: (if env.colors then ['\r'] else []) ++ "  ".toList ++ lbl env label ++ "  ".toList ++
    content

def Change.line (change : Change) : Text :=
  let color := if env.colors then change.lineColor else []
  color ++ (change.parts.flatMap fun (emph, s) =>
      if emph && env.colors then
        "\x1b[1;4m".toList ++ s.rdropWhile (· = '\n') ++ "\x1b[22;24m".toList ++ color
      else s.rdropWhile (· = '\n')) ++
    if color = [] then [] else "\x1b[0m".toList

def showGroup (group : Group) : Option Text :=
  (group.changes.mapM fun change =>
    (trunc (change.line env) 400).map (cont env change.sign)).map fun lines =>
      cont env "@@" (env.gray group.header) ++ lines.flatten

def gitDiff (before after : Text) : Option Text :=
  ((env.diff before after).mapM (showGroup env)).map flatten

inductive EventType where
  | urlSeen | isMatch | noMatch | conflict | syntaxError
  | other (name : Text)

/-- What `parse_hhx64_event` reads from the JSON value, or the empty text. -/
structure Event where
  eventType : EventType
  plugin : Text
  filename : Text
  detail : Text
  other : Text
  findPattern : Text
  transformPatterns : Text
  beforeText : Text
  afterText : Text

def Event.basename (e : Event) : Text :=
  let b := e.filename.rtakeWhile (· ≠ '/')
  if b = [] then e.filename else b

def lines (s : Text) : List Text :=
  let parts := s.splitOn '\n'
  (if parts.getLast? = some [] then parts.dropLast else parts).map fun line =>
    if line.getLast? = some '\r' then line.dropLast else line

def split (separator : String) (s : Text) : List Text :=
  ((String.ofList s).splitOn separator).map String.toList

def showBlock (s : Text) : Text :=
  let block := (s.dropWhile env.white).rdropWhile env.white
  if block = [] then []
  else cont env "oxc" (block.takeWhile (· ≠ '\n')) ++
    (lines ((block.dropWhile (· ≠ '\n')).drop 1)).flatMap (cont env "")

def showPattern (label : String) (pattern : Text) : Option Text :=
  if pattern = [] then some []
  else (trunc pattern 120).map fun s => cont env label ('/' :: s ++ ['/'])

def showTried (e : Event) : Option Text :=
  (trunc e.beforeText 200).bind fun before =>
    ((lines e.transformPatterns).mapM fun line =>
      (trunc line 200).map fun s => cont env "tried" (env.yellow s)).map fun tried =>
        cont env "match" before ++ tried.flatten ++ cont env "result"
          (if e.transformPatterns = [] then "transform patterns not captured".toList
          else "none of the above matched within the found region".toList)

def showMatch (e : Event) : Option Text :=
  if e.beforeText = [] then
    some (cont env "debug" "before/after not captured — hhx64 binary may need rebuild".toList)
  else (gitDiff env e.beforeText e.afterText).bind fun diff =>
    if diff = [] then showTried env e else some diff

def parseHhx64Event (e : Event) : Option Text :=
  match e.eventType with
  | .urlSeen =>
    some (e.basename ++ if e.detail = [] then [] else "  ".toList ++ env.gray e.detail)
  | .isMatch => (showPattern env "find" e.findPattern).bind fun pattern =>
    (showMatch env e).map fun rest => e.basename ++ "  ".toList ++ e.detail ++ pattern ++ rest
  | .noMatch => (showPattern env "tried" e.findPattern).map fun pattern =>
    e.basename ++ "  ".toList ++ env.yellow "no match".toList ++ pattern
  | .conflict =>
    some (e.basename ++ "  ".toList ++ env.red "conflict with".toList ++ " '".toList ++ e.other ++
      "'".toList ++ if e.detail = [] then [] else cont env "at" e.detail)
  | .syntaxError =>
    some (e.basename ++ "  ".toList ++
      env.red "syntax error after patch — file reverted".toList ++
      (if e.plugin = [] then [] else (split ", " e.plugin).flatMap (cont env "blamed")) ++
      (split "|||" e.detail).flatMap (showBlock env))
  | .other name => some (name ++ ": ".toList ++ e.filename)

def patternCuts (pattern : Text) : List (Text × Nat) :=
  if pattern = [] then [] else [(pattern, 120)]

def matchCuts (e : Event) : List (Text × Nat) :=
  if e.beforeText = [] then []
  else if env.diff e.beforeText e.afterText = [] then
    (e.beforeText, 200) :: (lines e.transformPatterns).map (·, 200)
  else (env.diff e.beforeText e.afterText).flatMap fun group =>
    group.changes.map fun change => (change.line env, 400)

def cuts (e : Event) : List (Text × Nat) :=
  match e.eventType with
  | .isMatch => patternCuts e.findPattern ++ matchCuts env e
  | .noMatch => patternCuts e.findPattern
  | _ => []

def Cuttable (s : Text × Nat) : Prop := size s.1 ≤ s.2 ∨ ∃ front, front <+: s.1 ∧ size front = s.2

lemma cut_isSome_iff {s : Text} {n : Nat} :
    (cut s n).isSome ↔ ∃ front, front <+: s ∧ size front = n := by
  fun_induction cut s n with
  | case1 => exact iff_of_true rfl ⟨[], nil_prefix, rfl⟩
  | case2 => simp [size]
  | case3 c rest n hle ih =>
    rw [Option.isSome_map, ih]
    constructor
    · rintro ⟨front, hfront, hsize⟩
      exact ⟨c :: front, cons_prefix_cons.mpr ⟨rfl, hfront⟩, by simp [size] at *; omega⟩
    · rintro ⟨front, hfront, hsize⟩
      obtain rfl | ⟨front', rfl, hfront'⟩ := prefix_cons_iff.mp hfront
      · simp [size] at hsize
      · exact ⟨front', hfront', by simp [size] at *; omega⟩
  | case4 c rest n hlt =>
    refine iff_of_false (by simp) ?_
    rintro ⟨front, hfront, hsize⟩
    obtain rfl | ⟨front, rfl, -⟩ := prefix_cons_iff.mp hfront
    · simp [size] at hsize
    · simp [size] at hsize
      omega

lemma trunc_isSome_iff {s : Text} {n : Nat} : (trunc s n).isSome ↔ Cuttable (s, n) := by
  rw [trunc, Cuttable]
  split_ifs with h
  · rw [Option.isSome_map, cut_isSome_iff, or_iff_right (Nat.not_le.mpr h)]
  · exact iff_of_true rfl (.inl (Nat.not_lt.mp h))

variable {env} {e : Event}

lemma showPattern_isSome_iff {label : String} {pattern : Text} :
    (showPattern env label pattern).isSome ↔ ∀ s ∈ patternCuts pattern, Cuttable s := by
  rw [showPattern, patternCuts]
  split_ifs with h
  · simp
  · simp [trunc_isSome_iff]

lemma isSome_bind_map {α β γ : Type} {x : Option α} {y : Option β} {f : α → β → γ} :
    (x.bind fun a => y.map (f a)).isSome ↔ x.isSome ∧ y.isSome := by
  cases x <;> simp

lemma showTried_isSome_iff : (showTried env e).isSome ↔
    ∀ s ∈ (e.beforeText, 200) :: (lines e.transformPatterns).map (·, 200), Cuttable s := by
  rw [showTried, isSome_bind_map]
  simp [Outcome.mapM_isSome_iff, trunc_isSome_iff]

lemma gitDiff_isSome_iff {before after : Text} : (gitDiff env before after).isSome ↔
    ∀ group ∈ env.diff before after, ∀ change ∈ group.changes, Cuttable (change.line env, 400) := by
  simp [gitDiff, showGroup, Outcome.mapM_isSome_iff, trunc_isSome_iff]

lemma gitDiff_ne_nil {before after diff : Text} (hne : env.diff before after ≠ [])
    (h : gitDiff env before after = some diff) : diff ≠ [] := by
  obtain ⟨groups, hgroups, rfl⟩ := Option.map_eq_some_iff.mp h
  have hall := Outcome.mapM_eq_some_iff.mp hgroups
  generalize env.diff before after = all at hne hall
  cases hall with
  | nil => exact absurd rfl hne
  | cons hgroup =>
    obtain ⟨lines, -, rfl⟩ := Option.map_eq_some_iff.mp hgroup
    simp [cont]

lemma showMatch_isSome_iff : (showMatch env e).isSome ↔ ∀ s ∈ matchCuts env e, Cuttable s := by
  rw [showMatch, matchCuts]
  split_ifs with hbefore hdiff
  · simp
  · simp [gitDiff, hdiff, showTried_isSome_iff]
  · have hdiff : ((gitDiff env e.beforeText e.afterText).bind fun diff =>
        if diff = [] then showTried env e else some diff) =
          gitDiff env e.beforeText e.afterText := by
      cases h : gitDiff env e.beforeText e.afterText with
      | none => rfl
      | some diff => exact if_neg (gitDiff_ne_nil hdiff h)
    rw [hdiff, gitDiff_isSome_iff]
    simp only [forall_mem_flatMap, forall_mem_map]

theorem parseHhx64Event_isSome_iff (env : Env) (e : Event) :
    (parseHhx64Event env e).isSome ↔ ∀ s ∈ cuts env e, Cuttable s := by
  rw [parseHhx64Event, cuts]
  cases e.eventType with
  | isMatch =>
    rw [isSome_bind_map, showPattern_isSome_iff, showMatch_isSome_iff, forall_mem_append]
  | noMatch => rw [Option.isSome_map, showPattern_isSome_iff]
  | urlSeen | conflict | syntaxError | other => exact iff_of_true rfl (forall_mem_nil _)

theorem accented_pattern_panics :
    parseHhx64Event ⟨false, id, id, id, fun _ => false, fun _ _ => []⟩
      ⟨.noMatch, [], [], [], [], 'a' :: replicate 60 'é', [], [], []⟩ = none := by
  decide +kernel

end Millennium.Starlight.Printer
