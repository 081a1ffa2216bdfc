import Millennium.Lib.Fields
import Millennium.Lib.Json
import Millennium.Lib.Outcome

/-!
# Reading versions

`semver::parse` cuts a version at its first plus sign, then at its first minus sign, and reads three
numbers. It takes exactly the versions of Semantic Versioning 2.0.0 whose numbers fit into an `int`.
-/

namespace Millennium.Util.Semver

open Bytes Fields Outcome List

def isDigit (c : UInt8) : Bool := 48 ≤ c && c ≤ 57

def isAlnum (c : UInt8) : Bool := isDigit c || (65 ≤ c && c ≤ 90) || (97 ≤ c && c ≤ 122)

def isValidIdentifier (id : Octets) (allowDash : Bool) : Bool :=
  !id.isEmpty && id.all fun c => isAlnum c || (allowDash && c == 45)

def hasLeadingZero (s : Octets) : Bool := decide (1 < s.length) && s.head? == some 48

def intMax : Nat := 2 ^ 31 - 1

/-- The greatest number of type `long`, which is not the same everywhere. -/
structure Platform where
  longMax : Nat
  intMax_le : intMax ≤ longMax

def decimal (s : Octets) : Nat := s.foldl (fun n c => n * 10 + (c.toNat - 48)) 0

/-- What `std::strtol` returns for digits, all of which it reads. -/
def strtol (platform : Platform) (s : Octets) : Nat := min (decimal s) platform.longMax

def erange (platform : Platform) (s : Octets) : Bool := decide (platform.longMax < decimal s)

def parseInt (platform : Platform) (s : Octets) : Except Octets Int :=
  if s.isEmpty || !s.all isDigit then .error (ascii "Invalid numeric part: " ++ s)
  else if hasLeadingZero s then .error (ascii "Leading zeros not allowed in numeric parts: " ++ s)
  else if erange platform s || decide (intMax < strtol platform s) then
    .error (ascii "Numeric part out of range or invalid: " ++ s)
  else .ok (strtol platform s)

inductive Context where
  | buildMetadata | prerelease
  deriving DecidableEq, Repr

def Context.text : Context → Octets
  | .buildMetadata => ascii "build metadata"
  | .prerelease => ascii "prerelease"

def validatePart (str : Octets) (context : Context) (part : Octets) : Except Octets Unit :=
  if part.isEmpty then .error (ascii "Empty identifier in " ++ context.text ++ ascii ": " ++ str)
  else if !isValidIdentifier part true then
    .error (ascii "Invalid characters in " ++ context.text ++ ascii " identifier: " ++ part)
  else if part.all isDigit && hasLeadingZero part && context == .prerelease then
    .error (ascii "Leading zeros not allowed in numeric prerelease identifier: " ++ part)
  else .ok ()

def validateParts (str : Octets) (context : Context) : List Octets → Except Octets Unit
  | [] => .ok ()
  | part :: rest => do
    validatePart str context part
    validateParts str context rest

def validate (str : Octets) (context : Context) : Except Octets Unit :=
  if str.isEmpty then .error (ascii "Empty " ++ context.text ++ ascii " not allowed")
  else validateParts str context (str.splitOn 46)

/-- How `parse` takes off what is behind a separator, if it is there. -/
def extract (sep : UInt8) (emptyMessage : Octets) (context : Context) (core : Octets) :
    Except Octets (Octets × Octets) :=
  match cutAt sep core with
  | none => .ok (core, [])
  | some (core, part) =>
    if part.isEmpty then .error emptyMessage
    else do
      validate part context
      .ok (core, part)

structure Version where
  major : Int
  minor : Int
  patch : Int
  prerelease : Octets
  build : Octets
  deriving DecidableEq, Repr

def parseCore (platform : Platform) (core prerelease build : Octets) : Except Octets Version :=
  match core.splitOn 46 with
  | [first, second, third] => do
    let major ← parseInt platform first
    let minor ← parseInt platform second
    let patch ← parseInt platform third
    if major < 0 ∨ minor < 0 ∨ patch < 0 then .error (ascii "Version numbers cannot be negative")
    else .ok ⟨major, minor, patch, prerelease, build⟩
  | _ => .error (ascii "Semver requires exactly 3 numeric parts (major.minor.patch)")

def parse (platform : Platform) (version : Octets) : Except Octets Version :=
  if version.isEmpty then .error (ascii "Empty version string")
  else if version.head? = some 46 ∨ version.getLast? = some 46 then
    .error (ascii "Version cannot start or end with '.'")
  else do
    let (core, build) ← extract 43 (ascii "Empty build metadata after '+'") .buildMetadata version
    let (core, prerelease) ← extract 45 (ascii "Empty prerelease after '-'") .prerelease core
    parseCore platform core prerelease build

def NonDigit (c : UInt8) : Prop := (65 ≤ c ∧ c ≤ 90) ∨ (97 ≤ c ∧ c ≤ 122) ∨ c = 45

def Digit (c : UInt8) : Prop := 48 ≤ c ∧ c ≤ 57

def IdentifierCharacter (c : UInt8) : Prop := Digit c ∨ NonDigit c

inductive NumericIdentifier : Octets → Prop
  | zero : NumericIdentifier [48]
  | positive {c : UInt8} {rest : Octets} (hc : Digit c) (hpositive : c ≠ 48)
      (hrest : ∀ d ∈ rest, Digit d) : NumericIdentifier (c :: rest)

/-- A letter or a hyphen, with characters of identifiers around it. -/
inductive AlphanumericIdentifier : Octets → Prop
  | mk {before after : Octets} {c : UInt8} (hbefore : ∀ d ∈ before, IdentifierCharacter d)
      (hc : NonDigit c) (hafter : ∀ d ∈ after, IdentifierCharacter d) :
      AlphanumericIdentifier (before ++ c :: after)

inductive BuildIdentifier : Octets → Prop
  | alphanumeric {s : Octets} (h : AlphanumericIdentifier s) : BuildIdentifier s
  | digits {c : UInt8} {rest : Octets} (h : ∀ d ∈ c :: rest, Digit d) : BuildIdentifier (c :: rest)

inductive PreReleaseIdentifier : Octets → Prop
  | alphanumeric {s : Octets} (h : AlphanumericIdentifier s) : PreReleaseIdentifier s
  | numeric {s : Octets} (h : NumericIdentifier s) : PreReleaseIdentifier s

inductive DotSeparated (P : Octets → Prop) : Octets → Prop
  | one {id : Octets} (h : P id) : DotSeparated P id
  | more {id rest : Octets} (h : P id) (hrest : DotSeparated P rest) :
      DotSeparated P (id ++ 46 :: rest)

/-- A part of a version that may be left out, with what is in front of it. -/
def optional (sep : UInt8) : Option Octets → Octets
  | none => []
  | some part => sep :: part

structure Parts where
  major : Octets
  minor : Octets
  patch : Octets
  preRelease : Option Octets
  build : Option Octets

namespace Parts

def core (p : Parts) : Octets := p.major ++ 46 :: p.minor ++ 46 :: p.patch

/-- A version: its core, maybe a hyphen and a pre-release, maybe a plus sign and build metadata. -/
def text (p : Parts) : Octets := p.core ++ optional 45 p.preRelease ++ optional 43 p.build

structure Valid (p : Parts) : Prop where
  major : NumericIdentifier p.major
  minor : NumericIdentifier p.minor
  patch : NumericIdentifier p.patch
  preRelease : ∀ s ∈ p.preRelease, DotSeparated PreReleaseIdentifier s
  build : ∀ s ∈ p.build, DotSeparated BuildIdentifier s

def Fits (p : Parts) : Prop :=
  decimal p.major ≤ intMax ∧ decimal p.minor ≤ intMax ∧ decimal p.patch ≤ intMax

def version (p : Parts) : Version where
  major := decimal p.major
  minor := decimal p.minor
  patch := decimal p.patch
  prerelease := p.preRelease.getD []
  build := p.build.getD []

structure Reads (p : Parts) (text : Octets) : Prop where
  valid : p.Valid
  fits : p.Fits
  text_eq : p.text = text

end Parts

variable {c : UInt8} {s str : Octets} {context : Context} {platform : Platform}

lemma isDigit_iff : isDigit c = true ↔ Digit c := by
  simp [isDigit, Digit]

lemma identifierCharacter_iff :
    (isAlnum c || (true && c == 45)) = true ↔ IdentifierCharacter c := by
  simp [isAlnum, isDigit_iff, IdentifierCharacter, NonDigit, or_assoc]

lemma all_isDigit_iff : s.all isDigit = true ↔ ∀ c ∈ s, Digit c := by
  simp [isDigit_iff]

lemma isValidIdentifier_iff :
    isValidIdentifier s true = true ↔ s ≠ [] ∧ ∀ c ∈ s, IdentifierCharacter c := by
  rw [isValidIdentifier, Bool.and_eq_true, all_eq_true]
  simp only [identifierCharacter_iff, Bool.not_eq_true', isEmpty_eq_false_iff]

lemma not_digit_of_nonDigit (h : NonDigit c) : ¬ Digit c := by
  simp only [NonDigit, Digit] at *
  grind

lemma dot_not_identifierCharacter : ¬ IdentifierCharacter 46 := by
  simp only [IdentifierCharacter, NonDigit, Digit]
  decide

lemma numericIdentifier_iff :
    NumericIdentifier s ↔ s ≠ [] ∧ (∀ c ∈ s, Digit c) ∧ hasLeadingZero s = false := by
  constructor
  · rintro (_ | ⟨hc, hpositive, hrest⟩)
    · refine ⟨cons_ne_nil _ _, ?_, rfl⟩
      simp only [mem_singleton, forall_eq, Digit]
      decide
    · refine ⟨cons_ne_nil _ _, forall_mem_cons.mpr ⟨hc, hrest⟩, ?_⟩
      simp [hasLeadingZero, hpositive]
  · rintro ⟨hne, hdigits, hzero⟩
    obtain ⟨c, rest, rfl⟩ := exists_cons_of_ne_nil hne
    obtain ⟨hc, hrest⟩ := forall_mem_cons.mp hdigits
    by_cases hcz : c = 48
    · have hnil : rest = [] := by simpa [hasLeadingZero, hcz] using hzero
      rw [hcz, hnil]
      exact .zero
    · exact .positive hc hcz hrest

lemma alphanumericIdentifier_iff :
    AlphanumericIdentifier s ↔ (∀ c ∈ s, IdentifierCharacter c) ∧ ∃ c ∈ s, NonDigit c := by
  constructor
  · rintro ⟨hbefore, hc, hafter⟩
    refine ⟨forall_mem_append.mpr ⟨hbefore, ?_⟩, _, by simp, hc⟩
    exact forall_mem_cons.mpr ⟨.inr hc, hafter⟩
  · rintro ⟨hall, c, hmem, hc⟩
    obtain ⟨before, after, rfl⟩ := append_of_mem hmem
    obtain ⟨hbefore, hrest⟩ := forall_mem_append.mp hall
    exact ⟨hbefore, hc, (forall_mem_cons.mp hrest).2⟩

lemma digits_or_alphanumeric (h : ∀ c ∈ s, IdentifierCharacter c) :
    (∀ c ∈ s, Digit c) ∨ AlphanumericIdentifier s := by
  by_cases hdigits : ∀ c ∈ s, Digit c
  · exact .inl hdigits
  · push Not at hdigits
    obtain ⟨c, hmem, hc⟩ := hdigits
    exact .inr (alphanumericIdentifier_iff.mpr ⟨h, c, hmem, (h c hmem).resolve_left hc⟩)

lemma AlphanumericIdentifier.spec (h : AlphanumericIdentifier s) :
    s ≠ [] ∧ (∀ c ∈ s, IdentifierCharacter c) ∧ ¬ ∀ c ∈ s, Digit c := by
  obtain ⟨hall, c, hmem, hc⟩ := alphanumericIdentifier_iff.mp h
  exact ⟨ne_nil_of_mem hmem, hall, fun hdigits => not_digit_of_nonDigit hc (hdigits c hmem)⟩

lemma buildIdentifier_iff : BuildIdentifier s ↔ s ≠ [] ∧ ∀ c ∈ s, IdentifierCharacter c := by
  constructor
  · rintro (h | h)
    · exact ⟨h.spec.1, h.spec.2.1⟩
    · exact ⟨cons_ne_nil _ _, fun c hc => .inl (h c hc)⟩
  · rintro ⟨hne, hall⟩
    obtain hdigits | halpha := digits_or_alphanumeric hall
    · obtain ⟨c, rest, rfl⟩ := exists_cons_of_ne_nil hne
      exact .digits hdigits
    · exact .alphanumeric halpha

lemma preReleaseIdentifier_iff :
    PreReleaseIdentifier s ↔ s ≠ [] ∧ (∀ c ∈ s, IdentifierCharacter c) ∧
    ((∀ c ∈ s, Digit c) → hasLeadingZero s = false) := by
  constructor
  · rintro (h | h)
    · exact ⟨h.spec.1, h.spec.2.1, fun hdigits => absurd hdigits h.spec.2.2⟩
    · obtain ⟨hne, hdigits, hzero⟩ := numericIdentifier_iff.mp h
      exact ⟨hne, fun c hc => .inl (hdigits c hc), fun _ => hzero⟩
  · rintro ⟨hne, hall, hzero⟩
    obtain hdigits | halpha := digits_or_alphanumeric hall
    · exact .numeric (numericIdentifier_iff.mpr ⟨hne, hdigits, hzero hdigits⟩)
    · exact .alphanumeric halpha

/-- Identifiers that are not empty and have only the characters of identifiers. -/
def Identifiers (P : Octets → Prop) : Prop :=
  ∀ id, P id → id ≠ [] ∧ ∀ c ∈ id, IdentifierCharacter c

lemma identifiers_numeric : Identifiers NumericIdentifier := by
  intro id h
  obtain ⟨hne, hdigits, -⟩ := numericIdentifier_iff.mp h
  exact ⟨hne, fun c hc => .inl (hdigits c hc)⟩

/-- The identifiers that the grammar has in a part of a version. -/
def Context.Identifier : Context → Octets → Prop
  | .buildMetadata => BuildIdentifier
  | .prerelease => PreReleaseIdentifier

lemma identifiers_context (context : Context) : Identifiers context.Identifier := by
  intro id h
  cases context with
  | buildMetadata => exact buildIdentifier_iff.mp h
  | prerelease =>
    obtain ⟨hne, hall, -⟩ := preReleaseIdentifier_iff.mp h
    exact ⟨hne, hall⟩

namespace DotSeparated

variable {P : Octets → Prop} {s : Octets}

lemma splitOn_of_one (hP : Identifiers P) {id : Octets} (h : P id) : id.splitOn 46 = [id] :=
  splitOn_eq_singleton fun hdot => dot_not_identifierCharacter ((hP id h).2 _ hdot)

lemma of_parts {parts : List Octets} (hne : parts ≠ []) (h : ∀ part ∈ parts, P part) :
    DotSeparated P ([46].intercalate parts) := by
  induction parts with
  | nil => contradiction
  | cons part rest ih =>
    obtain ⟨hpart, hrest⟩ := forall_mem_cons.mp h
    cases rest with
    | nil => simpa using one hpart
    | cons =>
      exact more hpart (ih (cons_ne_nil _ _) hrest)

lemma iff_splitOn (hP : Identifiers P) : DotSeparated P s ↔ ∀ part ∈ s.splitOn 46, P part := by
  constructor
  · intro h
    induction h with
    | one h => simpa [splitOn_of_one hP h] using h
    | more h hrest ih =>
      rw [splitOn_append_cons_self, splitOn_of_one hP h]
      exact forall_mem_cons.mpr ⟨h, ih⟩
  · intro h
    have hparts := of_parts (splitOn_ne_nil 46 s) h
    rwa [intercalate_splitOn] at hparts

lemma ne_nil (hP : Identifiers P) (h : DotSeparated P s) : s ≠ [] := by
  cases h with
  | one h => exact (hP _ h).1
  | more => simp

lemma mem (hP : Identifiers P) (h : DotSeparated P s) {c : UInt8} (hc : c ∈ s) :
    IdentifierCharacter c ∨ c = 46 := by
  induction h with
  | one h => exact .inl ((hP _ h).2 c hc)
  | more h hrest ih =>
    obtain hid | hc := mem_append.mp hc
    · exact .inl ((hP _ h).2 c hid)
    · obtain rfl | hc := mem_cons.mp hc
      · exact .inr rfl
      · exact ih hc

lemma getLast?_ne (hP : Identifiers P) (h : DotSeparated P s) : s.getLast? ≠ some 46 := by
  induction h with
  | one h =>
    intro hlast
    exact dot_not_identifierCharacter ((hP _ h).2 _ (mem_of_getLast? hlast))
  | more h hrest =>
    rwa [getLast?_append_cons, getLast?_cons_of_ne_nil (ne_nil hP hrest)]

end DotSeparated

lemma validatePart_ok_iff {part : Octets} :
    validatePart str context part = .ok () ↔ context.Identifier part := by
  by_cases hempty : part = []
  · simp only [validatePart, hempty, isEmpty_nil, if_true, reduceCtorEq, false_iff]
    exact fun h => (identifiers_context context [] h).1 rfl
  rw [validatePart, if_neg (by simpa using hempty)]
  by_cases hvalid : isValidIdentifier part true = true
  · rw [if_neg (by simp [hvalid])]
    have hall := (isValidIdentifier_iff.mp hvalid).2
    cases context with
    | buildMetadata =>
      simpa [Context.Identifier, buildIdentifier_iff, hempty] using hall
    | prerelease =>
      rw [Context.Identifier, preReleaseIdentifier_iff, ← all_isDigit_iff]
      cases part.all isDigit <;> cases hasLeadingZero part <;> simp [hempty] <;> exact hall
  · simp only [hvalid, Bool.not_false, if_true, reduceCtorEq, false_iff]
    intro h
    have := isValidIdentifier_iff.mpr (identifiers_context context part h)
    simp [hvalid] at this

lemma validateParts_ok_iff {parts : List Octets} :
    validateParts str context parts = .ok () ↔ ∀ part ∈ parts, context.Identifier part := by
  induction parts with
  | nil => simp [validateParts]
  | cons part rest ih =>
    rw [validateParts, bind_eq_ok_iff, forall_mem_cons, ih]
    constructor
    · rintro ⟨_, hpart, hrest⟩
      exact ⟨validatePart_ok_iff.mp hpart, hrest⟩
    · rintro ⟨hpart, hrest⟩
      exact ⟨(), validatePart_ok_iff.mpr hpart, hrest⟩

lemma validate_ok_iff : validate str context = .ok () ↔ DotSeparated context.Identifier str := by
  rw [validate]
  split
  next hempty =>
    simp only [List.isEmpty_iff] at hempty
    simp only [reduceCtorEq, false_iff]
    exact fun h => h.ne_nil (identifiers_context context) hempty
  next => rw [validateParts_ok_iff, DotSeparated.iff_splitOn (identifiers_context context)]

lemma extract_ok_iff {sep : UInt8} {emptyMessage core rest part : Octets} :
    extract sep emptyMessage context core = .ok (rest, part) ↔
    ∃ found : Option Octets, core = rest ++ optional sep found ∧ sep ∉ rest ∧
    (∀ s ∈ found, DotSeparated context.Identifier s) ∧ part = found.getD [] := by
  constructor
  · intro h
    rw [extract] at h
    split at h
    next hnone =>
      obtain ⟨rfl, rfl⟩ := Prod.mk.inj (Except.ok.inj h)
      exact ⟨none, by simp [optional], cutAt_eq_none_iff.mp hnone, by simp, rfl⟩
    next before behind hsome =>
      obtain ⟨-, hbehind⟩ := guard_eq_ok h
      obtain ⟨_, hvalid, hpair⟩ := bind_eq_ok_iff.mp hbehind
      obtain ⟨rfl, rfl⟩ := Prod.mk.inj (Except.ok.inj hpair)
      obtain ⟨hcore, hsep⟩ := cutAt_eq_some_iff.mp hsome
      refine ⟨some behind, hcore, hsep, ?_, rfl⟩
      rintro s ⟨⟩
      exact validate_ok_iff.mp hvalid
  · rintro ⟨found, rfl, hsep, hfound, rfl⟩
    cases found with
    | none => simp [extract, optional, cutAt_eq_none_iff.mpr hsep]
    | some behind =>
      have hbehind := hfound behind rfl
      have hne := hbehind.ne_nil (identifiers_context context)
      simp [extract, optional, cutAt_append_cons hsep, hne, validate_ok_iff.mpr hbehind]

lemma out_of_range_iff :
    erange platform s = true ∨ intMax < strtol platform s ↔ intMax < decimal s := by
  have hmax := platform.intMax_le
  simp only [erange, strtol, decide_eq_true_eq]
  omega

lemma strtol_of_le (h : decimal s ≤ intMax) : strtol platform s = decimal s :=
  min_eq_left (h.trans platform.intMax_le)

lemma parseInt_ok_iff {n : Int} :
    parseInt platform s = .ok n ↔ NumericIdentifier s ∧ decimal s ≤ intMax ∧ n = decimal s := by
  rw [parseInt, numericIdentifier_iff, ← all_isDigit_iff]
  simp only [Bool.or_eq_true, decide_eq_true_eq, out_of_range_iff]
  constructor
  · intro h
    obtain ⟨hdigits, h⟩ := guard_eq_ok h
    obtain ⟨hzero, h⟩ := guard_eq_ok h
    obtain ⟨hrange, h⟩ := guard_eq_ok h
    have hle := not_lt.mp hrange
    rw [strtol_of_le hle] at h
    refine ⟨?_, hle, (Except.ok.inj h).symm⟩
    simpa [and_assoc] using And.intro hdigits hzero
  · rintro ⟨⟨hne, hdigits, hzero⟩, hle, rfl⟩
    rw [if_neg (by simp [hne, hdigits]), if_neg (by simp [hzero]), if_neg (not_lt.mpr hle),
      strtol_of_le hle]

lemma splitOn_eq_three_iff {a b c : Octets} :
    s.splitOn 46 = [a, b, c] ↔ s = a ++ 46 :: b ++ 46 :: c ∧ 46 ∉ a ∧ 46 ∉ b ∧ 46 ∉ c := by
  constructor
  · intro h
    have hparts : ∀ part ∈ [a, b, c], 46 ∉ part := fun part hpart =>
      sep_not_mem_of_mem_splitOn (h ▸ hpart)
    refine ⟨?_, by simpa using hparts⟩
    calc
      s = [46].intercalate (s.splitOn 46) := (intercalate_splitOn 46).symm
      _ = [46].intercalate [a, b, c] := by rw [h]
      _ = a ++ 46 :: b ++ 46 :: c := by simp [intercalate_cons_cons]
  · rintro ⟨rfl, ha, hb, hc⟩
    rw [append_assoc, cons_append, splitOn_append_cons_self,
      splitOn_append_cons_self, splitOn_eq_singleton ha, splitOn_eq_singleton hb,
      splitOn_eq_singleton hc]
    rfl

lemma NumericIdentifier.dot_not_mem (h : NumericIdentifier s) : 46 ∉ s :=
  fun hmem => dot_not_identifierCharacter ((identifiers_numeric s h).2 46 hmem)

lemma parseCore_ok_iff {core prerelease build : Octets} {v : Version} :
    parseCore platform core prerelease build = .ok v ↔
    ∃ major minor patch, core = major ++ 46 :: minor ++ 46 :: patch ∧
    (NumericIdentifier major ∧ NumericIdentifier minor ∧ NumericIdentifier patch) ∧
    (decimal major ≤ intMax ∧ decimal minor ≤ intMax ∧ decimal patch ≤ intMax) ∧
    v = ⟨decimal major, decimal minor, decimal patch, prerelease, build⟩ := by
  constructor
  · intro h
    rw [parseCore] at h
    split at h
    next first second third hsplit =>
      obtain ⟨major, hmajor, h⟩ := bind_eq_ok_iff.mp h
      obtain ⟨minor, hminor, h⟩ := bind_eq_ok_iff.mp h
      obtain ⟨patch, hpatch, h⟩ := bind_eq_ok_iff.mp h
      obtain ⟨hfirst, hfirstLe, rfl⟩ := parseInt_ok_iff.mp hmajor
      obtain ⟨hsecond, hsecondLe, rfl⟩ := parseInt_ok_iff.mp hminor
      obtain ⟨hthird, hthirdLe, rfl⟩ := parseInt_ok_iff.mp hpatch
      exact ⟨first, second, third, (splitOn_eq_three_iff.mp hsplit).1, ⟨hfirst, hsecond, hthird⟩,
        ⟨hfirstLe, hsecondLe, hthirdLe⟩, (Except.ok.inj h).symm⟩
    next => cases h
  · rintro ⟨major, minor, patch, rfl, ⟨hmajor, hminor, hpatch⟩, ⟨hmajorLe, hminorLe, hpatchLe⟩, rfl⟩
    have hsplit := splitOn_eq_three_iff.mpr
      ⟨rfl, hmajor.dot_not_mem, hminor.dot_not_mem, hpatch.dot_not_mem⟩
    simp only [parseCore, hsplit, parseInt_ok_iff.mpr ⟨hmajor, hmajorLe, rfl⟩,
      parseInt_ok_iff.mpr ⟨hminor, hminorLe, rfl⟩, parseInt_ok_iff.mpr ⟨hpatch, hpatchLe, rfl⟩,
      ok_bind]
    exact if_neg (by omega)

namespace Parts

variable {p : Parts}

section
variable (h : p.Valid)
include h

lemma Valid.core : DotSeparated NumericIdentifier p.core := by
  have hrest : DotSeparated NumericIdentifier (p.minor ++ 46 :: p.patch) :=
    .more h.minor (.one h.patch)
  simpa [Parts.core] using DotSeparated.more h.major hrest

lemma Valid.mem_core {c : UInt8} (hc : c ∈ p.core) : Digit c ∨ c = 46 := by
  have hdigit : ∀ s, NumericIdentifier s → c ∈ s → Digit c := fun s hs =>
    (numericIdentifier_iff.mp hs).2.1 c
  simp only [Parts.core, mem_append, mem_cons] at hc
  obtain ((hc | hc | hc) | hc | hc) := hc
  · exact .inl (hdigit _ h.major hc)
  · exact .inr hc
  · exact .inl (hdigit _ h.minor hc)
  · exact .inr hc
  · exact .inl (hdigit _ h.patch hc)

lemma Valid.hyphen_not_mem : 45 ∉ p.core := by
  intro hmem
  obtain hdigit | hdot := h.mem_core hmem
  · exact not_digit_of_nonDigit (.inr (.inr rfl)) hdigit
  · cases hdot

lemma Valid.plus_not_mem : 43 ∉ p.core ++ optional 45 p.preRelease := by
  have hplus : ¬ (IdentifierCharacter 43 ∨ (43 : UInt8) = 46) := by
    simp only [IdentifierCharacter, NonDigit, Digit]
    decide
  intro hmem
  obtain hcore | hpre := mem_append.mp hmem
  · exact hplus ((h.mem_core hcore).imp_left .inl)
  · cases hp : p.preRelease with
    | none => simp [hp, optional] at hpre
    | some pre =>
      rw [hp, optional, mem_cons] at hpre
      exact hplus ((h.preRelease pre hp).mem (identifiers_context .prerelease)
        (hpre.resolve_left (by decide)))

lemma Valid.text_ne_nil : p.text ≠ [] := by
  simp [text, h.core.ne_nil identifiers_numeric]

lemma Valid.head?_ne : p.text.head? ≠ some 46 := by
  obtain ⟨c, rest, hmajor⟩ := exists_cons_of_ne_nil (numericIdentifier_iff.mp h.major).1
  have hdot := h.major.dot_not_mem
  simp only [hmajor, mem_cons, not_or] at hdot
  simpa [text, Parts.core, hmajor] using Ne.symm hdot.1

lemma Valid.getLast?_ne : p.text.getLast? ≠ some 46 := by
  cases hbuild : p.build with
  | some build =>
    have hs := h.build build hbuild
    rw [text, hbuild, optional, getLast?_append_cons,
      getLast?_cons_of_ne_nil (hs.ne_nil (identifiers_context .buildMetadata))]
    exact hs.getLast?_ne (identifiers_context .buildMetadata)
  | none =>
    cases hpre : p.preRelease with
    | some pre =>
      have hs := h.preRelease pre hpre
      rw [text, hbuild, hpre, optional, optional, append_nil, getLast?_append_cons,
        getLast?_cons_of_ne_nil (hs.ne_nil (identifiers_context .prerelease))]
      exact hs.getLast?_ne (identifiers_context .prerelease)
    | none =>
      rw [text, hbuild, hpre, optional, optional, append_nil, append_nil]
      exact h.core.getLast?_ne identifiers_numeric

end

end Parts

lemma parse_ok_iff {text : Octets} {v : Version} :
    parse platform text = .ok v ↔ ∃ p : Parts, p.Reads text ∧ p.version = v := by
  constructor
  · intro h
    obtain ⟨-, h⟩ := guard_eq_ok h
    obtain ⟨-, h⟩ := guard_eq_ok h
    obtain ⟨⟨rest, build⟩, hbuild, h⟩ := bind_eq_ok_iff.mp h
    obtain ⟨⟨core, pre⟩, hpre, h⟩ := bind_eq_ok_iff.mp h
    obtain ⟨build?, rfl, -, hbuildValid, rfl⟩ := extract_ok_iff.mp hbuild
    obtain ⟨pre?, rfl, -, hpreValid, rfl⟩ := extract_ok_iff.mp hpre
    obtain ⟨major, minor, patch, rfl, ⟨hmajor, hminor, hpatch⟩, hfits, rfl⟩ :=
      parseCore_ok_iff.mp h
    exact ⟨⟨major, minor, patch, pre?, build?⟩,
      ⟨⟨hmajor, hminor, hpatch, hpreValid, hbuildValid⟩, hfits, rfl⟩, rfl⟩
  · rintro ⟨p, ⟨hvalid, hfits, rfl⟩, rfl⟩
    have hbuild : extract 43 (ascii "Empty build metadata after '+'") .buildMetadata p.text =
        .ok (p.core ++ optional 45 p.preRelease, p.build.getD []) :=
      extract_ok_iff.mpr ⟨p.build, rfl, hvalid.plus_not_mem, hvalid.build, rfl⟩
    have hpre : extract 45 (ascii "Empty prerelease after '-'") .prerelease
        (p.core ++ optional 45 p.preRelease) = .ok (p.core, p.preRelease.getD []) :=
      extract_ok_iff.mpr ⟨p.preRelease, rfl, hvalid.hyphen_not_mem, hvalid.preRelease, rfl⟩
    have hcore : parseCore platform p.core (p.preRelease.getD []) (p.build.getD []) =
        .ok p.version :=
      parseCore_ok_iff.mpr
        ⟨p.major, p.minor, p.patch, rfl, ⟨hvalid.major, hvalid.minor, hvalid.patch⟩, hfits, rfl⟩
    rw [parse, if_neg (by simpa using hvalid.text_ne_nil),
      if_neg (not_or.mpr ⟨hvalid.head?_ne, hvalid.getLast?_ne⟩), hbuild, ok_bind]
    dsimp only
    rw [hpre]
    exact hcore

/-- `parse` takes exactly the versions of the grammar whose numbers fit, and returns what the
grammar has in them. -/
theorem parse_exact (platform : Platform) (text : Octets) :
    ((∃ v, parse platform text = .ok v) ↔ ∃ p : Parts, p.Reads text) ∧
      ∀ p : Parts, p.Reads text → parse platform text = .ok p.version := by
  refine ⟨⟨?_, ?_⟩, fun p hp => parse_ok_iff.mpr ⟨p, hp, rfl⟩⟩
  · rintro ⟨v, hv⟩
    obtain ⟨p, hp, -⟩ := parse_ok_iff.mp hv
    exact ⟨p, hp⟩
  · rintro ⟨p, hp⟩
    exact ⟨p.version, parse_ok_iff.mpr ⟨p, hp, rfl⟩⟩

end Millennium.Util.Semver
