import Millennium.Lib.ThreeWay
import Millennium.Util.Semver

/-!
# Comparing versions

`semver::cmp` compares numbers and then pre-releases, identifier by identifier. Where it returns, it
gives the order of precedence, written here as a lexicographic order.
-/

namespace Millennium.Util.Semver

open Bytes Outcome ThreeWay List Except

/-- One turn of the loop of `cmp_pre_release`; the loop goes on after zero. -/
def cmpIdentifier (platform : Platform) (p1 p2 : Octets) : Except Octets Int :=
  if p1.isEmpty || p2.isEmpty then .error (ascii "Empty prerelease identifier encountered")
  else if p1.all isDigit && p2.all isDigit then
    -- the error that is thrown first is caught in the same turn
    if (erange platform p1 || erange platform p2) ||
        (decide (intMax < strtol platform p1) || decide (intMax < strtol platform p2)) then
      .error (ascii "Invalid numeric prerelease identifier")
    else .ok (threeWay (strtol platform p1) (strtol platform p2))
  else if p1.all isDigit then .ok (-1)
  else if p2.all isDigit then .ok 1
  -- texts are compared by the values of their octets
  else .ok (threeWay (p1.map UInt8.toNat) (p2.map UInt8.toNat))

def cmpIdentifiers (platform : Platform) : List Octets → List Octets → Except Octets Int
  | p1 :: parts1, p2 :: parts2 => do
    let order ← cmpIdentifier platform p1 p2
    if order = 0 then cmpIdentifiers platform parts1 parts2 else .ok order
  | parts1, parts2 => .ok (threeWay parts1.length parts2.length)

def cmpPreRelease (platform : Platform) (pre1 pre2 : Octets) : Except Octets Int :=
  if pre1.isEmpty && pre2.isEmpty then .ok 0
  else if pre1.isEmpty then .ok 1
  else if pre2.isEmpty then .ok (-1)
  else cmpIdentifiers platform (pre1.splitOn 46) (pre2.splitOn 46)

def cmpVersion (platform : Platform) (ver1 ver2 : Version) : Except Octets Int :=
  if ver1.major ≠ ver2.major then .ok (threeWay ver1.major ver2.major)
  else if ver1.minor ≠ ver2.minor then .ok (threeWay ver1.minor ver2.minor)
  else if ver1.patch ≠ ver2.patch then .ok (threeWay ver1.patch ver2.patch)
  else cmpPreRelease platform ver1.prerelease ver2.prerelease

def cmp (platform : Platform) (v1 v2 : Octets) : Except Octets Int :=
  Except.mapError (fun _ => ascii "Invalid semver format") do
    let ver1 ← parse platform v1
    let ver2 ← parse platform v2
    cmpVersion platform ver1 ver2

/-- Identifiers of digits are before the others, and are ordered as numbers. -/
def identifierRank (id : Octets) : ℕ ⊕ₗ List ℕ :=
  if id.all isDigit then Sum.inlₗ (decimal id) else Sum.inrₗ (id.map UInt8.toNat)

/-- A version with a pre-release is before the one without. -/
def preReleaseRank : Option Octets → WithTop (List (ℕ ⊕ₗ List ℕ))
  | none => ⊤
  | some pre => ((pre.splitOn 46).map identifierRank : List (ℕ ⊕ₗ List ℕ))

def Parts.precedence (p : Parts) : ℕ ×ₗ ℕ ×ₗ ℕ ×ₗ WithTop (List (ℕ ⊕ₗ List ℕ)) :=
  toLex (decimal p.major, toLex (decimal p.minor, toLex (decimal p.patch,
    preReleaseRank p.preRelease)))

lemma identifierRank_of_digits {id : Octets} (h : id.all isDigit = true) :
    identifierRank id = Sum.inlₗ (decimal id) := if_pos h

lemma identifierRank_of_not_digits {id : Octets} (h : id.all isDigit = false) :
    identifierRank id = Sum.inrₗ (id.map UInt8.toNat) := if_neg (by simp [h])

variable {platform : Platform}

lemma cmpNumbers_in_range_iff {p1 p2 : Octets} : ¬ ((erange platform p1 || erange platform p2) ||
        (decide (intMax < strtol platform p1) || decide (intMax < strtol platform p2))) = true ↔
    decimal p1 ≤ intMax ∧ decimal p2 ≤ intMax := by
  have h1 := @out_of_range_iff p1 platform
  have h2 := @out_of_range_iff p2 platform
  simp only [Bool.or_eq_true, decide_eq_true_eq]
  rw [or_or_or_comm, h1, h2, not_or, not_lt, not_lt]

lemma cmpIdentifier_ok {p1 p2 : Octets} {r : Int} (h : cmpIdentifier platform p1 p2 = .ok r) :
    r = threeWay (identifierRank p1) (identifierRank p2) := by
  obtain ⟨-, h⟩ := guard_eq_ok h
  cases hp1 : p1.all isDigit with
  | true =>
    rw [identifierRank_of_digits hp1]
    cases hp2 : p2.all isDigit with
    | true =>
      rw [if_pos (by simp [hp1, hp2])] at h
      obtain ⟨hrange, h⟩ := guard_eq_ok h
      obtain ⟨hle1, hle2⟩ := cmpNumbers_in_range_iff.mp hrange
      rw [identifierRank_of_digits hp2, threeWay_image Sum.Lex.inl_strictMono, ← ok.inj h,
        strtol_of_le hle1, strtol_of_le hle2]
    | false =>
      rw [if_neg (by simp [hp2]), if_pos hp1] at h
      rw [identifierRank_of_not_digits hp2]
      exact (ok.inj h).symm
  | false =>
    rw [if_neg (by simp [hp1]), if_neg (by simp [hp1])] at h
    rw [identifierRank_of_not_digits hp1]
    cases hp2 : p2.all isDigit with
    | true =>
      rw [if_pos hp2] at h
      rw [identifierRank_of_digits hp2]
      exact (ok.inj h).symm
    | false =>
      rw [if_neg (by simp [hp2])] at h
      rw [identifierRank_of_not_digits hp2, threeWay_image Sum.Lex.inr_strictMono]
      exact (ok.inj h).symm

lemma cmpIdentifiers_ok {parts1 parts2 : List Octets} {r : Int}
    (h : cmpIdentifiers platform parts1 parts2 = .ok r) :
    r = threeWay (parts1.map identifierRank) (parts2.map identifierRank) := by
  induction parts1 generalizing parts2 with
  | nil =>
    cases parts2 with
    | nil => exact (ok.inj h).symm
    | cons =>
      rw [map_cons, map_nil, ← ok.inj h]
      exact threeWay_of_lt (by simp)
  | cons p1 parts1 ih =>
    cases parts2 with
    | nil =>
      rw [map_cons, map_nil, ← ok.inj h]
      exact threeWay_of_gt (by simp)
    | cons =>
      obtain ⟨order, horder, h⟩ := bind_eq_ok_iff.mp h
      rw [map_cons, map_cons, threeWay_cons, ← cmpIdentifier_ok horder]
      by_cases hzero : order = 0
      · rw [if_pos hzero] at h ⊢
        exact ih h
      · rw [if_neg hzero] at h ⊢
        exact (ok.inj h).symm

lemma cmpPreRelease_ok {pre1 pre2 : Option Octets} {r : Int} (hne1 : pre1 ≠ some [])
    (hne2 : pre2 ≠ some []) (h : cmpPreRelease platform (pre1.getD []) (pre2.getD []) = .ok r) :
    r = threeWay (preReleaseRank pre1) (preReleaseRank pre2) := by
  cases pre1 with
  | none =>
    cases pre2 with
    | none => exact (ok.inj h).symm
    | some pre2 =>
      have hpre2 : pre2 ≠ [] := fun heq => hne2 (congrArg some heq)
      rw [cmpPreRelease, if_neg (by simpa using hpre2)] at h
      exact (ok.inj h).symm
  | some pre1 =>
    have hpre1 : pre1 ≠ [] := fun heq => hne1 (congrArg some heq)
    rw [cmpPreRelease, if_neg (by simp [hpre1]), if_neg (by simpa using hpre1)] at h
    cases pre2 with
    | none =>
      exact (ok.inj h).symm
    | some pre2 =>
      have hpre2 : pre2 ≠ [] := fun heq => hne2 (congrArg some heq)
      rw [if_neg (by simpa using hpre2)] at h
      rw [preReleaseRank, preReleaseRank, threeWay_image WithTop.coe_strictMono]
      exact cmpIdentifiers_ok h

def Antisymmetric {α : Type*} (compare : α → α → Except Octets Int) : Prop :=
  ∀ a b, compare b a = (compare a b).map (- ·)

lemma cmpIdentifier_antisymmetric : Antisymmetric (cmpIdentifier platform) := by
  intro p1 p2
  by_cases hempty : (p1.isEmpty || p2.isEmpty) = true
  · rw [cmpIdentifier, cmpIdentifier, if_pos hempty, if_pos (by rwa [Bool.or_comm])]
    rfl
  rw [cmpIdentifier, cmpIdentifier, if_neg hempty, if_neg (by rwa [Bool.or_comm]),
    Bool.and_comm (p2.all isDigit)]
  by_cases hboth : (p1.all isDigit && p2.all isDigit) = true
  · rw [if_pos hboth, Bool.or_comm (erange platform p2),
      Bool.or_comm (decide (intMax < strtol platform p2))]
    split
    · rfl
    · rw [threeWay_swap]
      rfl
  · cases hp1 : p1.all isDigit <;> cases hp2 : p2.all isDigit
    · simp [Except.map, threeWay_swap (p1.map UInt8.toNat)]
    · rfl
    · rfl
    · simp [hp1, hp2] at hboth

lemma cmpIdentifiers_antisymmetric : Antisymmetric (cmpIdentifiers platform) := by
  intro parts1 parts2
  induction parts1 generalizing parts2 with
  | nil =>
    cases parts2 with
    | nil => rfl
    | cons =>
      · rfl
  | cons p1 parts1 ih =>
    cases parts2 with
    | nil =>
      rw [cmpIdentifiers]
      · rfl
      all_goals simp
    | cons p2 parts2 =>
      rw [cmpIdentifiers, cmpIdentifiers, cmpIdentifier_antisymmetric p1 p2]
      cases cmpIdentifier platform p1 p2 with
      | error => rfl
      | ok order =>
        rw [Except.map, ok_bind, ok_bind]
        by_cases hzero : order = 0
        · rw [if_pos hzero, if_pos (by simpa using hzero)]
          exact ih parts2
        · rw [if_neg hzero, if_neg (by simpa using hzero)]
          rfl

lemma cmpPreRelease_antisymmetric : Antisymmetric (cmpPreRelease platform) := by
  intro pre1 pre2
  rw [cmpPreRelease, cmpPreRelease]
  cases hpre1 : pre1.isEmpty <;> cases hpre2 : pre2.isEmpty
  · exact cmpIdentifiers_antisymmetric _ _
  · rfl
  · rfl
  · rfl

lemma unless_ne_antisymmetric {a b : Int} {x y : Except Octets Int} (h : y = x.map (- ·)) :
    (if b ≠ a then .ok (threeWay b a) else y) =
      (if a ≠ b then .ok (threeWay a b) else x).map (- ·) := by
  by_cases heq : a = b
  · rw [if_neg (not_not.mpr heq), if_neg (not_not.mpr heq.symm), h]
  · rw [if_pos heq, if_pos (Ne.symm heq), threeWay_swap]
    rfl

lemma cmpVersion_antisymmetric : Antisymmetric (cmpVersion platform) := fun _ _ =>
  unless_ne_antisymmetric (unless_ne_antisymmetric (unless_ne_antisymmetric
    (cmpPreRelease_antisymmetric _ _)))

lemma cmp_antisymmetric : Antisymmetric (cmp platform) := by
  intro v1 v2
  rw [cmp, cmp]
  cases parse platform v1 with
  | error => cases parse platform v2 <;> rfl
  | ok ver1 =>
    cases parse platform v2 with
    | error => rfl
    | ok ver2 =>
      simp only [ok_bind]
      rw [cmpVersion_antisymmetric]
      cases cmpVersion platform ver1 ver2 <;> rfl

lemma unless_ne_ok {β : Type*} [LinearOrder β] {m n : ℕ} {k k' : β} {x : Except Octets Int}
    {r : Int} (h : (if (m : Int) ≠ n then .ok (threeWay (m : Int) n) else x) = .ok r)
    (hx : x = .ok r → r = threeWay k k') :
    r = threeWay (toLex (m, k)) (toLex (n, k')) := by
  rw [threeWay_pair]
  by_cases heq : m = n
  · rw [if_neg (by simp [heq])] at h
    rw [if_pos (threeWay_eq_zero_iff.mpr heq)]
    exact hx h
  · rw [if_pos (by exact_mod_cast heq)] at h
    rw [if_neg (mt threeWay_eq_zero_iff.mp heq), ← ok.inj h]
    exact threeWay_image Int.natCast_strictMono m n

lemma Parts.Valid.preRelease_ne {p : Parts} (h : p.Valid) : p.preRelease ≠ some [] := by
  intro heq
  exact (h.preRelease [] heq).ne_nil (identifiers_context .prerelease) rfl

lemma getD_nil_injective {pre1 pre2 : Option Octets} (hne1 : pre1 ≠ some [])
    (hne2 : pre2 ≠ some []) (h : pre1.getD [] = pre2.getD []) : pre1 = pre2 := by
  cases pre1 with
  | none =>
    cases pre2 with
    | none => rfl
    | some => exact absurd (congrArg some h.symm) hne2
  | some =>
    cases pre2 with
    | none => exact absurd (congrArg some h) hne1
    | some => exact congrArg some h

lemma cmpVersion_ok {p q : Parts} {r : Int} (hp : p.Valid) (hq : q.Valid)
    (h : cmpVersion platform p.version q.version = .ok r) :
    r = threeWay p.precedence q.precedence :=
  unless_ne_ok h fun h => unless_ne_ok h fun h => unless_ne_ok h fun h =>
    cmpPreRelease_ok hp.preRelease_ne hq.preRelease_ne h

lemma cmp_ok {v1 v2 : Octets} {r : Int} (h : cmp platform v1 v2 = .ok r) :
    ∃ p q : Parts, p.Reads v1 ∧ q.Reads v2 ∧ r = threeWay p.precedence q.precedence := by
  rw [cmp, mapError_eq_ok_iff] at h
  obtain ⟨ver1, hver1, h⟩ := bind_eq_ok_iff.mp h
  obtain ⟨ver2, hver2, h⟩ := bind_eq_ok_iff.mp h
  obtain ⟨p, hp, rfl⟩ := parse_ok_iff.mp hver1
  obtain ⟨q, hq, rfl⟩ := parse_ok_iff.mp hver2
  exact ⟨p, q, hp, hq, cmpVersion_ok hp.valid hq.valid h⟩

lemma Parts.Reads.precedence_eq {p q : Parts} {text : Octets} (hp : p.Reads text)
    (hq : q.Reads text) : p.precedence = q.precedence := by
  have hparse : ∀ o : Parts, o.Reads text → parse ⟨intMax, le_rfl⟩ text = .ok o.version :=
    fun o ho => parse_ok_iff.mpr ⟨o, ho, rfl⟩
  have hversion : p.version = q.version := ok.inj ((hparse p hp).symm.trans (hparse q hq))
  obtain ⟨hmajor, hminor, hpatch, hpre, -⟩ := Version.mk.inj hversion
  rw [precedence, precedence, Int.ofNat.inj hmajor, Int.ofNat.inj hminor, Int.ofNat.inj hpatch,
    getD_nil_injective hp.valid.preRelease_ne hq.valid.preRelease_ne hpre]

lemma cmp_build {p : Parts} {v1 v1' v2 : Octets} (build : Option Octets) (h : p.Reads v1)
    (h' : Parts.Reads { p with build } v1') : cmp platform v1' v2 = cmp platform v1 v2 := by
  rw [cmp, cmp, parse_ok_iff.mpr ⟨p, h, rfl⟩, parse_ok_iff.mpr ⟨_, h', rfl⟩]
  rfl

/-- Where the comparison returns, it returns the order of the two versions. -/
structure ComparesByPrecedence (platform : Platform) : Prop where
  versions : ∀ v1 v2 r, cmp platform v1 v2 = .ok r →
    (∃ p : Parts, p.Reads v1) ∧ ∃ q : Parts, q.Reads v2
  sign : ∀ (p q : Parts) v1 v2 r, p.Reads v1 → q.Reads v2 → cmp platform v1 v2 = .ok r →
    r = threeWay p.precedence q.precedence
  antisymmetric : ∀ v1 v2, cmp platform v2 v1 = (cmp platform v1 v2).map (- ·)
  transitive : ∀ v1 v2 v3 r s t, cmp platform v1 v2 = .ok r → cmp platform v2 v3 = .ok s →
    cmp platform v1 v3 = .ok t → r ≤ 0 → s ≤ 0 → t ≤ 0 ∧ (t = 0 → r = 0 ∧ s = 0)
  build : ∀ (p : Parts) build v1 v1', p.Reads v1 → Parts.Reads { p with build } v1' →
    ∀ v2, cmp platform v1' v2 = cmp platform v1 v2

theorem cmp_comparesByPrecedence (platform : Platform) : ComparesByPrecedence platform where
  versions v1 v2 r h := by
    obtain ⟨p, q, hp, hq, -⟩ := cmp_ok h
    exact ⟨⟨p, hp⟩, q, hq⟩
  sign p q v1 v2 r hp hq h := by
    obtain ⟨p', q', hp', hq', hr⟩ := cmp_ok h
    rw [hr, hp'.precedence_eq hp, hq'.precedence_eq hq]
  antisymmetric := cmp_antisymmetric
  transitive v1 v2 v3 r s t hr hs ht hr0 hs0 := by
    obtain ⟨p, q, hp, hq, rfl⟩ := cmp_ok hr
    obtain ⟨q', o, hq', ho, rfl⟩ := cmp_ok hs
    obtain ⟨p', o', hp', ho', rfl⟩ := cmp_ok ht
    rw [hp'.precedence_eq hp, ho'.precedence_eq ho] at *
    rw [hq'.precedence_eq hq] at *
    simp only [threeWay_nonpos_iff, threeWay_eq_zero_iff] at *
    refine ⟨hr0.trans hs0, fun heq => ?_⟩
    have hqp : q.precedence ≤ p.precedence := heq ▸ hs0
    have hpq := hr0.antisymm hqp
    exact ⟨hpq, hpq ▸ heq⟩
  build p build v1 v1' h h' v2 := cmp_build build h h'

section
variable {platform : Platform}

/-- The numbers that the loop comes to are not too large. -/
def NumbersFit : List Octets → List Octets → Prop
  | p1 :: parts1, p2 :: parts2 =>
    (p1.all isDigit → p2.all isDigit → decimal p1 ≤ intMax ∧ decimal p2 ≤ intMax) ∧
      (identifierRank p1 = identifierRank p2 → NumbersFit parts1 parts2)
  | _, _ => True

/-- If versions differ in their pre-releases only, and both have one, their numbers fit as far as
they are compared. -/
def Comparable (ver1 ver2 : Version) : Prop :=
  ver1.major = ver2.major → ver1.minor = ver2.minor → ver1.patch = ver2.patch →
    ver1.prerelease ≠ [] → ver2.prerelease ≠ [] →
      NumbersFit (ver1.prerelease.splitOn 46) (ver2.prerelease.splitOn 46)

/-- `cmp` throws for texts that `parse` rejects, and only for them. -/
def FailsOnlyOnBad (platform : Platform) (v1 v2 : Octets) : Prop :=
  ¬ (∃ r, cmp platform v1 v2 = .ok r) ↔
    ¬ (∃ ver, parse platform v1 = .ok ver) ∨ ¬ ∃ ver, parse platform v2 = .ok ver

lemma cmpIdentifier_returns_iff {p1 p2 : Octets} (h1 : p1 ≠ []) (h2 : p2 ≠ []) :
    (∃ r, cmpIdentifier platform p1 p2 = .ok r) ↔
    (p1.all isDigit → p2.all isDigit → decimal p1 ≤ intMax ∧ decimal p2 ≤ intMax) := by
  rw [cmpIdentifier, if_neg (by simp [h1, h2])]
  by_cases hdigits : (p1.all isDigit && p2.all isDigit) = true
  · obtain ⟨hd1, hd2⟩ := Bool.and_eq_true_iff.mp hdigits
    rw [if_pos hdigits, ← @cmpNumbers_in_range_iff platform]
    split_ifs with hrange <;> simp [hrange, hd1, hd2]
  · have hone : p1.all isDigit → p2.all isDigit → decimal p1 ≤ intMax ∧ decimal p2 ≤ intMax :=
      fun hd1 hd2 => absurd (by rw [hd1, hd2]; rfl) hdigits
    rw [if_neg hdigits]
    split_ifs <;> exact iff_of_true ⟨_, rfl⟩ hone

lemma cmpIdentifiers_returns_iff {parts1 parts2 : List Octets} (h1 : [] ∉ parts1)
    (h2 : [] ∉ parts2) :
    (∃ r, cmpIdentifiers platform parts1 parts2 = .ok r) ↔ NumbersFit parts1 parts2 := by
  induction parts1 generalizing parts2 with
  | nil => exact iff_of_true ⟨_, rfl⟩ trivial
  | cons p1 parts1 ih =>
    cases parts2 with
    | nil => exact iff_of_true ⟨_, rfl⟩ trivial
    | cons p2 parts2 =>
      rw [mem_cons, not_or] at h1 h2
      rw [cmpIdentifiers, NumbersFit, ← cmpIdentifier_returns_iff (Ne.symm h1.1) (Ne.symm h2.1),
        ← ih h1.2 h2.2]
      constructor
      · rintro ⟨r, h⟩
        obtain ⟨order, horder, h⟩ := bind_eq_ok_iff.mp h
        refine ⟨⟨order, horder⟩, fun hrank => ⟨r, ?_⟩⟩
        rwa [if_pos (by rw [cmpIdentifier_ok horder, hrank, threeWay_self])] at h
      · rintro ⟨⟨order, horder⟩, hrest⟩
        rw [horder, ok_bind]
        split_ifs with hzero
        · exact hrest (threeWay_eq_zero_iff.mp (cmpIdentifier_ok horder ▸ hzero))
        · exact ⟨order, rfl⟩

lemma Parts.Valid.nil_not_mem {p : Parts} (h : p.Valid) (hne : p.version.prerelease ≠ []) :
    [] ∉ p.version.prerelease.splitOn 46 := by
  intro hmem
  cases hpre : p.preRelease with
  | none => exact hne (by rw [version, hpre]; rfl)
  | some pre =>
    rw [version, hpre] at hmem
    have hids := (DotSeparated.iff_splitOn (identifiers_context .prerelease)).mp
      (h.preRelease pre hpre)
    exact (identifiers_context .prerelease _ (hids _ hmem)).1 rfl

lemma cmpVersion_returns_iff {p q : Parts} (hp : p.Valid) (hq : q.Valid) :
    (∃ r, cmpVersion platform p.version q.version = .ok r) ↔ Comparable p.version q.version := by
  rw [cmpVersion, Comparable]
  split_ifs with hmajor hminor hpatch
  · exact iff_of_true ⟨_, rfl⟩ fun h => absurd h hmajor
  · exact iff_of_true ⟨_, rfl⟩ fun _ h => absurd h hminor
  · exact iff_of_true ⟨_, rfl⟩ fun _ _ h => absurd h hpatch
  · simp only [not_not.mp hmajor, not_not.mp hminor, not_not.mp hpatch, forall_const]
    by_cases hp0 : p.version.prerelease = []
    · rw [cmpPreRelease, hp0]
      refine iff_of_true ?_ fun h => absurd rfl h
      cases hq0 : q.version.prerelease <;> exact ⟨_, rfl⟩
    by_cases hq0 : q.version.prerelease = []
    · rw [cmpPreRelease, hq0]
      refine iff_of_true ?_ fun _ h => absurd rfl h
      exact ⟨-1, by simp [hp0]⟩
    rw [cmpPreRelease, if_neg (by simp [hp0]), if_neg (by simp [hp0]), if_neg (by simp [hq0]),
      cmpIdentifiers_returns_iff (hp.nil_not_mem hp0) (hq.nil_not_mem hq0)]
    exact ⟨fun h _ _ => h, fun h => h hp0 hq0⟩

lemma cmp_returns_iff {v1 v2 : Octets} {ver1 ver2 : Version} (h1 : parse platform v1 = .ok ver1)
    (h2 : parse platform v2 = .ok ver2) :
    (∃ r, cmp platform v1 v2 = .ok r) ↔ Comparable ver1 ver2 := by
  simp only [cmp, mapError_eq_ok_iff, h1, h2, ok_bind]
  obtain ⟨p, hp, rfl⟩ := parse_ok_iff.mp h1
  obtain ⟨q, hq, rfl⟩ := parse_ok_iff.mp h2
  exact cmpVersion_returns_iff hp.valid hq.valid

end

theorem failsOnlyOnBad_iff (platform : Platform) (v1 v2 : Octets) :
    FailsOnlyOnBad platform v1 v2 ↔ ∀ ver1 ver2, parse platform v1 = .ok ver1 →
      parse platform v2 = .ok ver2 → Comparable ver1 ver2 := by
  rw [FailsOnlyOnBad, ← not_and_or, not_iff_not]
  constructor
  · intro h ver1 ver2 h1 h2
    exact (cmp_returns_iff h1 h2).mp (h.mpr ⟨⟨ver1, h1⟩, ver2, h2⟩)
  · intro h
    constructor
    · rintro ⟨r, hr⟩
      obtain ⟨p, q, hp, hq, -⟩ := cmp_ok hr
      exact ⟨⟨_, parse_ok_iff.mpr ⟨p, hp, rfl⟩⟩, _, parse_ok_iff.mpr ⟨q, hq, rfl⟩⟩
    · rintro ⟨⟨ver1, h1⟩, ver2, h2⟩
      exact (cmp_returns_iff h1 h2).mpr (h ver1 ver2 h1 h2)

/-- The number of a pre-release that does not fit into an `int`. -/
theorem largePreRelease_throws :
    parse ⟨2 ^ 63 - 1, by decide⟩ (ascii "1.0.0-2147483648") =
        .ok ⟨1, 0, 0, ascii "2147483648", []⟩ ∧
      cmp ⟨2 ^ 63 - 1, by decide⟩ (ascii "1.0.0-2147483648") (ascii "1.0.0-2147483648") =
        .error (ascii "Invalid semver format") := by
  decide +kernel

end Millennium.Util.Semver
