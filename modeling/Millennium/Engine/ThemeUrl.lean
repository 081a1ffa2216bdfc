import Millennium.Lib.LexicalPath

/-!
# Files behind theme URLs

A page may ask for `https://millennium.host/v1/themes/…`. What follows the prefix is cut at the
query, then decoded, then joined to the themes folder, so that an escaped slash or dot is one in the
path.
-/

namespace Millennium.Engine

open LexicalPath LexPath

def themesUrl : List Char := "https://millennium.host/v1/themes/".toList

def ftpUrls : List (List Char) :=
  ["https://millennium.ftp/".toList, themesUrl, "https://js.millennium.app/".toList,
    "https://css.millennium.app/".toList, "https://pseudo.millennium.app/".toList]

def splitFirst (needle : List Char) : List Char → Option (List Char × List Char)
  | [] => if needle = [] then some ([], []) else none
  | c :: rest =>
    if needle <+: c :: rest then some ([], (c :: rest).drop needle.length)
    else (splitFirst needle rest).map fun (before, after) => (c :: before, after)

def isXDigit (c : Char) : Bool :=
  ('0' ≤ c ∧ c ≤ '9') ∨ ('a' ≤ c ∧ c ≤ 'f') ∨ ('A' ≤ c ∧ c ≤ 'F')

def hexValue (c : Char) : Nat :=
  if c ≤ '9' then c.toNat - '0'.toNat
  else if c ≤ 'F' then c.toNat - 'A'.toNat + 10
  else c.toNat - 'a'.toNat + 10

/-- `decode_url`. A percent sign without two digits behind it is dropped. -/
def decodeUrl : List Char → List Char
  | [] => []
  | '%' :: a :: b :: rest =>
    if isXDigit a ∧ isXDigit b then Char.ofNat (16 * hexValue a + hexValue b) :: decodeUrl rest
    else decodeUrl (a :: b :: rest)
  | '%' :: rest => decodeUrl rest
  | '+' :: rest => ' ' :: decodeUrl rest
  | c :: rest => c :: decodeUrl rest

def cutQuery (s : List Char) : List Char := s.takeWhile (· ≠ '?')

def getPathFromUrl (path : List Char) : List Char := '/' :: decodeUrl (cutQuery path)

def themesFolder (millennium : List Char) : List Char := joinText millennium "themes".toList

def pathFromUrl (millennium requestUrl : List Char) : List Char :=
  match splitFirst themesUrl requestUrl with
  | some (_, rest) => joinText (themesFolder millennium) (decodeUrl (cutQuery rest))
  | none =>
    match ftpUrls.findSome? fun addr => splitFirst addr requestUrl with
    | some (before, after) => getPathFromUrl (before ++ after)
    | none => getPathFromUrl requestUrl

def ThemeUrlServed (millennium requestUrl : List Char) : Prop :=
  themesUrl <:+: requestUrl →
    (ofText (themesFolder millennium)).location.Inside
      (ofText (pathFromUrl millennium requestUrl)).location

def ThemeUrlStays (millennium requestUrl : List Char) : Prop :=
  ∀ before rest, splitFirst themesUrl requestUrl = some (before, rest) →
    (ofText (decodeUrl (cutQuery rest))).Reaches
      (ofText (themesFolder millennium)).location

lemma splitFirst_of_infix {needle text : List Char} (h : needle <:+: text) :
    ∃ before after, splitFirst needle text = some (before, after) := by
  induction text with
  | nil =>
    rw [splitFirst, if_pos (List.infix_nil.mp h)]
    exact ⟨_, _, rfl⟩
  | cons c rest ih =>
    rw [splitFirst]
    split_ifs with hprefix
    · exact ⟨_, _, rfl⟩
    · obtain ⟨before, after, heq⟩ := ih ((List.infix_cons_iff.mp h).resolve_left hprefix)
      exact ⟨c :: before, after, by rw [heq]; rfl⟩

lemma splitFirst_eq_some {needle text before after : List Char}
    (h : splitFirst needle text = some (before, after)) : text = before ++ needle ++ after := by
  induction text generalizing before with
  | nil =>
    rw [splitFirst] at h
    split_ifs at h with hnil
    cases h
    simp [hnil]
  | cons c rest ih =>
    rw [splitFirst] at h
    split_ifs at h with hprefix
    · cases h
      exact (List.prefix_iff_eq_append.mp hprefix).symm
    · obtain ⟨⟨before', after'⟩, hrest, heq⟩ := Option.map_eq_some_iff.mp h
      cases heq
      rw [ih hrest]
      rfl

/-- A theme URL is served from the themes folder exactly when what it names stays there. -/
theorem theme_url_served_iff (millennium requestUrl : List Char) :
    ThemeUrlServed millennium requestUrl ↔ ThemeUrlStays millennium requestUrl := by
  have hpath {before rest : List Char}
      (h : splitFirst themesUrl requestUrl = some (before, rest)) :
      (ofText (themesFolder millennium)).location.Inside
          (ofText (pathFromUrl millennium requestUrl)).location ↔
        (ofText (decodeUrl (cutQuery rest))).Reaches
          (ofText (themesFolder millennium)).location := by
    rw [pathFromUrl, h]
    rw [ofText_joinText]
    exact inside_join_iff
  constructor
  · intro hserved before rest h
    have hinfix : themesUrl <:+: requestUrl := ⟨before, rest, (splitFirst_eq_some h).symm⟩
    exact (hpath h).mp (hserved hinfix)
  · intro hstays hinfix
    obtain ⟨before, rest, h⟩ := splitFirst_of_infix hinfix
    exact (hpath h).mpr (hstays before rest h)

/-- An escaped slash behind `..` leads out of the themes folder. -/
theorem escapedParent_not_served :
    ¬ ThemeUrlServed "/m".toList "https://millennium.host/v1/themes/..%2Fx".toList := by
  intro hserved
  obtain ⟨-, q, hq, -⟩ := hserved ⟨[], "..%2Fx".toList, by decide⟩
  have hsuffix : ["themes".toList, "m".toList] <:+ ["x".toList, "m".toList] :=
    ⟨q, hq.symm.trans (by decide)⟩
  exact absurd hsuffix (by decide)

end Millennium.Engine
