import Millennium.Lib.Fields
import Millennium.Lib.Outcome

/-!
# Colours of themes

A colour is kept as `#rrggbb` or `#rrggbbaa` and shown to a theme in another format. On the way
back the alpha value, which is a fraction by then, is read as an integer.
-/

namespace Millennium.Bindings.CssParser

open List

abbrev Text := List Char

inductive ColorType where
  | rawRgb | rgb | rawRgba | rgba | hex | unknown
  deriving DecidableEq

def digitValue (c : Char) : Nat :=
  if '0' ≤ c ∧ c ≤ '9' then c.toNat - '0'.toNat
  else if 'a' ≤ c ∧ c ≤ 'z' then c.toNat - 'a'.toNat + 10
  else if 'A' ≤ c ∧ c ≤ 'Z' then c.toNat - 'A'.toNat + 10
  else 36

/-- `std::stoi` of a text without a sign, or nothing where it throws. -/
def stoi (base : Nat) (s : Text) : Option Nat :=
  let digits := (s.dropWhile (· = ' ')).takeWhile (digitValue · < base)
  let value := digits.foldl (fun n c => n * base + digitValue c) 0
  if digits = [] ∨ 2147483647 < value then none else some value

def decimal (n : Nat) : Text := Nat.toDigits 10 n

def hexPair (n : Nat) : Text := (if n < 16 then ['0'] else []) ++ Nat.toDigits 16 n

/-- The hundredths in `n / 255.0` with `{:.2f}`. No quotient is near to a tie. -/
def hundredths (n : Nat) : Nat := (200 * n + 255) / 510

def fixedText (n : Nat) : Text :=
  decimal (n / 100) ++ '.' :: decimal (n / 10 % 10) ++ decimal (n % 10)

def listed (values : List Text) : Text := [',', ' '].intercalate values

def alphaText (hex : Text) : Option Text :=
  if hex.length = 8 then (stoi 16 ((hex.drop 6).take 2)).map fun n => fixedText (hundredths n)
  else some (fixedText 100)

def convertFromHex (color : Text) (type : ColorType) : Option Text := do
  let hex := if color.head? = some '#' then color.drop 1 else color
  let r ← stoi 16 (hex.take 2)
  let g ← stoi 16 ((hex.drop 2).take 2)
  let b ← stoi 16 ((hex.drop 4).take 2)
  let channels := [decimal r, decimal g, decimal b]
  match type with
  | .rawRgb => some (listed channels)
  | .rgb => some ("rgb(".toList ++ listed channels ++ [')'])
  | .rawRgba => (alphaText hex).map fun a => listed (channels ++ [a])
  | .rgba => (alphaText hex).map fun a => "rgba(".toList ++ listed (channels ++ [a]) ++ [')']
  | .hex => some ('#' :: hex)
  | .unknown => none

def between (color : Text) : Text :=
  let start := if '(' ∈ color then color.idxOf '(' + 1 else 0
  let stop := color.idxOf ')'
  if start ≤ stop then (color.drop start).take (stop - start) else color.drop start

/-- `std::getline` with a comma: nothing comes after the last one of a text. -/
def pieces (s : Text) : List Text :=
  let parts := s.splitOn ','
  if parts.getLast? = some [] then parts.dropLast else parts

def convertToHex (color : Text) (type : ColorType) : Option Text :=
  if type = .hex then some color
  else do
    let valueString := if type = .rgb ∨ type = .rgba then between color else color
    let values ← (pieces valueString).mapM (stoi 10)
    match type, values with
    | .rawRgb, r :: g :: b :: _ | .rgb, r :: g :: b :: _ =>
      some ('#' :: hexPair r ++ hexPair g ++ hexPair b)
    | .rawRgba, r :: g :: b :: a :: _ | .rgba, r :: g :: b :: a :: _ =>
      some ('#' :: hexPair r ++ hexPair g ++ hexPair b ++ hexPair (a * 255))
    | _, _ => none

structure Color where
  r : Fin 256
  g : Fin 256
  b : Fin 256
  alpha : Option (Fin 256)

def Color.text (c : Color) : Text :=
  '#' :: (hexPair c.r ++ hexPair c.g ++ hexPair c.b ++ c.alpha.elim [] (hexPair ·))

def Color.type (c : Color) (raw : Bool) : ColorType :=
  match c.alpha, raw with
  | none, true => .rawRgb
  | none, false => .rgb
  | some _, true => .rawRgba
  | some _, false => .rgba

/-- The alpha value is up to one step from two decimals of the other one. -/
def Near (a back : Fin 256) : Prop :=
  100 * back.val ≤ 255 * hundredths a + 100 ∧ 255 * hundredths a ≤ 100 * back.val + 100

def RoundTrips (c : Color) (raw : Bool) : Prop :=
  ∃ back, Option.Rel Near c.alpha back ∧ (convertFromHex c.text (c.type raw)).bind
    (convertToHex · (c.type raw)) = some { c with alpha := back }.text

/-- What becomes of an alpha value: only the integer part of what was shown is read. -/
def alphaBack (a : Fin 256) : Fin 256 := if 254 ≤ a.val then 255 else 0

lemma hexPair_spec : ∀ n : Fin 256, (hexPair n).length = 2 ∧ stoi 16 (hexPair n) = some n.val := by
  decide +kernel

def Shows (s : Text) (n : Nat) : Prop := stoi 10 s = some n ∧ ',' ∉ s ∧ ')' ∉ s

lemma shows_decimal : ∀ n : Fin 256, Shows (decimal n) n := by
  unfold Shows
  decide +kernel

lemma shows_fixedText : ∀ n : Fin 256, Shows (fixedText (hundredths n)) (hundredths n / 100) ∧
    hundredths n / 100 * 255 = alphaBack n := by
  unfold Shows
  decide +kernel

lemma near_iff : ∀ n : Fin 256, Near n (alphaBack n) ↔ n.val ≤ 1 ∨ 254 ≤ n.val := by
  unfold Near
  decide +kernel

lemma between_eq {name s : Text} (hopen : '(' ∉ name) (hclose : ')' ∉ name) (hs : ')' ∉ s) :
    between (name ++ '(' :: (s ++ [')'])) = s := by
  have hstart : (name ++ '(' :: (s ++ [')'])).idxOf '(' = name.length := by
    rw [idxOf_append_of_notMem hopen]
    simp
  have hstop : (name ++ '(' :: (s ++ [')'])).idxOf ')' = name.length + 1 + s.length := by
    rw [idxOf_append_of_notMem hclose, idxOf_cons_ne _ (by decide), idxOf_append_of_notMem hs]
    simp
    omega
  have hdrop : (name ++ '(' :: (s ++ [')'])).drop (name.length + 1) = s ++ [')'] := by
    rw [drop_length_add_append]
    rfl
  have hmem : '(' ∈ name ++ '(' :: (s ++ [')']) := by simp
  simp only [between, if_pos hmem, hstart, hstop]
  rw [if_pos (by omega), hdrop, Nat.add_sub_cancel_left, take_left]

lemma listed_cons (v : Text) (rest : List Text) :
    listed (v :: rest) = [','].intercalate (v :: rest.map (' ' :: ·)) := by
  induction rest generalizing v with
  | nil => rfl
  | cons w rest ih =>
    rw [listed, intercalate_cons_cons, ← listed, ih, map_cons, intercalate_cons_cons]
    cases rest <;> simp [intercalate]

lemma mapM_listed {v : Text} {rest : List Text} {n : Nat} {ns : List Nat} (hv : Shows v n)
    (hrest : Forall₂ Shows rest ns) :
    (pieces (listed (v :: rest))).mapM (stoi 10) = some (n :: ns) := by
  have hcomma : ∀ w ∈ v :: rest.map (' ' :: ·), ',' ∉ w := by
    rw [forall_mem_cons, forall_mem_map]
    refine ⟨hv.2.1, ?_⟩
    clear hv
    induction hrest with
    | nil => exact forall_mem_nil _
    | cons h _ ih => exact forall_mem_cons.mpr ⟨by simp [h.2.1], ih⟩
  have hsplit : pieces (listed (v :: rest)) = v :: rest.map (' ' :: ·) := by
    rw [pieces, listed_cons, splitOn_intercalate _ hcomma (cons_ne_nil _ _)]
    refine if_neg fun hlast => ?_
    rcases mem_cons.mp (mem_of_getLast? hlast) with rfl | hmem
    · cases hv.1
    · simp at hmem
  rw [hsplit, Outcome.mapM_eq_some_iff]
  exact .cons hv.1 (forall₂_map_left_iff.mpr (hrest.imp fun _ _ h => h.1))

def Color.values (c : Color) : List Text :=
  [decimal c.r, decimal c.g, decimal c.b] ++ (c.alpha.map fun a => fixedText (hundredths a)).toList

lemma convertFromHex_text (c : Color) (raw : Bool) : convertFromHex c.text (c.type raw) =
    some (if raw then listed c.values
      else 'r' :: 'g' :: 'b' :: c.alpha.elim [] (fun _ => ['a']) ++
        '(' :: (listed c.values ++ [')'])) := by
  obtain ⟨hr, hr'⟩ := hexPair_spec c.r
  obtain ⟨hg, hg'⟩ := hexPair_spec c.g
  obtain ⟨hb, hb'⟩ := hexPair_spec c.b
  obtain ⟨r1, r2, hr⟩ := length_eq_two.mp hr
  obtain ⟨g1, g2, hg⟩ := length_eq_two.mp hg
  obtain ⟨b1, b2, hb⟩ := length_eq_two.mp hb
  rw [hr] at hr'
  rw [hg] at hg'
  rw [hb] at hb'
  cases halpha : c.alpha with
  | none =>
    cases raw <;>
      simp [Color.text, Color.type, Color.values, convertFromHex, halpha, hr, hg, hb, hr', hg', hb']
  | some a =>
    obtain ⟨ha, ha'⟩ := hexPair_spec a
    cases raw <;>
      simp [Color.text, Color.type, Color.values, convertFromHex, alphaText, halpha, hr, hg, hb,
        hr', hg', hb', ha, ha', take_of_length_le]

lemma convert_back (c : Color) (raw : Bool) : (convertFromHex c.text (c.type raw)).bind
    (convertToHex · (c.type raw)) = some { c with alpha := c.alpha.map alphaBack }.text := by
  have hr := shows_decimal c.r
  have hg := shows_decimal c.g
  have hb := shows_decimal c.b
  rw [convertFromHex_text, Option.bind_some]
  cases halpha : c.alpha with
  | none =>
    have hvalues := mapM_listed hr (.cons hg (.cons hb .nil))
    have hclose : ')' ∉ listed [decimal c.r, decimal c.g, decimal c.b] := by
      simp [listed, intercalate, hr.2.2, hg.2.2, hb.2.2]
    have hbetween := @between_eq ['r', 'g', 'b'] _ (by decide) (by decide) hclose
    cases raw <;>
      simp_all [Color.type, Color.values, convertToHex, Color.text]
  | some a =>
    obtain ⟨ha, hback⟩ := shows_fixedText a
    have hvalues := mapM_listed hr (.cons hg (.cons hb (.cons ha .nil)))
    have hclose :
        ')' ∉ listed [decimal c.r, decimal c.g, decimal c.b, fixedText (hundredths a)] := by
      simp [listed, intercalate, hr.2.2, hg.2.2, hb.2.2, ha.2.2]
    have hbetween := @between_eq ['r', 'g', 'b', 'a'] _ (by decide) (by decide) hclose
    cases raw <;>
      simp_all [Color.type, Color.values, convertToHex, Color.text]

lemma elim_hexPair_injective {x y : Option (Fin 256)}
    (h : x.elim [] (hexPair ·) = y.elim [] (hexPair ·)) : x = y := by
  have hread : ∀ z : Option (Fin 256), stoi 16 (z.elim [] (hexPair ·)) = z.map Fin.val := by
    intro z
    cases z with
    | none => rfl
    | some n => exact (hexPair_spec n).2
  have hval := congrArg (stoi 16) h
  rw [hread, hread] at hval
  exact Option.map_injective (fun _ _ => Fin.eq_of_val_eq) hval

lemma roundTrips_iff_near (c : Color) (raw : Bool) :
    RoundTrips c raw ↔ ∀ a ∈ c.alpha, Near a (alphaBack a) := by
  have hrel : Option.Rel Near c.alpha (c.alpha.map alphaBack) ↔
      ∀ a ∈ c.alpha, Near a (alphaBack a) := by
    cases c.alpha with
    | none => simp
    | some a => simp
  rw [← hrel]
  constructor
  · rintro ⟨back, hnear, heq⟩
    rw [convert_back, Option.some.injEq] at heq
    have hback : c.alpha.map alphaBack = back :=
      elim_hexPair_injective (append_cancel_left (cons.inj heq).2)
    rwa [hback]
  · exact fun h => ⟨_, h, convert_back c raw⟩

theorem roundTrips_iff (c : Color) (raw : Bool) :
    RoundTrips c raw ↔ ∀ a ∈ c.alpha, a.val ≤ 1 ∨ 254 ≤ a.val := by
  simp only [roundTrips_iff_near, near_iff]

/-- Half of the opacity is lost. -/
theorem half_opacity_lost : ¬ RoundTrips ⟨0, 0, 0, some 128⟩ false := by
  rw [roundTrips_iff_near]
  intro h
  have hnear := h 128 rfl
  revert hnear
  unfold Near
  decide

end Millennium.Bindings.CssParser
