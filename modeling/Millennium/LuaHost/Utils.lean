import Millennium.Lib.TextReplace

/-!
# Strings of the Lua API

`utils.split` with `utils.join`, and `utils.url_encode` with `utils.url_decode`.
-/

namespace Millennium.LuaHost.Utils

open List TextReplace

/-- What `luaL_checkstring` gives: octets up to the first NUL. -/
structure CString where
  chars : List Char
  octets : ∀ c ∈ chars, 0 < c.toNat ∧ c.toNat < 256

/-- What is before and behind the place that `find` gives. An empty text is found at once. -/
def find (delimiter s : List Char) : Option (List Char × List Char) :=
  if delimiter = [] then some ([], s) else splitFirst id delimiter s

/-- `Lua_Split`, of which so many turns of the loop are made. -/
def luaSplit (delimiter : List Char) : Nat → List Char → Option (List (List Char))
  | 0, _ => none
  | turns + 1, s =>
    match find delimiter s with
    | none => some [s]
    | some (before, rest) => (luaSplit delimiter turns rest).map (before :: ·)

/-- The loop of `Lua_Join` from an index on. What `lua_tostring` cannot convert is `none`. -/
def joinFrom (delim : List Char) : Nat → List (Option (List Char)) → List Char → List Char
  | _, [], result => result
  | i, none :: items, result => joinFrom delim (i + 1) items result
  | i, some val :: items, result =>
    joinFrom delim (i + 1) items ((if 1 < i then result ++ delim else result) ++ val)

def luaJoin (items : List (Option (List Char))) (delim : List Char) : List Char :=
  joinFrom delim 1 items []

/-- `split` returns, and `join` is its inverse unless the delimiter is empty. -/
def SplitsBack (s d : List Char) : Prop :=
  ∃ turns pieces, luaSplit d turns s = some pieces ∧
    (d ≠ [] → (∀ piece ∈ pieces, ¬ d <:+: piece) ∧ luaJoin (pieces.map some) d = s)

lemma luaSplit_nil (turns : Nat) (s : List Char) : luaSplit [] turns s = none := by
  induction turns generalizing s with
  | zero => rfl
  | succ turns ih => simp [luaSplit, find, ih]

lemma not_splitsBack_nil (s : List Char) : ¬ SplitsBack s [] := by
  rintro ⟨turns, pieces, hpieces, -⟩
  rw [luaSplit_nil] at hpieces
  cases hpieces

lemma joinFrom_eq {i : Nat} (hi : 1 < i) (pieces : List (List Char)) (d result : List Char) :
    joinFrom d i (pieces.map some) result = result ++ pieces.flatMap (d ++ ·) := by
  induction pieces generalizing i result with
  | nil => simp [joinFrom]
  | cons piece pieces ih => simp [joinFrom, hi, ih (Nat.lt_succ_of_lt hi)]

lemma luaJoin_cons (piece : List Char) (pieces : List (List Char)) (d : List Char) :
    luaJoin ((piece :: pieces).map some) d = piece ++ pieces.flatMap (d ++ ·) :=
  joinFrom_eq (by decide) pieces d piece

section
variable {d s before rest : List Char}

lemma not_isInfix_of_splitFirst (h : splitFirst id d s = some (before, rest)) (hd : d ≠ []) :
    ¬ d <:+: before := by
  induction s generalizing before with
  | nil => cases h
  | cons c s ih =>
    rw [splitFirst, map_id] at h
    split_ifs at h with hpat
    · obtain ⟨rfl, -⟩ := Prod.mk.inj (Option.some.inj h)
      exact fun hin => hd (infix_nil.mp hin)
    · obtain ⟨⟨before, rest⟩, hsplit, heq⟩ := Option.map_eq_some_iff.mp h
      obtain ⟨rfl, rfl⟩ := Prod.mk.inj heq
      obtain ⟨found, -, rfl⟩ := splitFirst_spec id hsplit
      rw [infix_cons_iff, not_or]
      refine ⟨fun hp => hpat <| isPrefixOf_iff_prefix.mpr <| hp.trans ?_, ih hsplit⟩
      rw [append_assoc, ← cons_append]
      exact prefix_append _ _

lemma exists_luaSplit (hd : d ≠ []) (s : List Char) : ∃ turns piece pieces,
    luaSplit d turns s = some (piece :: pieces) ∧ (∀ p ∈ piece :: pieces, ¬ d <:+: p) ∧
      piece ++ pieces.flatMap (d ++ ·) = s := by
  -- on the length, as every turn takes the delimiter away
  induction hlen : s.length using Nat.strong_induction_on generalizing s with
  | _ n ih =>
    by_cases hin : d <:+: s
    · obtain ⟨before, rest, hsplit⟩ := exists_splitFirst (s := s) id (by rwa [map_id]) hd
      obtain ⟨found, hfound, rfl⟩ := splitFirst_spec id hsplit
      obtain rfl : found = d := by rwa [map_id] at hfound
      have hpos : 0 < found.length := length_pos_iff.mpr hd
      simp only [length_append] at hlen
      obtain ⟨turns, piece, pieces, hpieces, hnone, hjoin⟩ := ih rest.length (by omega) rest rfl
      refine ⟨turns + 1, before, piece :: pieces, ?_,
        forall_mem_cons.mpr ⟨not_isInfix_of_splitFirst hsplit hd, hnone⟩, ?_⟩
      · rw [luaSplit, find, if_neg hd, hsplit]
        simp only [hpieces, Option.map_some]
      · rw [flatMap_cons, append_assoc found, hjoin, append_assoc]
    · have hnone : splitFirst id d s = none := splitFirst_of_not_mem id (by rwa [map_id])
      refine ⟨1, s, [], ?_, by simpa using hin, by rw [flatMap_nil, append_nil]⟩
      rw [luaSplit, find, if_neg hd, hnone]

lemma splitsBack_of_ne_nil (hd : d ≠ []) (s : List Char) : SplitsBack s d := by
  obtain ⟨turns, piece, pieces, hpieces, hnone, hjoin⟩ := exists_luaSplit hd s
  exact ⟨turns, piece :: pieces, hpieces, fun _ => ⟨hnone, (luaJoin_cons _ _ _).trans hjoin⟩⟩

end

/-- The loop of `split` ends exactly when the delimiter is not empty, and then `join` undoes it. -/
theorem splitsBack_iff (s d : CString) : SplitsBack s.chars d.chars ↔ d.chars ≠ [] := by
  refine ⟨fun hback hd => not_splitsBack_nil s.chars ?_, fun hd => splitsBack_of_ne_nil hd _⟩
  rwa [hd] at hback

theorem empty_delimiter_endless : ¬ SplitsBack ['a'] [] := not_splitsBack_nil _

/-- `isalnum` of some locale. Only ASCII is fixed. -/
structure Locale where
  isalnum : Char → Bool
  ascii : ∀ c : Char, c.toNat < 128 → isalnum c = c.isAlphanum

def hexText (n : Nat) : List Char := leftpad 2 '0' (Nat.toDigits 16 n)

def encodeChar (locale : Locale) (c : Char) : List Char :=
  if locale.isalnum c || c ∈ ['-', '_', '.', '~'] then [c] else '%' :: hexText c.toNat

def luaUrlEncode (locale : Locale) (input : List Char) : List Char :=
  input.flatMap (encodeChar locale)

def hexValue (ch : Char) : Option Nat :=
  if '0' ≤ ch ∧ ch ≤ '9' then some (ch.toNat - '0'.toNat)
  else if 'a' ≤ ch ∧ ch ≤ 'f' then some (ch.toNat - 'a'.toNat + 10)
  else if 'A' ≤ ch ∧ ch ≤ 'F' then some (ch.toNat - 'A'.toNat + 10)
  else none

def luaUrlDecode : List Char → List Char
  | c :: a :: b :: rest =>
    match if c = '%' then (hexValue a, hexValue b) else (none, none) with
    | (some hi, some lo) => Char.ofNat (hi <<< 4 ||| lo) :: luaUrlDecode rest
    | _ => c :: luaUrlDecode (a :: b :: rest)
  | input => input

lemma luaUrlDecode_plain {c : Char} (hc : c ≠ '%') (rest : List Char) :
    luaUrlDecode (c :: rest) = c :: luaUrlDecode rest := by
  rcases rest with - | ⟨a, - | ⟨b, rest⟩⟩
  · rfl
  · rfl
  · rw [luaUrlDecode, if_neg hc]

lemma hexText_spec : ∀ n < 256, (hexText n).map hexValue = [some (n / 16), some (n % 16)] ∧
    (n / 16) <<< 4 ||| n % 16 = n := by
  decide +kernel

lemma luaUrlDecode_encodeChar (locale : Locale) {c : Char} (hc : c.toNat < 256) (rest : List Char) :
    luaUrlDecode (encodeChar locale c ++ rest) = c :: luaUrlDecode rest := by
  rw [encodeChar]
  split_ifs with hplain
  · apply luaUrlDecode_plain
    rintro rfl
    rw [locale.ascii '%' (by decide)] at hplain
    revert hplain
    decide
  · obtain ⟨hvalues, hsum⟩ := hexText_spec c.toNat hc
    obtain ⟨a, l, htext, ha, hl⟩ := map_eq_cons_iff.mp hvalues
    obtain ⟨b, l, rfl, hb, hl⟩ := map_eq_cons_iff.mp hl
    obtain rfl := map_eq_nil_iff.mp hl
    rw [htext]
    show luaUrlDecode ('%' :: a :: b :: rest) = _
    rw [luaUrlDecode, if_pos rfl, ha, hb]
    simp only [hsum, Char.ofNat_toNat]

/-- What is encoded is decoded again. -/
theorem luaUrlDecode_luaUrlEncode (locale : Locale) (s : CString) :
    luaUrlDecode (luaUrlEncode locale s.chars) = s.chars := by
  obtain ⟨chars, hoctets⟩ := s
  induction chars with
  | nil => rfl
  | cons c chars ih =>
    rw [forall_mem_cons] at hoctets
    rw [luaUrlEncode, flatMap_cons, luaUrlDecode_encodeChar locale hoctets.1.2]
    exact congrArg (c :: ·) (ih hoctets.2)

end Millennium.LuaHost.Utils
