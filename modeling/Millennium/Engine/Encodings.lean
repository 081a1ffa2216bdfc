import Millennium.Engine.RequestPaused
import Millennium.System.Crypto

/-!
# Round trips of encodings

A path is written into a URL octet by octet, in hexadecimal where it has to be, and read back.
Base64 is written by two functions and read by one.
-/

namespace Millennium.Engine

open Bytes List Base64
open System.Crypto hiding base64Encode base64Decode base64Encode_eq

structure AbsolutePath where
  rest : Octets
  nulFree : 0 ∉ rest

def AbsolutePath.octets (p : AbsolutePath) : Octets := 0x2F :: p.rest

def AbsolutePath.ReadBack (p : AbsolutePath) : Prop :=
  getPathFromUrl (pathChars (platEncodeUrl p.octets)) = pathChars p.octets

/-- A digit of `std::hex` with `std::uppercase`. -/
def hexChar (n : Nat) : Char := (Nat.digitChar n).toUpper

lemma hexChar_spec : ∀ n < 16, isXDigit (hexChar n) = true ∧ hexValue (hexChar n) = n ∧
    hexChar n ∉ ['%', '+'] ∧ hexChar n ≠ Char.ofNat n := by
  decide +kernel

lemma encodeUrl_octet (c : UInt8) :
    pathChars (encodeUrl [c]) = [Char.ofNat c.toNat] ∧ Char.ofNat c.toNat ∉ ['%', '+'] ∧
    16 ≤ c.toNat ∨
    pathChars (encodeUrl [c]) = ['+'] ∧ c.toNat = 32 ∨
    pathChars (encodeUrl [c]) = ['%', hexChar (c.toNat / 16), hexChar (c.toNat % 16)] ∧
    16 ≤ c.toNat ∨
    pathChars (encodeUrl [c]) = ['%', hexChar c.toNat] ∧ c.toNat < 16 := by
  have hall : ∀ n < 256,
      pathChars (encodeUrl [.ofNat n]) = [Char.ofNat n] ∧ Char.ofNat n ∉ ['%', '+'] ∧ 16 ≤ n ∨
        pathChars (encodeUrl [.ofNat n]) = ['+'] ∧ n = 32 ∨
        pathChars (encodeUrl [.ofNat n]) = ['%', hexChar (n / 16), hexChar (n % 16)] ∧ 16 ≤ n ∨
        pathChars (encodeUrl [.ofNat n]) = ['%', hexChar n] ∧ n < 16 := by
    decide +kernel
  simpa using hall c.toNat c.toNat_lt

lemma decodeUrl_plain {c : Char} (h : c ∉ ['%', '+']) (rest : List Char) :
    decodeUrl (c :: rest) = c :: decodeUrl rest := by
  rw [decodeUrl] <;> simp_all

lemma decodeUrl_octet {c : UInt8} (hc : 16 ≤ c.toNat) (rest : List Char) :
    decodeUrl (pathChars (encodeUrl [c]) ++ rest) = Char.ofNat c.toNat :: decodeUrl rest := by
  rcases encodeUrl_octet c with ⟨h, hplain, -⟩ | ⟨h, hspace⟩ | ⟨h, -⟩ | ⟨-, hlt⟩
  · rw [h]
    exact decodeUrl_plain hplain rest
  · rw [h, hspace]
    rfl
  · have hlt := c.toNat_lt
    obtain ⟨hx, hvalue, -⟩ := hexChar_spec (c.toNat / 16) (by omega)
    obtain ⟨hx', hvalue', -⟩ := hexChar_spec (c.toNat % 16) (by omega)
    rw [h]
    show decodeUrl ('%' :: _ :: _ :: rest) = _
    rw [decodeUrl, if_pos ⟨hx, hx'⟩, hvalue, hvalue', Nat.div_add_mod]
  · omega

/-- One digit is dropped with the percent sign, or taken together with the next character. -/
lemma decodeUrl_octet_ne {c : UInt8} (hpos : c ≠ 0) (hc : c.toNat < 16) (rest s : List Char) :
    decodeUrl (pathChars (encodeUrl [c]) ++ rest) ≠ Char.ofNat c.toNat :: s := by
  obtain ⟨-, hvalue, hplain, hne⟩ := hexChar_spec c.toNat hc
  have hnat : c.toNat ≠ 0 := fun h => hpos (UInt8.toNat_inj.mp h)
  have hfirst : ∀ more, decodeUrl (hexChar c.toNat :: more) ≠ Char.ofNat c.toNat :: s := by
    intro more
    rw [decodeUrl_plain hplain]
    exact fun h => hne (cons.inj h).1
  have hencoded : pathChars (encodeUrl [c]) = ['%', hexChar c.toNat] := by
    rcases encodeUrl_octet c with ⟨-, -, h⟩ | ⟨-, h⟩ | ⟨-, h⟩ | ⟨h, -⟩
    · omega
    · omega
    · omega
    · exact h
  rw [hencoded]
  cases rest with
  | nil => exact hfirst []
  | cons e rest =>
    show decodeUrl ('%' :: _ :: e :: rest) ≠ _
    rw [decodeUrl]
    split_ifs with hdigits
    · intro h
      have hnumber := congrArg Char.toNat (cons.inj h).1
      have hvalid : c.toNat.isValidChar := .inl (by omega)
      rw [hvalue, Char.ofNat, Char.ofNat, dif_pos hvalid] at hnumber
      by_cases hlarge : (16 * c.toNat + hexValue e).isValidChar
      · rw [dif_pos hlarge] at hnumber
        have : 16 * c.toNat + hexValue e = c.toNat := hnumber
        omega
      · rw [dif_neg hlarge] at hnumber
        exact hnat hnumber.symm
    · exact hfirst (e :: rest)

lemma decodeUrl_encodeUrl_iff {s : Octets} (h : 0 ∉ s) :
    decodeUrl (pathChars (encodeUrl s)) = pathChars s ↔ ∀ c ∈ s, 16 ≤ c.toNat := by
  induction s with
  | nil => exact iff_of_true rfl (forall_mem_nil _)
  | cons c s ih =>
    rw [mem_cons, not_or] at h
    have hsplit : pathChars (encodeUrl (c :: s)) =
        pathChars (encodeUrl [c]) ++ pathChars (encodeUrl s) := by
      simp [pathChars, encodeUrl]
    rw [hsplit, forall_mem_cons, ← ih h.2]
    rcases Nat.lt_or_ge c.toNat 16 with hc | hc
    · exact iff_of_false (decodeUrl_octet_ne (Ne.symm h.1) hc _ _) fun hle => by omega
    · rw [decodeUrl_octet hc]
      simp [pathChars, hc]

lemma cutQuery_encodeUrl (s : Octets) :
    cutQuery (pathChars (encodeUrl s)) = pathChars (encodeUrl s) := by
  have hall : ∀ n < 256, '?' ∉ pathChars (encodeUrl [.ofNat n]) := by decide +kernel
  rw [cutQuery, takeWhile_eq_self_iff]
  intro x hx
  simp only [pathChars, encodeUrl, map_flatMap, mem_flatMap] at hx
  obtain ⟨c, -, hc⟩ := hx
  have hquery := hall c.toNat c.toNat_lt
  rw [UInt8.ofNat_toNat, encodeUrl, flatMap_singleton] at hquery
  exact decide_eq_true fun h => hquery (h ▸ hc)

theorem AbsolutePath.pathReadBack_iff (p : AbsolutePath) :
    p.ReadBack ↔ ∀ c ∈ p.octets, 16 ≤ c.toNat := by
  rw [ReadBack, getPathFromUrl, octets, platEncodeUrl, cutQuery_encodeUrl, forall_mem_cons,
    ← decodeUrl_encodeUrl_iff p.nulFree]
  simp [pathChars]

theorem newline_not_readBack : ¬ AbsolutePath.ReadBack ⟨[0x0A], by decide⟩ := by
  rw [AbsolutePath.ReadBack]
  decide +kernel

structure GroupEncoder where
  encoded : Octets
  held : Octets

/-- The characters for `char_array_4`, with zeros where there are less than three octets. -/
def groupChars (held : Octets) : Octets :=
  let a := (held.getD 0 0).toNat
  let b := (held.getD 1 0).toNat
  let c := (held.getD 2 0).toNat
  [charOf ((a &&& 0xFC) >>> 2), charOf ((a &&& 0x03) <<< 4 + (b &&& 0xF0) >>> 4),
    charOf ((b &&& 0x0F) <<< 2 + (c &&& 0xC0) >>> 6), charOf (c &&& 0x3F)]

def GroupEncoder.step (s : GroupEncoder) (c : UInt8) : GroupEncoder :=
  let held := s.held ++ [c]
  if held.length = 3 then ⟨s.encoded ++ groupChars held, []⟩ else { s with held }

def GroupEncoder.finish (s : GroupEncoder) : Octets :=
  if s.held = [] then s.encoded
  else s.encoded ++ (groupChars s.held).take (s.held.length + 1) ++
    replicate (3 - s.held.length) pad

def base64EncodeVector (data : Octets) : Octets :=
  (data.foldl GroupEncoder.step ⟨[], []⟩).finish

lemma groupChars_eq (held : Octets) : groupChars held =
    [charOf ((held.getD 0 0).toNat / 4),
    charOf ((held.getD 0 0).toNat % 4 * 16 + (held.getD 1 0).toNat / 16),
    charOf ((held.getD 1 0).toNat % 16 * 4 + (held.getD 2 0).toNat / 64),
    charOf ((held.getD 2 0).toNat % 64)] := by
  have hall : ∀ n < 256, (n &&& 0xFC) >>> 2 = n / 4 ∧ (n &&& 0x03) <<< 4 = n % 4 * 16 ∧
      (n &&& 0xF0) >>> 4 = n / 16 ∧ (n &&& 0x0F) <<< 2 = n % 16 * 4 ∧
      (n &&& 0xC0) >>> 6 = n / 64 ∧ n &&& 0x3F = n % 64 := by
    decide +kernel
  have hoctet : ∀ c : UInt8, _ := fun c => hall c.toNat c.toNat_lt
  simp only [groupChars, hoctet]

lemma GroupEncoder.finish_foldl (data out : Octets) :
    (data.foldl step ⟨out, []⟩).finish = out ++ encode data := by
  fun_induction encode data generalizing out with
  | case1 => exact (append_nil out).symm
  | case2 a => simp [step, finish, groupChars_eq]
  | case3 a b => simp [step, finish, groupChars_eq]
  | case4 a b c rest ih =>
    rw [foldl_cons, foldl_cons, foldl_cons]
    simp [step, groupChars_eq, ih]

lemma exists_charOf {c : UInt8} (h : c ∈ alphabet) : ∃ v < 64, charOf v = c := by
  obtain ⟨v, hv, rfl⟩ := mem_iff_getElem.mp h
  exact ⟨v, hv, by rw [charOf, getD_eq_getElem?_getD, getElem?_eq_getElem hv]; rfl⟩

lemma base64Decode_eq {s : Octets} (h : ∀ x ∈ s, x ∈ alphabet ∨ x = pad) (out : Octets)
    (bits count : Nat) :
    base64Decode s ⟨out, bits, count - 8⟩ = base64DecodeFrom s ⟨out, bits, count⟩ := by
  induction s generalizing out bits count with
  | nil => rfl
  | cons c s ih =>
    obtain ⟨hc, hs⟩ := forall_mem_cons.mp h
    rcases hc with hc | rfl
    · obtain ⟨v, hv, rfl⟩ := exists_charOf hc
      have hval : (bits * 64 + v) % 2 ^ 32 = bits * 64 % 2 ^ 32 + v := by omega
      rw [base64DecodeFrom_charOf hv, base64Decode, bitsOf_charOf hv, BitReader.push, push_bits hv]
      simp only [hval]
      by_cases hcount : 8 ≤ count + 6
      · have hvalb : (count : Int) - 8 + 6 = (count + 6 - 8 : Nat) := by omega
        rw [if_pos hcount, hvalb, if_pos (Int.natCast_nonneg _), ih hs, Int.toNat_natCast]
      · have hvalb : (count : Int) - 8 + 6 = (count + 6 : Nat) - 8 := by omega
        rw [if_neg hcount, hvalb, if_neg (by omega), ih hs]
    · rw [base64DecodeFrom_pad]
      rfl

theorem base64_round_trip (s : Octets) :
    base64Decode (base64Encode s) ⟨[], 0, -8⟩ = s ∧ base64EncodeVector s = base64Encode s := by
  rw [base64Encode_eq]
  constructor
  · have hread := base64Decode_eq (forall_mem_encode s) [] 0 0
    rw [base64DecodeFrom_encode s ⟨rfl, rfl, rfl⟩] at hread
    exact hread
  · exact GroupEncoder.finish_foldl s []

end Millennium.Engine
