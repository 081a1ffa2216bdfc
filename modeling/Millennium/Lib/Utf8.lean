import Millennium.Lib.Bytes

/-!
# UTF-8

Octets that are the encoding of characters, where these end, and texts that are cut
and put together there.
-/

namespace Millennium.Utf8

open Bytes List Char

def encode (chars : List Char) : Octets := chars.flatMap String.utf8EncodeChar

def IsUtf8 (text : Octets) : Prop := ∃ chars, text = encode chars

/-- A character begins or the text ends at this offset. -/
def IsBoundary (text : Octets) (i : Nat) : Prop :=
  ∃ before after, text = encode before ++ encode after ∧ (encode before).length = i

@[simp] lemma encode_nil : encode [] = [] := rfl

@[simp] lemma encode_cons (c : Char) (chars : List Char) :
    encode (c :: chars) = String.utf8EncodeChar c ++ encode chars := rfl

lemma encode_append (chars chars' : List Char) :
    encode (chars ++ chars') = encode chars ++ encode chars' :=
  flatMap_append

lemma isUtf8_encode (chars : List Char) : IsUtf8 (encode chars) := ⟨chars, rfl⟩

lemma IsUtf8.append {text text' : Octets} (h : IsUtf8 text) (h' : IsUtf8 text') :
    IsUtf8 (text ++ text') := by
  obtain ⟨chars, rfl⟩ := h
  obtain ⟨chars', rfl⟩ := h'
  exact ⟨chars ++ chars', (encode_append chars chars').symm⟩

lemma validateUTF8_iff (text : Octets) : text.toByteArray.validateUTF8 = true ↔ IsUtf8 text := by
  constructor
  · intro h
    obtain ⟨chars, hchars⟩ := ByteArray.validateUTF8_eq_true_iff.mp h
    exact ⟨chars, toByteArray_inj.mp hchars⟩
  · intro h
    obtain ⟨chars, rfl⟩ := h
    exact ByteArray.validateUTF8_eq_true_iff.mpr ⟨chars, rfl⟩

lemma utf8EncodeChar_append_inj {c c' : Char} {rest rest' : Octets}
    (h : String.utf8EncodeChar c ++ rest = String.utf8EncodeChar c' ++ rest') : c = c' := by
  have hfirst : ∀ (c : Char) (rest : Octets),
      (String.utf8EncodeChar c ++ rest).toByteArray.utf8DecodeChar? 0 = some c := by
    intro c rest
    rw [toByteArray_append]
    exact ByteArray.utf8DecodeChar?_utf8EncodeChar_append
  have hsome : some c = some c' := by
    calc some c = (String.utf8EncodeChar c ++ rest).toByteArray.utf8DecodeChar? 0 :=
        (hfirst c rest).symm
      _ = (String.utf8EncodeChar c' ++ rest').toByteArray.utf8DecodeChar? 0 := by rw [h]
      _ = some c' := hfirst c' rest'
  exact Option.some.inj hsome

lemma exists_append_of_encode {before before' : List Char} {after after' : Octets}
    (h : encode before ++ after = encode before' ++ after')
    (hle : (encode before).length ≤ (encode before').length) :
    ∃ region, before' = before ++ region := by
  induction before generalizing before' with
  | nil => exact ⟨before', rfl⟩
  | cons c before ih =>
    cases before' with
    | nil =>
      have hempty : String.utf8EncodeChar c ++ encode before = [] := by
        apply length_eq_zero_iff.mp
        simpa using hle
      exact absurd (append_eq_nil_iff.mp hempty).1 String.utf8EncodeChar_ne_nil
    | cons c' before' =>
      simp only [encode_cons, append_assoc] at h
      have hc := utf8EncodeChar_append_inj h
      subst hc
      have hrest := append_cancel_left h
      simp only [encode_cons, length_append, Nat.add_le_add_iff_left] at hle
      obtain ⟨region, hregion⟩ := ih hrest hle
      exact ⟨region, by rw [hregion, cons_append]⟩

lemma encode_injective : Function.Injective encode := by
  intro chars chars' h
  obtain ⟨rest, rfl⟩ := exists_append_of_encode (congrArg (· ++ []) h) (by rw [h])
  cases rest with
  | nil => exact (append_nil chars).symm
  | cons c rest =>
    have hempty : encode (c :: rest) = [] := by
      rw [encode_append] at h
      exact append_right_eq_self.mp h.symm
    exact absurd (append_eq_nil_iff.mp hempty).1 String.utf8EncodeChar_ne_nil

lemma split_at_boundaries {text : Octets} {start stop : Nat} (hle : start ≤ stop)
    (hstart : IsBoundary text start) (hstop : IsBoundary text stop) :
    ∃ before region after, IsUtf8 before ∧ IsUtf8 region ∧ IsUtf8 after ∧
    text = before ++ region ++ after ∧ before.length = start ∧
    before.length + region.length = stop := by
  obtain ⟨before, rest, htext, rfl⟩ := hstart
  obtain ⟨before', after, htext', rfl⟩ := hstop
  obtain ⟨region, rfl⟩ := exists_append_of_encode (htext.symm.trans htext') hle
  simp only [encode_append] at htext' ⊢
  exact ⟨encode before, encode region, encode after, isUtf8_encode _, isUtf8_encode _,
    isUtf8_encode _, htext', rfl, length_append.symm⟩

def unitsOfChar (c : Char) : List Nat :=
  if c.toNat < 0x10000 then [c.toNat]
  else [0xD800 + (c.toNat - 0x10000) / 0x400, 0xDC00 + (c.toNat - 0x10000) % 0x400]

def utf16 (chars : List Char) : List Nat := chars.flatMap unitsOfChar

lemma utf16_cons (c : Char) (chars : List Char) :
    utf16 (c :: chars) = unitsOfChar c ++ utf16 chars := rfl

section
variable {c : Char}

lemma high_or {a b : UInt8} (h : 128 ≤ b.toNat) : 128 ≤ (a ||| b).toNat := by
  exact h.trans Nat.right_le_or

lemma high_of_mem_utf8EncodeChar (h : c.utf8Size ≠ 1) :
    ∀ b ∈ String.utf8EncodeChar c, 128 ≤ b.toNat := by
  rcases utf8Size_eq c with hsize | hsize | hsize | hsize
  · exact absurd hsize h
  · rw [String.utf8EncodeChar_eq_cons_cons hsize, forall_mem_cons, forall_mem_singleton]
    exact ⟨high_or (by decide), high_or (by decide)⟩
  · rw [String.utf8EncodeChar_eq_cons_cons_cons hsize, forall_mem_cons, forall_mem_cons,
      forall_mem_singleton]
    exact ⟨high_or (by decide), high_or (by decide), high_or (by decide)⟩
  · rw [String.utf8EncodeChar_eq_cons_cons_cons_cons hsize, forall_mem_cons,
      forall_mem_cons, forall_mem_cons, forall_mem_singleton]
    exact ⟨high_or (by decide), high_or (by decide), high_or (by decide), high_or (by decide)⟩

lemma length_unitsOfChar_lt (h : c.utf8Size ≠ 1) :
    (unitsOfChar c).length < (String.utf8EncodeChar c).length := by
  have hval : c.val.toNat = c.toNat := rfl
  rw [String.length_utf8EncodeChar, unitsOfChar]
  split_ifs with hunit
  · have hpos := c.utf8Size_pos
    show 1 < c.utf8Size
    omega
  · have hlarge : 65535 < c.val := by
      exact Nat.lt_of_succ_le (Nat.le_of_not_lt hunit)
    rw [utf8Size_eq_four_iff.mpr hlarge]
    show 2 < 4
    decide

lemma utf8EncodeChar_of_size_one (h : c.utf8Size = 1) :
    String.utf8EncodeChar c = [c.val.toUInt8] ∧ c.val.toUInt8.toNat < 128 ∧
    unitsOfChar c = [c.val.toUInt8.toNat] := by
  have hle : c.toNat ≤ 127 := UInt32.le_iff_toNat_le.mp (utf8Size_eq_one_iff.mp h)
  have hoctet : c.val.toUInt8.toNat = c.toNat := by
    exact Nat.mod_eq_of_lt (by change c.toNat < _; omega)
  rw [hoctet]
  exact ⟨String.utf8EncodeChar_eq_singleton h, by omega, if_pos (by omega)⟩

end

lemma length_utf16_le (chars : List Char) : (utf16 chars).length ≤ (encode chars).length := by
  induction chars with
  | nil => exact Nat.le_refl _
  | cons c chars ih =>
    rw [utf16_cons, encode_cons, length_append, length_append]
    by_cases h : c.utf8Size = 1
    · obtain ⟨hencode, -, hunits⟩ := utf8EncodeChar_of_size_one h
      rw [hencode, hunits]
      exact Nat.add_le_add_left ih 1
    · exact Nat.add_le_add (length_unitsOfChar_lt h).le ih

lemma utf16_eq_iff (chars : List Char) :
    utf16 chars = (encode chars).map UInt8.toNat ↔ ∀ b ∈ encode chars, b.toNat < 128 := by
  induction chars with
  | nil => exact ⟨fun _ => forall_mem_nil _, fun _ => rfl⟩
  | cons c chars ih =>
    rw [utf16_cons, encode_cons, map_append, forall_mem_append]
    by_cases h : c.utf8Size = 1
    · obtain ⟨hencode, hascii, hunits⟩ := utf8EncodeChar_of_size_one h
      rw [hencode, hunits, forall_mem_singleton, and_iff_right hascii, ← ih]
      exact append_right_inj _
    · -- more octets than code units, and the first octet is not ASCII
      have hlt := length_unitsOfChar_lt h
      have hle := length_utf16_le chars
      constructor
      · intro heq
        have hlen := congrArg List.length heq
        rw [length_append, length_append, length_map, length_map] at hlen
        omega
      · intro hall
        obtain ⟨b, hb⟩ := exists_mem_of_ne_nil _ (String.utf8EncodeChar_ne_nil (c := c))
        have hhigh := high_of_mem_utf8EncodeChar h b hb
        have hascii := hall.1 b hb
        omega

lemma zero_mem_utf16 {chars : List Char} (h : 0 ∈ encode chars) : 0 ∈ utf16 chars := by
  obtain ⟨c, hc, hzero⟩ := mem_flatMap.mp h
  refine mem_flatMap.mpr ⟨c, hc, ?_⟩
  by_cases hsize : c.utf8Size = 1
  · obtain ⟨hencode, -, hunits⟩ := utf8EncodeChar_of_size_one hsize
    rw [hencode, mem_singleton] at hzero
    rw [hunits, ← hzero]
    exact mem_singleton_self _
  · have hhigh := high_of_mem_utf8EncodeChar hsize 0 hzero
    exact absurd hhigh (by decide)

lemma utf8EncodeChar_ofNat {b : UInt8} (h : b.toNat < 128) :
    String.utf8EncodeChar (ofNat b.toNat) = [b] := by
  have hvalid : b.toNat.isValidChar := .inl (by omega)
  have hval : (ofNat b.toNat).val.toNat = b.toNat := by
    rw [ofNat, dif_pos hvalid]
    rfl
  have hsize : (ofNat b.toNat).utf8Size = 1 := by
    rw [utf8Size_eq_one_iff, UInt32.le_iff_toNat_le, hval]
    exact Nat.le_of_lt_succ h
  rw [String.utf8EncodeChar_eq_singleton hsize, singleton_inj, ← UInt8.toNat_inj,
    UInt32.toNat_toUInt8, hval]
  exact Nat.mod_eq_of_lt b.toNat_lt

lemma utf8EncodeChar_ofNat_high {b : UInt8} (h : 128 ≤ b.toNat) :
    ∃ x y, String.utf8EncodeChar (ofNat b.toNat) = [x, y] ∧ 128 ≤ x.toNat ∧ 128 ≤ y.toNat := by
  have hlt := b.toNat_lt
  have hvalid : b.toNat.isValidChar := .inl (by omega)
  have hval : (ofNat b.toNat).val.toNat = b.toNat := by
    rw [ofNat, dif_pos hvalid]
    rfl
  have hsize : (ofNat b.toNat).utf8Size = 2 := by
    rw [utf8Size_eq_two_iff, UInt32.lt_iff_toNat_lt, UInt32.le_iff_toNat_le, hval]
    exact ⟨h, by change b.toNat ≤ 2047; omega⟩
  have hhigh := high_of_mem_utf8EncodeChar (c := ofNat b.toNat) (by rw [hsize]; decide)
  rw [String.utf8EncodeChar_eq_cons_cons hsize] at hhigh ⊢
  exact ⟨_, _, rfl, hhigh _ (by simp), hhigh _ (by simp)⟩

lemma isUtf8_of_ascii {s : Octets} (h : ∀ b ∈ s, b.toNat < 128) : IsUtf8 s := by
  induction s with
  | nil => exact ⟨[], rfl⟩
  | cons b s ih =>
    rw [forall_mem_cons] at h
    obtain ⟨chars, rfl⟩ := ih h.2
    exact ⟨ofNat b.toNat :: chars, by rw [encode_cons, utf8EncodeChar_ofNat h.1]; rfl⟩

end Millennium.Utf8
